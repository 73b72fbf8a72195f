import ServiceHost.Proofs.Graph.History
import ServiceHost.Proofs.Graph.Needs

/-!
# The check before a construction

`Graph.verify` succeeds exactly if nothing that the component needs is faulty (`verify_ok_iff`). A
walk that comes to its end leaves the components it has been to in order (`visit_ok`): a component
is added after its inputs were walked, and is not among them, for the keys on the way are refused. A
walk that fails has found something faulty at its end or at a component on the way, which needs that
end (`visit_error`). The walk is deep enough because the keys on the way are distinct keys of the
graph.
-/

namespace ServiceHost

open Relation

variable {σ ι : Type}

/-- The error says that something is not registered or leads back to itself. -/
def GraphError.ofCheck : GraphError → Bool
  | .missingDependency _ _ => true
  | .circularDependency _ => true
  | _ => false

namespace Graph

/-- No component is under construction, and no construction has ended in a panic. -/
structure Calm (g : Graph σ ι) : Prop where
  unlocked : g.LockedIn []
  unmarked : g.Unmarked

section
variable {g : Graph σ ι} {path done done' : List Key} {key : Key} {node : Node σ ι}

/-- In a calm graph the walk goes on through the components that are still to be made. -/
theorem Calm.isCached_eq_false_iff (hg : g.Calm) (hnode : g.node? key = some node) :
    node.isCached = false ↔ g.Pending key := by
  constructor
  · intro h
    cases node with
    | value => cases h
    | recipe inputs construct cache =>
      refine ⟨inputs, construct, cache, hnode, ?_⟩
      have hlocked : cache.locked = false := hg.unlocked.free hnode List.not_mem_nil
      have hpoisoned : cache.poisoned = false := by
        cases hpoisoned : cache.poisoned with
        | false => rfl
        | true => exact absurd ⟨_, _, cache, hnode, hpoisoned⟩ (hg.unmarked key)
      simpa [Node.isCached, hlocked, hpoisoned] using h
  · rintro ⟨inputs, construct, cache, hnode', hnone⟩
    cases hnode.symm.trans hnode'
    simp [Node.isCached, hnone]

/-! ## A walk that comes to its end -/

/-- What a walk under `path` makes of the components it has been to. -/
structure Walked (g : Graph σ ι) (path done done' : List Key) : Prop where
  ordered : g.Ordered done'
  kept : done ⊆ done'
  /-- The walk does not go to the keys on the way. -/
  off : ∀ k ∈ done', k ∈ done ∨ k ∉ path

theorem Walked.refl (h : g.Ordered done) : g.Walked path done done :=
  ⟨h, List.Subset.refl _, fun _ hk => .inl hk⟩

theorem Walked.trans {done'' : List Key} (h : g.Walked path done done')
    (h' : g.Walked path done' done'') : g.Walked path done done'' where
  ordered := h'.ordered
  kept := List.Subset.trans h.kept h'.kept
  off k hk := (h'.off k hk).elim (h.off k) .inr

/-- Walking inputs one after another goes to all of them that are to be made. -/
theorem visitInputs_ok {visit : Key → Node σ ι → List Key → Except GraphError (List Key)}
    {inputs : Inputs} (h : g.Ordered done) (hvisit : ∀ key node done done', key ∉ path →
      g.node? key = some node → g.Ordered done → visit key node done = .ok done' →
      g.Walked path done done' ∧ (g.Pending key → key ∈ done'))
    (hok : g.visitInputs path visit inputs done = .ok done') :
    g.Walked path done done' ∧ ∀ p ∈ inputs, g.Pending p.key → p.key ∈ done' := by
  induction inputs generalizing done with
  | nil =>
    cases hok
    exact ⟨.refl h, nofun⟩
  | cons p rest ih =>
    unfold visitInputs at hok
    split at hok
    · cases hok
    next hoff =>
    cases hnode : g.node? p.key with
    | none =>
      simp only [hnode] at hok
      obtain ⟨hwalked, hall⟩ := ih h hok
      refine ⟨hwalked, List.forall_mem_cons.2 ⟨?_, hall⟩⟩
      rintro ⟨_, _, _, hsome, _⟩
      cases hnode.symm.trans hsome
    | some node =>
      simp only [hnode] at hok
      split at hok
      · next done₁ hfirst =>
        obtain ⟨hwalked, hmem⟩ := hvisit p.key node done done₁ hoff hnode h hfirst
        obtain ⟨hrest, hall⟩ := ih hwalked.ordered hok
        exact ⟨hwalked.trans hrest,
          List.forall_mem_cons.2 ⟨fun hpending => hrest.kept (hmem hpending), hall⟩⟩
      · cases hok

/-- The first required input that is missing is such an input. -/
theorem missing_of_firstMissing {inputs : Inputs} {p : Param}
    (h : g.firstMissing inputs = some p) :
    p ∈ inputs ∧ p.optional = false ∧ g.node? p.key = none := by
  have hlacks := List.find?_some h
  rw [Bool.and_eq_true, Bool.not_eq_true', Bool.not_eq_true', contains,
    Option.isSome_eq_false_iff, Option.isNone_iff_eq_none] at hlacks
  exact ⟨List.mem_of_find?_eq_some h, hlacks⟩

/-- If none is missing, all required inputs are registered. -/
theorem required_of_firstMissing {inputs : Inputs} (h : g.firstMissing inputs = none) :
    ∀ p ∈ inputs, p.optional = false → g.node? p.key ≠ none := by
  intro p hp hoptional hnone
  have hfound := List.find?_eq_none.1 h p hp
  simp [contains, hoptional, hnone] at hfound

/-- The keys on the way to a key of the graph are fewer than its nodes. -/
theorem path_length_lt (hnode : g.node? key = some node) (hpath : path.Nodup)
    (hkeys : path ⊆ g.keys) (hoff : key ∉ path) : path.length < g.size := by
  have hnodup : (key :: path).Nodup := List.nodup_cons.2 ⟨hoff, hpath⟩
  have hsub : key :: path ⊆ g.keys := List.cons_subset.2 ⟨mem_keys_of_node? hnode, hkeys⟩
  have hle := hnodup.length_le_of_subset hsub
  rw [keys, List.length_map, List.length_cons] at hle
  exact hle

/-- A walk that comes to its end leaves the components it has been to in order, and has been to the
component that it set out for, if that is to be made. -/
theorem visit_ok (hg : g.Calm) (depth : Nat) (hnode : g.node? key = some node)
    (hpath : path.Nodup) (hkeys : path ⊆ g.keys) (hoff : key ∉ path)
    (hdepth : g.size ≤ path.length + depth) (h : g.Ordered done)
    (hok : g.visit depth path key node done = .ok done') :
    g.Walked path done done' ∧ (g.Pending key → key ∈ done') := by
  induction depth generalizing path key node done done' with
  | zero => exact absurd hdepth (Nat.not_le_of_lt (path_length_lt hnode hpath hkeys hoff))
  | succ depth ih =>
    unfold visit at hok
    split at hok
    · next hskip =>
      cases hok
      refine ⟨.refl h, fun hpending => ?_⟩
      rw [(hg.isCached_eq_false_iff hnode).2 hpending, Bool.or_false] at hskip
      exact of_decide_eq_true hskip
    next hskip =>
    rw [Bool.or_eq_true, not_or, decide_eq_true_iff, Bool.not_eq_true] at hskip
    obtain ⟨hnew, hcached⟩ := hskip
    cases node with
    | value => cases hcached
    | recipe inputs construct cache =>
      obtain ⟨inputs', hunbuilt⟩ := (hg.isCached_eq_false_iff hnode).1 hcached
      obtain rfl : inputs = inputs' := by
        obtain ⟨_, _, hnode', _⟩ := hunbuilt
        cases hnode.symm.trans hnode'
        rfl
      simp only at hok
      split at hok
      · cases hok
      next hmissing =>
      split at hok
      · next done₁ hinputs =>
        cases hok
        have hpath' : (path ++ [key]).Nodup := by
          refine List.nodup_append.2 ⟨hpath, List.pairwise_singleton .., ?_⟩
          rintro a ha b hb rfl
          exact hoff (List.mem_singleton.1 hb ▸ ha)
        have hkeys' : path ++ [key] ⊆ g.keys :=
          List.append_subset.2 ⟨hkeys, List.cons_subset.2 ⟨hunbuilt.mem_keys, List.nil_subset _⟩⟩
        obtain ⟨hwalked, hall⟩ := visitInputs_ok h
          (fun k node done done' hoff hnode h hok => ih hnode hpath' hkeys' hoff
            (by rw [List.length_append, List.length_singleton]; omega) h hok) hinputs
        have hlast : key ∉ done₁ := fun hmem =>
          (hwalked.off key hmem).elim hnew
            fun hoff => hoff (List.mem_append_right _ (List.mem_singleton_self _))
        have hrequired := required_of_firstMissing hmissing
        refine ⟨⟨.snoc hwalked.ordered hlast hunbuilt hrequired hall, ?_, ?_⟩, fun _ => ?_⟩
        · exact fun k hk => List.mem_append_left _ (hwalked.kept hk)
        · intro k hk
          rcases List.mem_append.1 hk with hk | hk
          · exact (hwalked.off k hk).imp_right fun hoff hpath =>
              hoff (List.mem_append_left _ hpath)
          · rw [List.mem_singleton.1 hk]
            exact .inr hoff
        · exact List.mem_append_right _ (List.mem_singleton_self _)
      · cases hok

/-! ## A walk that fails -/

/-- Why a walk fails at a component to be made. -/
inductive Stopped (g : Graph σ ι) (depth : Nat) (path : List Key) (key : Key) (inputs : Inputs) :
    GraphError → Prop
  /-- A required input is not registered. -/
  | lacking {p : Param} (hp : p ∈ inputs) (hrequired : p.optional = false)
      (hnone : g.node? p.key = none) :
      Stopped g depth path key inputs (.missingDependency p.key (some key))
  /-- An input is on the way, or is the component itself. -/
  | back {p : Param} (hp : p ∈ inputs) (hback : p.key ∈ path ++ [key]) :
      Stopped g depth path key inputs (circular (path ++ [key]) p.key)
  /-- The walk to an input fails. -/
  | below {p : Param} {node : Node σ ι} {done : List Key} {e : GraphError} (hp : p ∈ inputs)
      (hoff : p.key ∉ path ++ [key]) (hnode : g.node? p.key = some node)
      (h : g.visit depth (path ++ [key]) p.key node done = .error e) :
      Stopped g depth path key inputs e

/-- Walking inputs fails at an input that leads back, or with the walk to an input. -/
theorem visitInputs_error {visit : Key → Node σ ι → List Key → Except GraphError (List Key)}
    {inputs : Inputs} {e : GraphError} (h : g.visitInputs path visit inputs done = .error e) :
    ∃ p ∈ inputs, (p.key ∈ path ∧ e = circular path p.key) ∨
      p.key ∉ path ∧ ∃ node done, g.node? p.key = some node ∧ visit p.key node done = .error e := by
  induction inputs generalizing done with
  | nil => cases h
  | cons p rest ih =>
    unfold visitInputs at h
    split at h
    · next hback =>
      cases h
      exact ⟨p, List.mem_cons_self, .inl ⟨hback, rfl⟩⟩
    next hoff =>
    cases hnode : g.node? p.key with
    | none =>
      simp only [hnode] at h
      obtain ⟨p', hp', hcase⟩ := ih h
      exact ⟨p', List.mem_cons_of_mem p hp', hcase⟩
    | some node =>
      simp only [hnode] at h
      split at h
      · obtain ⟨p', hp', hcase⟩ := ih h
        exact ⟨p', List.mem_cons_of_mem p hp', hcase⟩
      · next hfirst =>
        cases h
        exact ⟨p, List.mem_cons_self, .inr ⟨hoff, node, done, hnode, hfirst⟩⟩

/-- A walk that fails set out for a component that is to be made. -/
theorem pending_of_visit_error (hg : g.Calm) {depth : Nat} {e : GraphError}
    (hnode : g.node? key = some node) (h : g.visit depth path key node done = .error e) :
    g.Pending key := by
  refine (hg.isCached_eq_false_iff hnode).1 ?_
  unfold visit at h
  split at h
  · cases h
  · next hskip =>
    rw [Bool.or_eq_true, not_or, Bool.not_eq_true, Bool.not_eq_true] at hskip
    exact hskip.2

/-- A walk that fails does so at an input of a component to be made. -/
theorem visit_stopped (hg : g.Calm) {depth : Nat} {e : GraphError} (hnode : g.node? key = some node)
    (h : g.visit depth path key node done = .error e) :
    ∃ below inputs, depth = below + 1 ∧ g.Unbuilt key inputs ∧
      g.Stopped below path key inputs e := by
  obtain ⟨inputs, construct, cache, hnode', hnone⟩ := pending_of_visit_error hg hnode h
  cases hnode.symm.trans hnode'
  unfold visit at h
  split at h
  · cases h
  cases depth with
  | zero => cases h
  | succ below =>
    refine ⟨below, inputs, rfl, ⟨construct, cache, hnode, hnone⟩, ?_⟩
    simp only at h
    split at h
    · next p hmissing =>
      cases h
      obtain ⟨hp, hoptional, hnone⟩ := missing_of_firstMissing hmissing
      exact .lacking hp hoptional hnone
    split at h
    · cases h
    next hinputs =>
    cases h
    obtain ⟨p, hp, ⟨hback, rfl⟩ | ⟨hoff, node, done, hnode, hvisit⟩⟩ := visitInputs_error hinputs
    · exact .back hp hback
    · exact .below hp hoff hnode hvisit

/-- A walk that fails has found something faulty that its component needs, if the components on the
way need that component. -/
theorem visit_error (hg : g.Calm) (depth : Nat) {e : GraphError} (hnode : g.node? key = some node)
    (hpath : ∀ a ∈ path, g.Needs a key) (h : g.visit depth path key node done = .error e) :
    e.ofCheck = true ∧ ∃ needed, g.Needs key needed ∧ g.Faulty needed := by
  induction depth generalizing path key node done with
  | zero =>
    obtain ⟨below, _, hdepth, -⟩ := visit_stopped hg hnode h
    cases hdepth
  | succ depth ih =>
    obtain ⟨below, inputs, hdepth, hunbuilt, hstopped⟩ := visit_stopped hg hnode h
    obtain rfl := Nat.succ.inj hdepth
    have hself : g.Needs key key := ⟨⟨_, hunbuilt⟩, .refl⟩
    have hpath' : ∀ a ∈ path ++ [key], g.Needs a key := by
      intro a ha
      rcases List.mem_append.1 ha with ha | ha
      · exact hpath a ha
      · rw [List.mem_singleton.1 ha]
        exact hself
    cases hstopped with
    | lacking hp hrequired hnone => exact ⟨rfl, key, hself, .lacking hunbuilt hp hrequired hnone⟩
    | @back p hp hback =>
      -- the input is on the way, and so it needs the component that declares it
      have hneeds := hpath' p.key hback
      have huses : g.Uses key p.key := ⟨inputs, hunbuilt, ⟨p, hp, rfl⟩, hneeds.1⟩
      exact ⟨rfl, key, hself, .looping (.head' huses hneeds.2)⟩
    | @below p _ _ _ hp _ hnode hvisit =>
      have huses : g.Uses key p.key :=
        ⟨inputs, hunbuilt, ⟨p, hp, rfl⟩, pending_of_visit_error hg hnode hvisit⟩
      obtain ⟨hkind, needed, hneeds, hfaulty⟩ :=
        ih hnode (fun a ha => (hpath' a ha).tail huses) hvisit
      exact ⟨hkind, needed, hneeds.head huses, hfaulty⟩

/-! ## The check -/

/-- The check succeeds exactly if nothing that the component needs is faulty. -/
theorem verify_ok_iff (hg : g.Calm) (hnode : g.node? key = some node) :
    g.verify key node = .ok () ↔ ¬ ∃ needed, g.Needs key needed ∧ g.Faulty needed := by
  unfold verify
  cases hvisit : g.visit g.size [] key node [] with
  | ok done =>
    obtain ⟨hwalked, hmem⟩ := visit_ok hg g.size hnode List.nodup_nil (List.nil_subset _)
      List.not_mem_nil (Nat.le_add_left ..) .nil hvisit
    refine ⟨fun _ => ?_, fun _ => rfl⟩
    rintro ⟨needed, hneeds, hfaulty⟩
    exact (hwalked.ordered.sound key (hmem hneeds.1) needed hneeds.2).2 hfaulty
  | error e =>
    refine ⟨nofun, fun hsound => ?_⟩
    exact absurd (visit_error hg g.size hnode (by simp) hvisit).2 hsound

/-- The check fails for what is not registered or leads back to itself. -/
theorem verify_error (hg : g.Calm) (hnode : g.node? key = some node) {e : GraphError}
    (h : g.verify key node = .error e) : e.ofCheck = true := by
  unfold verify at h
  split at h
  · cases h
  · next hvisit =>
    cases h
    exact (visit_error hg g.size hnode (by simp) hvisit).1

/-- A component that passes the check is the last of components in order. -/
theorem ordered_of_verify (hg : g.Calm) (hnode : g.node? key = some node)
    (h : g.verify key node = .ok ()) (hpending : g.Pending key) :
    ∃ done, g.Ordered done ∧ key ∈ done := by
  unfold verify at h
  split at h
  · next done hvisit =>
    obtain ⟨hwalked, hmem⟩ := visit_ok hg g.size hnode List.nodup_nil (List.nil_subset _)
      List.not_mem_nil (Nat.le_add_left ..) .nil hvisit
    exact ⟨done, hwalked.ordered, hmem hpending⟩
  · cases h

end

end Graph

end ServiceHost
