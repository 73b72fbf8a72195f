import Mathlib.Data.List.Nodup
import Mathlib.Data.List.Perm.Subperm
import ServiceHost.Proofs.Graph.Search

/-!
# Walks come to an end

The check before a construction is given a depth, and stops in silence where there is none left.
What it does is told here without one: `Graph.Walk` are the walks that have come to an end, by
themselves or at something that is missing or leads back. In every graph, whatever its caches hold,
there is one such walk from every node (`visit_walks`, `Walk.unique`), and it is the walk of the
check, for the keys on the way are distinct keys of the graph and the depth is their number.

A walk is told by its visits. Each visit stands on a route of distinct keys, each of a constructor
whose component is not cached (`Graph.Route`), and each key has its inputs gone through once, also
if the walk fails (`Graph.Thrifty`). So there are no more visits than declared inputs, and one
(`Walk.length_le`).
-/

namespace ServiceHost

variable {σ ι : Type}

namespace Graph

/-- One visit of a walk: the keys on the way, the key that is visited, and whether its inputs were
gone through. -/
structure Visit where
  path : List Key
  key : Key
  expanded : Bool

/-- The keys whose inputs were gone through, as often as they were. -/
def expansions (visits : List Visit) : List Key :=
  (visits.filter (·.expanded)).map (·.key)

/-- What a walk goes through: a node, or the inputs of the last key on the way that are left. -/
inductive Leg (σ ι : Type) where
  | node (key : Key) (node : Node σ ι)
  | inputs (inputs : Inputs)

/-- A walk that has come to an end: the keys on the way to it, what it has gone through, the keys
that had been before, its visits, and the keys that have been then, or why it failed. -/
inductive Walk (g : Graph σ ι) :
    List Key → Leg σ ι → List Key → List Visit → Except GraphError (List Key) → Prop
  /-- A node that has been, or whose component is there. -/
  | skip {path done : List Key} {key : Key} {node : Node σ ι}
      (h : key ∈ done ∨ node.isCached = true) :
      Walk g path (.node key node) done [⟨path, key, false⟩] (.ok done)
  /-- A required input is not registered. -/
  | lack {path done : List Key} {key : Key} {inputs : Inputs} {construct : Args ι → Program σ ι}
      {cache : Cache ι} {p : Param} (hnew : key ∉ done)
      (hcached : (Node.recipe inputs construct cache).isCached = false)
      (hlack : g.firstMissing inputs = some p) :
      Walk g path (.node key (.recipe inputs construct cache)) done [⟨path, key, true⟩]
        (.error (.missingDependency p.key (some key)))
  /-- The inputs are gone through, with the key on the way. -/
  | expand {path done : List Key} {key : Key} {inputs : Inputs} {construct : Args ι → Program σ ι}
      {cache : Cache ι} {visits : List Visit} {result : Except GraphError (List Key)}
      (hnew : key ∉ done) (hcached : (Node.recipe inputs construct cache).isCached = false)
      (hfull : g.firstMissing inputs = none)
      (h : Walk g (path ++ [key]) (.inputs inputs) done visits result) :
      Walk g path (.node key (.recipe inputs construct cache)) done (⟨path, key, true⟩ :: visits)
        (result.map (· ++ [key]))
  | nil {path done : List Key} : Walk g path (.inputs []) done [] (.ok done)
  /-- An input leads back to the way. -/
  | back {path done : List Key} {p : Param} {rest : Inputs} (hback : p.key ∈ path) :
      Walk g path (.inputs (p :: rest)) done [] (.error (circular path p.key))
  /-- An input that is not registered. -/
  | absent {path done : List Key} {p : Param} {rest : Inputs} {visits : List Visit}
      {result : Except GraphError (List Key)} (hoff : p.key ∉ path)
      (hnone : g.node? p.key = none) (h : Walk g path (.inputs rest) done visits result) :
      Walk g path (.inputs (p :: rest)) done visits result
  /-- The walk to an input fails. -/
  | fail {path done : List Key} {p : Param} {rest : Inputs} {node : Node σ ι} {visits : List Visit}
      {e : GraphError} (hoff : p.key ∉ path) (hnode : g.node? p.key = some node)
      (h : Walk g path (.node p.key node) done visits (.error e)) :
      Walk g path (.inputs (p :: rest)) done visits (.error e)
  /-- The walk to an input ends, and then that to the others. -/
  | next {path done done₁ : List Key} {p : Param} {rest : Inputs} {node : Node σ ι}
      {visits more : List Visit} {result : Except GraphError (List Key)} (hoff : p.key ∉ path)
      (hnode : g.node? p.key = some node)
      (h : Walk g path (.node p.key node) done visits (.ok done₁))
      (h' : Walk g path (.inputs rest) done₁ more result) :
      Walk g path (.inputs (p :: rest)) done (visits ++ more) result

/-- The keys on the way of a walk: each key once, and each that of a constructor whose component is
not cached. -/
structure Route (g : Graph σ ι) (path : List Key) : Prop where
  nodup : path.Nodup
  uncached : ∀ key ∈ path, ∃ inputs construct cache,
    g.node? key = some (.recipe inputs construct cache) ∧
      (Node.recipe inputs construct cache).isCached = false

/-- A node is registered under its key and does not stand on the way. -/
def Leg.Off (g : Graph σ ι) (path : List Key) : Leg σ ι → Prop
  | .node key n => g.node? key = some n ∧ key ∉ path
  | .inputs _ => True

/-- What the visits of a walk keep to. -/
structure Thrifty (g : Graph σ ι) (path done : List Key) (visits : List Visit)
    (result : Except GraphError (List Key)) : Prop where
  routes : ∀ v ∈ visits, g.Route v.path ∧ (v.expanded = true → g.Route (v.path ++ [v.key]))
  once : (expansions visits).Nodup
  /-- The keys on the way, and those that have been, are not gone through again. -/
  fresh : ∀ key ∈ expansions visits, key ∈ g.keys ∧ key ∉ path ∧ key ∉ done
  been : ∀ done', result = .ok done' → ∀ key, key ∈ done' ↔ key ∈ done ∨ key ∈ expansions visits

/-- How many inputs the keys declare together. -/
def inputCount (g : Graph σ ι) (keys : List Key) : Nat :=
  (keys.map fun key => (g.node? key).elim 0 (·.inputs.length)).foldr (· + ·) 0

/-- How many visits a walk begins with. -/
def Leg.width : Leg σ ι → Nat
  | .node _ _ => 1
  | .inputs rest => rest.length

section
variable {g : Graph σ ι} {path done : List Key} {key : Key} {node : Node σ ι} {leg : Leg σ ι}
  {visits visits' : List Visit} {result result' : Except GraphError (List Key)}

/-! ## One walk for each node -/

/-- A walk ends in one way only. -/
theorem Walk.unique (h : g.Walk path leg done visits result)
    (h' : g.Walk path leg done visits' result') : visits' = visits ∧ result' = result := by
  induction h generalizing visits' result' with
  | skip h =>
    cases h' with
    | skip => exact ⟨rfl, rfl⟩
    | lack hnew hcached => exact absurd h (not_or.2 ⟨hnew, Bool.eq_false_iff.1 hcached⟩)
    | expand hnew hcached => exact absurd h (not_or.2 ⟨hnew, Bool.eq_false_iff.1 hcached⟩)
  | lack hnew hcached hlack =>
    cases h' with
    | skip h => exact absurd h (not_or.2 ⟨hnew, Bool.eq_false_iff.1 hcached⟩)
    | lack _ _ hlack' =>
      cases hlack.symm.trans hlack'
      exact ⟨rfl, rfl⟩
    | expand _ _ hfull => cases hlack.symm.trans hfull
  | expand hnew hcached hfull _ ih =>
    cases h' with
    | skip h => exact absurd h (not_or.2 ⟨hnew, Bool.eq_false_iff.1 hcached⟩)
    | lack _ _ hlack => cases hlack.symm.trans hfull
    | expand _ _ _ h' =>
      obtain ⟨rfl, rfl⟩ := ih h'
      exact ⟨rfl, rfl⟩
  | nil =>
    cases h'
    exact ⟨rfl, rfl⟩
  | back hback =>
    cases h' with
    | back => exact ⟨rfl, rfl⟩
    | absent hoff => exact absurd hback hoff
    | fail hoff => exact absurd hback hoff
    | next hoff => exact absurd hback hoff
  | absent hoff hnone _ ih =>
    cases h' with
    | back hback => exact absurd hback hoff
    | absent _ _ h' => exact ih h'
    | fail _ hnode => cases hnone.symm.trans hnode
    | next _ hnode => cases hnone.symm.trans hnode
  | fail hoff hnode _ ih =>
    cases h' with
    | back hback => exact absurd hback hoff
    | absent _ hnone => cases hnone.symm.trans hnode
    | fail _ hnode' h' =>
      cases hnode.symm.trans hnode'
      obtain ⟨rfl, hresult⟩ := ih h'
      cases hresult
      exact ⟨rfl, rfl⟩
    | next _ hnode' h' =>
      cases hnode.symm.trans hnode'
      cases (ih h').2
  | next hoff hnode _ _ ih ih' =>
    cases h' with
    | back hback => exact absurd hback hoff
    | absent _ hnone => cases hnone.symm.trans hnode
    | fail _ hnode' h' =>
      cases hnode.symm.trans hnode'
      cases (ih h').2
    | next _ hnode' h' hrest =>
      cases hnode.symm.trans hnode'
      obtain ⟨rfl, hdone⟩ := ih h'
      cases hdone
      obtain ⟨rfl, rfl⟩ := ih' hrest
      exact ⟨rfl, rfl⟩

/-- The walk goes on through a component that is not cached. -/
theorem Route.snoc {inputs : Inputs} {construct : Args ι → Program σ ι} {cache : Cache ι}
    (h : g.Route path) (hoff : key ∉ path)
    (hnode : g.node? key = some (.recipe inputs construct cache))
    (hcached : (Node.recipe inputs construct cache).isCached = false) :
    g.Route (path ++ [key]) where
  nodup := by
    rw [← List.concat_eq_append]
    exact h.nodup.concat hoff
  uncached k hk := by
    rcases List.mem_append.1 hk with hk | hk
    · exact h.uncached k hk
    · rw [List.mem_singleton.1 hk]
      exact ⟨inputs, construct, cache, hnode, hcached⟩

theorem Route.subset_keys (h : g.Route path) : path ⊆ g.keys := by
  intro k hk
  obtain ⟨_, _, _, hnode, -⟩ := h.uncached k hk
  exact mem_keys_of_node? hnode

/-- Going through inputs comes to an end if the walk to each of them does. -/
theorem visitInputs_walks {visit : Key → Node σ ι → List Key → Except GraphError (List Key)}
    (hvisit : ∀ key node done, key ∉ path → g.node? key = some node →
      ∃ visits, g.Walk path (.node key node) done visits (visit key node done))
    (inputs : Inputs) (done : List Key) :
    ∃ visits, g.Walk path (.inputs inputs) done visits (g.visitInputs path visit inputs done) := by
  induction inputs generalizing done with
  | nil => exact ⟨[], .nil⟩
  | cons p rest ih =>
    unfold visitInputs
    split
    · next hback => exact ⟨[], .back hback⟩
    next hoff =>
    cases hnode : g.node? p.key with
    | none =>
      obtain ⟨visits, hrest⟩ := ih done
      exact ⟨visits, .absent hoff hnode hrest⟩
    | some node =>
      obtain ⟨visits, hfirst⟩ := hvisit p.key node done hoff hnode
      simp only
      cases hresult : visit p.key node done with
      | error e =>
        rw [hresult] at hfirst
        exact ⟨visits, .fail hoff hnode hfirst⟩
      | ok done₁ =>
        rw [hresult] at hfirst
        obtain ⟨more, hrest⟩ := ih done₁
        exact ⟨visits ++ more, .next hoff hnode hfirst hrest⟩

/-- The walk comes to an end, for the way is never longer than there are nodes. -/
theorem visit_walks (depth : Nat) (hnode : g.node? key = some node) (hroute : g.Route path)
    (hoff : key ∉ path) (hdepth : g.size ≤ path.length + depth) (done : List Key) :
    ∃ visits, g.Walk path (.node key node) done visits (g.visit depth path key node done) := by
  induction depth generalizing path key node done with
  | zero =>
    exact absurd hdepth
      (Nat.not_le_of_lt (path_length_lt hnode hroute.nodup hroute.subset_keys hoff))
  | succ depth ih =>
    unfold visit
    split
    · next hskip =>
      rw [Bool.or_eq_true, decide_eq_true_iff] at hskip
      exact ⟨_, .skip hskip⟩
    next hskip =>
    rw [Bool.or_eq_true, not_or, decide_eq_true_iff, Bool.not_eq_true] at hskip
    obtain ⟨hnew, hcached⟩ := hskip
    cases node with
    | value => cases hcached
    | recipe inputs construct cache =>
      simp only
      cases hmissing : g.firstMissing inputs with
      | some p => exact ⟨_, .lack hnew hcached hmissing⟩
      | none =>
        have hroute' := hroute.snoc hoff hnode hcached
        have hdepth' : g.size ≤ (path ++ [key]).length + depth := by
          rw [List.length_append, List.length_singleton]
          omega
        obtain ⟨visits, hinputs⟩ := visitInputs_walks
          (fun k node done hoff hnode => ih hnode hroute' hoff hdepth' done) inputs done
        have hwalk := Walk.expand hnew hcached hmissing hinputs
        simp only
        generalize g.visitInputs (path ++ [key]) (g.visit depth (path ++ [key])) inputs done =
          result at hwalk
        cases result with
        | error e => exact ⟨_, hwalk⟩
        | ok done₁ => exact ⟨_, hwalk⟩

/-! ## What a walk keeps to -/

@[simp] theorem expansions_nil : expansions [] = [] := rfl

@[simp] theorem expansions_skipped (path : List Key) (key : Key) (visits : List Visit) :
    expansions (⟨path, key, false⟩ :: visits) = expansions visits := rfl

@[simp] theorem expansions_expanded (path : List Key) (key : Key) (visits : List Visit) :
    expansions (⟨path, key, true⟩ :: visits) = key :: expansions visits := rfl

@[simp] theorem expansions_append (visits more : List Visit) :
    expansions (visits ++ more) = expansions visits ++ expansions more := by
  rw [expansions, List.filter_append, List.map_append]
  rfl

/-- A walk goes through the inputs of each key at most once, on routes of distinct keys that are not
cached. -/
theorem Walk.thrifty (h : g.Walk path leg done visits result) (hroute : g.Route path)
    (hleg : leg.Off g path) : g.Thrifty path done visits result := by
  induction h with
  | @skip path done key node h =>
    refine ⟨List.forall_mem_singleton.2 ⟨hroute, nofun⟩, List.nodup_nil, nofun, ?_⟩
    rintro _ ⟨⟩ k
    exact (or_iff_left List.not_mem_nil).symm
  | @lack path done key inputs construct cache p hnew hcached hlack =>
    have hroute' := hroute.snoc hleg.2 hleg.1 hcached
    refine ⟨List.forall_mem_singleton.2 ⟨hroute, fun _ => hroute'⟩, List.nodup_singleton key, ?_,
      nofun⟩
    exact List.forall_mem_singleton.2 ⟨mem_keys_of_node? hleg.1, hleg.2, hnew⟩
  | @expand path done key inputs construct cache visits result hnew hcached hfull _ ih =>
    obtain ⟨hnode, hoff⟩ := hleg
    have hroute' := hroute.snoc hoff hnode hcached
    have hbelow := ih hroute' trivial
    have hfresh (k : Key) (hk : k ∈ expansions visits) : k ∉ path ∧ k ≠ key := by
      have hk' := (hbelow.fresh k hk).2.1
      exact ⟨fun hmem => hk' (List.mem_append_left _ hmem),
        fun hsame => hk' (List.mem_append_right _ (List.mem_singleton.2 hsame))⟩
    refine ⟨List.forall_mem_cons.2 ⟨⟨hroute, fun _ => hroute'⟩, hbelow.routes⟩, ?_, ?_, ?_⟩
    · exact List.nodup_cons.2 ⟨fun hmem => (hfresh key hmem).2 rfl, hbelow.once⟩
    · refine List.forall_mem_cons.2 ⟨⟨mem_keys_of_node? hnode, hoff, hnew⟩, fun k hk => ?_⟩
      exact ⟨(hbelow.fresh k hk).1, (hfresh k hk).1, (hbelow.fresh k hk).2.2⟩
    · intro done' hresult k
      cases result with
      | error e => cases hresult
      | ok done₁ =>
        cases hresult
        rw [List.mem_append, hbelow.been done₁ rfl, List.mem_singleton (a := k),
          expansions_expanded, List.mem_cons, or_assoc, or_comm (a := k = key)]
  | nil =>
    refine ⟨nofun, List.nodup_nil, nofun, ?_⟩
    rintro _ ⟨⟩ k
    exact (or_iff_left List.not_mem_nil).symm
  | back => exact ⟨nofun, List.nodup_nil, nofun, nofun⟩
  | absent _ _ _ ih => exact ih hroute trivial
  | fail hoff hnode _ ih =>
    have hfirst := ih hroute ⟨hnode, hoff⟩
    exact ⟨hfirst.routes, hfirst.once, hfirst.fresh, nofun⟩
  | @next path done done₁ p rest node visits more result hoff hnode _ _ ih ih' =>
    have hfirst := ih hroute ⟨hnode, hoff⟩
    have hrest := ih' hroute trivial
    have hbeen := hfirst.been done₁ rfl
    refine ⟨List.forall_mem_append.2 ⟨hfirst.routes, hrest.routes⟩, ?_, ?_, ?_⟩
    · rw [expansions_append]
      refine List.nodup_append.2 ⟨hfirst.once, hrest.once, ?_⟩
      rintro k hk k' hk' rfl
      exact (hrest.fresh k hk').2.2 ((hbeen k).2 (.inr hk))
    · rw [expansions_append]
      refine List.forall_mem_append.2 ⟨hfirst.fresh, fun k hk => ?_⟩
      obtain ⟨hkey, hoff', hnew⟩ := hrest.fresh k hk
      exact ⟨hkey, hoff', fun hmem => hnew ((hbeen k).2 (.inl hmem))⟩
    · intro done' hresult k
      rw [hrest.been done' hresult, hbeen, expansions_append, List.mem_append, or_assoc]

/-! ## How long a walk is -/

@[simp] theorem inputCount_nil : g.inputCount [] = 0 := rfl

theorem inputCount_cons (key : Key) (keys : List Key) :
    g.inputCount (key :: keys) = (g.node? key).elim 0 (·.inputs.length) + g.inputCount keys := rfl

theorem inputCount_append (keys keys' : List Key) :
    g.inputCount (keys ++ keys') = g.inputCount keys + g.inputCount keys' := by
  induction keys with
  | nil => exact (Nat.zero_add _).symm
  | cons key keys ih => rw [List.cons_append, inputCount_cons, inputCount_cons, ih, Nat.add_assoc]

theorem inputCount_perm {keys keys' : List Key} (h : keys.Perm keys') :
    g.inputCount keys = g.inputCount keys' :=
  (h.map fun key => (g.node? key).elim 0 (·.inputs.length)).sum_nat

/-- More keys declare no fewer inputs. -/
theorem inputCount_sublist {keys keys' : List Key} (h : keys.Sublist keys') :
    g.inputCount keys ≤ g.inputCount keys' := by
  induction h with
  | slnil => exact Nat.le_refl _
  | cons key _ ih => exact Nat.le_add_left_of_le ih
  | cons_cons key _ ih => exact Nat.add_le_add_left ih _

/-- Keys that occur once declare no more inputs than all keys together. -/
theorem inputCount_le {keys : List Key} (hnodup : keys.Nodup) (hkeys : keys ⊆ g.keys) :
    g.inputCount keys ≤ g.inputCount g.keys := by
  obtain ⟨keys', hperm, hsub⟩ := hnodup.subperm hkeys
  rw [← inputCount_perm hperm]
  exact inputCount_sublist hsub

/-- A walk makes no more visits than it begins with and the keys that it goes through declare. -/
theorem Walk.length_le (h : g.Walk path leg done visits result) (hleg : leg.Off g path) :
    visits.length ≤ leg.width + g.inputCount (expansions visits) := by
  induction h with
  | skip => exact Nat.le_refl 1
  | lack => exact Nat.le_add_right 1 _
  | @expand path done key inputs construct cache visits result hnew hcached hfull _ ih =>
    have hbelow := ih trivial
    have hinputs : (g.node? key).elim 0 (·.inputs.length) = inputs.length := by
      rw [hleg.1]
      rfl
    rw [expansions_expanded, inputCount_cons, hinputs, List.length_cons, Nat.add_comm]
    exact Nat.add_le_add_left hbelow 1
  | nil => exact Nat.zero_le _
  | back => exact Nat.zero_le _
  | absent _ _ _ ih =>
    have hrest := ih trivial
    simp only [Leg.width, List.length_cons] at hrest ⊢
    omega
  | fail hoff hnode _ ih =>
    have hfirst := ih ⟨hnode, hoff⟩
    simp only [Leg.width, List.length_cons] at hfirst ⊢
    omega
  | next hoff hnode _ _ ih ih' =>
    have hfirst := ih ⟨hnode, hoff⟩
    have hrest := ih' trivial
    rw [expansions_append, inputCount_append, List.length_append]
    simp only [Leg.width, List.length_cons] at hfirst hrest ⊢
    omega

/-! ## The check -/

/-- The check of a node is a walk, which comes to an end and makes no more visits than there are
declared inputs, and one. -/
theorem verify_walks (hnode : g.node? key = some node) :
    ∃ visits result, g.Walk [] (.node key node) [] visits result ∧
      g.visit g.size [] key node [] = result ∧ g.verify key node = result.map (fun _ => ()) ∧
      g.Thrifty [] [] visits result ∧ visits.length ≤ 1 + g.inputCount g.keys := by
  have hroute : g.Route [] := ⟨List.nodup_nil, nofun⟩
  have hleg : (Leg.node key node).Off g [] := ⟨hnode, List.not_mem_nil⟩
  obtain ⟨visits, hwalk⟩ := visit_walks g.size hnode hroute List.not_mem_nil (Nat.le_add_left ..) []
  have hthrifty := hwalk.thrifty hroute hleg
  refine ⟨visits, _, hwalk, rfl, ?_, hthrifty, ?_⟩
  · unfold verify
    cases g.visit g.size [] key node [] <;> rfl
  · refine Nat.le_trans (hwalk.length_le hleg) (Nat.add_le_add_left ?_ 1)
    exact inputCount_le hthrifty.once fun k hk => (hthrifty.fresh k hk).1

end

end Graph

end ServiceHost
