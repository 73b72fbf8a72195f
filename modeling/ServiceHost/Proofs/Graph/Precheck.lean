import ServiceHost.Proofs.Graph.Search

/-!
# What the check is worth

A construction that was let through by the check meets no missing and no circular input, and is not
nested deeper than there are nodes: only a constructor can fail, or panic (`build_clean`). The
argument goes along the components in order, each of which uses only those before it. With what the
check decides (`Graph.verify_ok_iff`) and what requests leave behind (`Workshop.Reached.rested`),
resolution is refused exactly if the key is unsound, and then nothing has happened
(`resolve_refused_iff`).
-/

namespace ServiceHost

variable {σ ι : Type}

/-- The call succeeded, or a constructor failed or panicked. -/
inductive Outcome.Clean {α : Type} : Outcome GraphError α → Prop
  | ok (value : α) : Clean (.ok value)
  | failed (key : Key) (failure : Failure) : Clean (.error (.constructor key failure))
  | panicked (text : String) : Clean (.interrupted (.panic text))

theorem Outcome.Clean.not_tooDeep {α : Type} {outcome : Outcome GraphError α} (h : outcome.Clean) :
    outcome.interruption? ≠ some .tooDeep := by
  cases h <;> nofun

/-- An outcome is as clean whatever is made of its value. -/
theorem Outcome.Clean.map {α β : Type} {outcome : Outcome GraphError α} (h : outcome.Clean)
    (f : α → β) : (outcome.map f).Clean := by
  cases h with
  | ok value => exact .ok (f value)
  | failed key failure => exact .failed key failure
  | panicked text => exact .panicked text

/-! ## Later graphs -/

/-- The nodes are the same, and the components that were made are still there. -/
structure Graph.Later (g g' : Graph σ ι) : Prop where
  none : ∀ key, g'.node? key = none ↔ g.node? key = none
  value : ∀ key item, g.node? key = some (.value item) → g'.node? key = some (.value item)
  recipe : ∀ key inputs construct cache, g.node? key = some (.recipe inputs construct cache) →
    ∃ cache', g'.node? key = some (.recipe inputs construct cache') ∧
      ∀ item, cache.made = some item → cache'.made = some item

namespace Graph

variable {g g' g'' : Graph σ ι}

theorem Later.refl (g : Graph σ ι) : g.Later g :=
  ⟨fun _ => Iff.rfl, fun _ _ h => h, fun _ _ _ cache h => ⟨cache, h, fun _ h => h⟩⟩

theorem Later.trans (h : g.Later g') (h' : g'.Later g'') : g.Later g'' where
  none key := (h'.none key).trans (h.none key)
  value key item hnode := h'.value key item (h.value key item hnode)
  recipe key inputs construct cache hnode := by
    obtain ⟨cache', hnode', hmade⟩ := h.recipe key inputs construct cache hnode
    obtain ⟨cache'', hnode'', hmade'⟩ := h'.recipe key inputs construct cache' hnode'
    exact ⟨cache'', hnode'', fun item hitem => hmade' item (hmade item hitem)⟩

/-- A graph that has grown is a later one. -/
theorem Grown.later (h : g.Grown g') : g.Later g' where
  none key := by
    refine ⟨fun hnone => ?_, h.node_none⟩
    cases hnode : g.node? key with
    | none => rfl
    | some node =>
      obtain ⟨node', hnode', _⟩ := h.node_some hnode
      cases hnone.symm.trans hnode'
  value key item hnode := by
    obtain ⟨node', hnode', hgrown⟩ := h.node_some hnode
    cases hgrown
    exact hnode'
  recipe key inputs construct cache hnode := by
    obtain ⟨node', hnode', hgrown⟩ := h.node_some hnode
    cases hgrown with
    | recipe _ _ _ hmade => exact ⟨_, hnode', hmade⟩

/-- Locking a cache makes nothing and registers nothing. -/
theorem Later.lock (g : Graph σ ι) (key : Key) : g.Later (g.lock key) := by
  refine ⟨fun k => ?_, fun k item hnode => ?_, fun k inputs construct cache hnode => ?_⟩
  · rw [Graph.lock, node?_mapCache]
    split
    · exact Option.map_eq_none_iff
    · exact Iff.rfl
  · rw [Graph.lock, node?_mapCache, hnode]
    split <;> rfl
  · rw [Graph.lock, node?_mapCache, hnode]
    split
    · exact ⟨{ cache with locked := true }, rfl, fun _ h => h⟩
    · exact ⟨cache, rfl, fun _ h => h⟩

end Graph

/-! ## Constructions that passed the check -/

variable {note : Notice → σ → σ} {depth : Nat} {w : Workshop σ ι}

/-- Finding inputs goes no other way than finding each of them, if those that are required are
there. -/
theorem gather_clean {owner : Key}
    {find : Key → Node σ ι → Workshop σ ι → Outcome GraphError (Instance ι) × Workshop σ ι}
    {inputs : Inputs}
    (hfind : ∀ key node w', w.graph.Grown w'.graph → w'.graph.node? key = some node →
      (find key node w').1.interruption? ≠ some .tooDeep →
      w'.Kept (find key node w').1.interruption? (find key node w').2)
    (hclean : ∀ p ∈ inputs, ∀ node w', w.graph.Grown w'.graph →
      w'.graph.node? p.key = some node → (find p.key node w').1.Clean)
    (hrequired : ∀ p ∈ inputs, p.optional = false → w.graph.node? p.key ≠ none) :
    (gather owner find inputs w).1.Clean := by
  induction inputs generalizing w with
  | nil => exact .ok []
  | cons p rest ih =>
    obtain ⟨hfirst, hrest⟩ := List.forall_mem_cons.1 hclean
    obtain ⟨hneeded, hlater⟩ := List.forall_mem_cons.1 hrequired
    cases hnode : w.graph.node? p.key with
    | none =>
      cases hoptional : p.optional with
      | false => exact absurd hnode (hneeded hoptional)
      | true =>
        rw [gather_absent hnode hoptional]
        exact (ih hfind hrest hlater).map _
    | some node =>
      have hfound := hfirst node w (.refl _) hnode
      have hkept := hfind p.key node w (.refl _) hnode hfound.not_tooDeep
      obtain ⟨outcome, w₁, hfind'⟩ : ∃ outcome w₁, find p.key node w = (outcome, w₁) := ⟨_, _, rfl⟩
      rw [hfind'] at hfound hkept
      cases hfound with
      | failed key failure =>
        rw [gather_failed hnode hfind']
        exact .failed key failure
      | panicked text =>
        rw [gather_interrupted hnode hfind']
        exact .panicked text
      | ok item =>
        have hgrown : w.graph.Grown w₁.graph := hkept.grown
        rw [gather_present hnode hfind']
        refine .map (ih (fun key node w' h => hfind key node w' (hgrown.trans h))
          (fun p hp node w' h => hrest p hp node w' (hgrown.trans h)) ?_) _
        exact fun p hp hoptional hnone => hlater p hp hoptional ((hgrown.later.none _).1 hnone)

/-- A value is handed out. -/
theorem build_value (depth : Nat) (path : List Key) (key : Key) (item : Instance ι) :
    build note depth path key (.value item) w = (.ok item, w) := by
  cases depth <;> rfl

/-- A component that was made is handed out. -/
theorem build_made {path : List Key} {key : Key} {inputs : Inputs}
    {construct : Args ι → Program σ ι} {cache : Cache ι} {item : Instance ι} (hdepth : 0 < depth)
    (hoff : key ∉ path) (hfree : cache.locked = false) (hmade : cache.made = some item) :
    build note depth path key (.recipe inputs construct cache) w = (.ok item, w) := by
  cases depth with
  | zero => cases hdepth
  | succ depth =>
    unfold build
    rw [if_neg hoff, hfree, hmade]
    rfl

/-- The construction of one of the components in order meets no missing and no circular input, if
those under construction are others that were to be made. -/
theorem build_clean {g : Graph σ ι} {done : List Key} (hdone : g.Ordered done) {path : List Key}
    {key : Key} {node : Node σ ι} (hkey : key ∈ done) (hdepth : done.length < depth)
    (hpath : ∀ a ∈ path, g.Pending a ∧ a ∉ done) (hlater : g.Later w.graph)
    (hlocks : w.graph.LockedIn path) (hdetached : w.graph.Detached)
    (hnode : w.graph.node? key = some node) : (build note depth path key node w).1.Clean := by
  induction hdone generalizing depth path key node w with
  | nil => cases hkey
  | @snoc done last inputs hdone hnew hunbuilt hrequired hused ih =>
    rw [List.length_append, List.length_singleton] at hdepth
    have hbelow : ∀ a ∈ path, g.Pending a ∧ a ∉ done := fun a ha =>
      (hpath a ha).imp_right fun hoff hmem => hoff (List.mem_append_left _ hmem)
    rcases List.mem_append.1 hkey with hbefore | hlast
    · exact ih hbefore (Nat.lt_of_succ_lt hdepth) hbelow hlater hlocks hdetached hnode
    obtain rfl := List.mem_singleton.1 hlast
    have hoff : key ∉ path := fun hmem => (hpath key hmem).2 hkey
    obtain ⟨construct, cache₀, hnode₀, hnone₀⟩ := hunbuilt
    obtain ⟨cache, hnode', _⟩ := hlater.recipe _ _ _ _ hnode₀
    cases hnode.symm.trans hnode'
    have hfree : cache.locked = false := hlocks.free hnode hoff
    cases hmade : cache.made with
    | some item =>
      rw [build_made (Nat.zero_lt_of_lt hdepth) hoff hfree hmade]
      exact .ok item
    | none =>
      obtain ⟨depth, rfl⟩ := Nat.exists_eq_add_one_of_ne_zero (Nat.ne_zero_of_lt hdepth)
      have hdepth : done.length < depth := Nat.lt_of_succ_lt_succ hdepth
      have hlock : g.Later (w.graph.lock key) := hlater.trans (.lock w.graph key)
      have hpath' : ∀ a ∈ path ++ [key], g.Pending a ∧ a ∉ done := by
        intro a ha
        rcases List.mem_append.1 ha with ha | ha
        · exact hbelow a ha
        · rw [List.mem_singleton.1 ha]
          exact ⟨⟨inputs, construct, cache₀, hnode₀, hnone₀⟩, hnew⟩
      have hgather : (gather key (build note depth (path ++ [key])) inputs
          { w with graph := w.graph.lock key }).1.Clean := by
        refine gather_clean (fun k node w' hgrown => ?_) (fun p hp node w' hgrown hnode => ?_)
          (fun p hp hoptional hnone => hrequired p hp hoptional ((hlock.none _).1 hnone))
        · exact build_kept note depth (path ++ [key]) k node w'
            (hgrown.detached (hdetached.mapCache key _)) (hgrown.lockedIn (hlocks.lock key))
        have hlater' : g.Later w'.graph := hlock.trans hgrown.later
        have hlocks' : w'.graph.LockedIn (path ++ [key]) := hgrown.lockedIn (hlocks.lock key)
        by_cases hpending : g.Pending p.key
        · exact ih (hused p hp hpending) hdepth hpath' hlater' hlocks'
            (hgrown.detached (hdetached.mapCache key _)) hnode
        -- an input that is not to be made is handed out, and is not under construction
        have hoff' : p.key ∉ path ++ [key] := fun hmem => hpending (hpath' _ hmem).1
        cases hinput : g.node? p.key with
        | none => exact nomatch hnode.symm.trans ((hlater'.none _).2 hinput)
        | some node₀ =>
          cases node₀ with
          | value item =>
            cases hnode.symm.trans (hlater'.value _ _ hinput)
            rw [build_value]
            exact .ok item
          | recipe inputs' construct' cache' =>
            cases hmade' : cache'.made with
            | none => exact absurd ⟨inputs', construct', cache', hinput, hmade'⟩ hpending
            | some item =>
              obtain ⟨cache'', hnode'', hkeeps⟩ := hlater'.recipe _ _ _ _ hinput
              cases hnode.symm.trans hnode''
              have hfree' : cache''.locked = false := hlocks'.free hnode hoff'
              rw [build_made (Nat.zero_lt_of_lt hdepth) hoff' hfree' (hkeeps item hmade')]
              exact .ok item
      unfold build
      rw [if_neg hoff, hfree, hmade]
      simp only [Bool.false_eq_true, if_false]
      generalize gather key (build note depth (path ++ [key])) inputs
        { w with graph := w.graph.lock key } = r at hgather
      obtain ⟨outcome, w₁⟩ := r
      cases hgather with
      | failed key failure => exact .failed key failure
      | panicked text => exact .panicked text
      | ok entries =>
        obtain ⟨-, hwhy⟩ := (hdetached key inputs construct cache hnode ⟨key, entries⟩).run
          (resolveWith (build note depth []))
          { w₁ with world := note (.constructing key) w₁.world }
        simp only
        generalize Program.run (resolveWith (build note depth [])) (construct ⟨key, entries⟩)
          { w₁ with world := note (.constructing key) w₁.world } = r at hwhy
        obtain ⟨outcome, w₂⟩ := r
        cases outcome with
        | ok value => exact .ok _
        | error failure => exact .failed key failure
        | interrupted why =>
          obtain hnone | ⟨text, hpanic⟩ := hwhy
          · cases hnone
          · cases hpanic
            exact .panicked text

/-! ## Resolution -/

/-- Of a graph that any requests have led to, none of which made a constructor panic, a key that is
not available yet is refused, as not registered or as leading back to itself, exactly if it is
unsound. Then no constructor runs and nothing changes. Otherwise only a constructor can fail. -/
theorem resolve_refused_iff {whys : List Interruption} (h : Workshop.Reached note whys w)
    (hdeep : .tooDeep ∉ whys) (hunmarked : w.graph.Unmarked) (hdepth : w.graph.size < depth)
    {key : Key} (hkey : ∀ node, w.graph.node? key = some node → node.available = none) :
    ((∃ e, (resolveWithin note depth key w).1 = .error e ∧ e.ofCheck = true) ↔
        w.graph.Unsound key) ∧
      (w.graph.Unsound key → (resolveWithin note depth key w).2 = w) ∧
      (¬ w.graph.Unsound key → (resolveWithin note depth key w).1.Clean) := by
  obtain ⟨hidle, -⟩ := h.rested hdeep
  have hcalm : w.graph.Calm := ⟨hidle.unlocked, hunmarked⟩
  unfold resolveWithin resolveWith
  cases hnode : w.graph.node? key with
  | none =>
    have hunsound : w.graph.Unsound key := .inl hnode
    exact ⟨⟨fun _ => hunsound, fun _ => ⟨_, rfl, rfl⟩⟩, fun _ => rfl, absurd hunsound⟩
  | some node =>
    have hpending : w.graph.Pending key := by
      refine (hcalm.isCached_eq_false_iff hnode).1 ?_
      have havailable := hkey node hnode
      cases node with
      | value => cases havailable
      | recipe inputs construct cache =>
        rw [Node.available, hidle.unlocked.free hnode List.not_mem_nil] at havailable
        have hmade : cache.made = none := havailable
        simp [Node.isCached, hmade]
    simp only [hkey node hnode]
    cases hverify : w.graph.verify key node with
    | error e =>
      have hunsound : w.graph.Unsound key := by
        refine .inr (Classical.byContradiction fun hsound => ?_)
        cases hverify.symm.trans ((Graph.verify_ok_iff hcalm hnode).2 hsound)
      have hkind := Graph.verify_error hcalm hnode hverify
      exact ⟨⟨fun _ => hunsound, fun _ => ⟨e, rfl, hkind⟩⟩, fun _ => rfl, absurd hunsound⟩
    | ok =>
      have hsound : ¬ w.graph.Unsound key := by
        rintro (hnone | hfaulty)
        · cases hnode.symm.trans hnone
        · exact (Graph.verify_ok_iff hcalm hnode).1 hverify hfaulty
      obtain ⟨done, hdone, hmem⟩ := Graph.ordered_of_verify hcalm hnode hverify hpending
      have hpath : ∀ a ∈ ([] : List Key), w.graph.Pending a ∧ a ∉ done :=
        fun _ ha => absurd ha List.not_mem_nil
      have hclean : (build note depth [] key node w).1.Clean :=
        build_clean hdone hmem (Nat.lt_of_le_of_lt hdone.length_le hdepth) hpath (.refl w.graph)
          hidle.unlocked hidle.detached hnode
      refine ⟨⟨?_, fun hunsound => absurd hunsound hsound⟩, fun hunsound => absurd hunsound hsound,
        fun _ => hclean⟩
      rintro ⟨e, herror, hkind⟩
      simp only at herror
      rw [herror] at hclean
      cases hclean
      cases hkind

/-- A service with a cache that may use the service in its turn, in surroundings that count what is
reported. -/
def loopedWorkshop : Workshop Nat Nat :=
  let new : Workshop Nat Nat := ⟨.empty, none, 0⟩
  let service := (new.register (.of ⟨"Service"⟩)
    (.ofRecipe [.of "cache" ⟨"Cache"⟩] fun _ => .finish (.ok 0))).2
  (service.register (.of ⟨"Cache"⟩)
    (.ofRecipe [(Param.of "service" ⟨"Service"⟩).asOptional] fun _ => .finish (.ok 0))).2

theorem loopedWorkshop_reached : Workshop.Reached (fun _ count => count + 1) [] loopedWorkshop :=
  .provide (.provide (.new 0) _ _ fun _ => .finish _) _ _ fun _ => .finish _

/-- The service is refused, though the input that leads back to it is optional, and so it is unsound
and nothing was reported. -/
theorem loopedWorkshop_refused :
    loopedWorkshop.graph.Unsound (.of ⟨"Service"⟩) ∧
      (resolveWithin (fun _ count => count + 1) 3 (.of ⟨"Service"⟩) loopedWorkshop).2 =
        loopedWorkshop := by
  have hunmarked : loopedWorkshop.graph.Unmarked :=
    (loopedWorkshop_reached.rested List.not_mem_nil).2 fun _ => List.not_mem_nil
  have hdepth : loopedWorkshop.graph.size < 3 := by decide
  have hkey : ∀ node, loopedWorkshop.graph.node? (.of ⟨"Service"⟩) = some node →
      node.available = none := by
    rintro _ ⟨⟩
    rfl
  obtain ⟨hrefused, hstill, -⟩ :=
    resolve_refused_iff loopedWorkshop_reached List.not_mem_nil hunmarked hdepth hkey
  have hunsound := hrefused.1 ⟨_, rfl, rfl⟩
  exact ⟨hunsound, hstill hunsound⟩

end ServiceHost
