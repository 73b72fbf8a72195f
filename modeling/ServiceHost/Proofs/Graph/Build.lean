import ServiceHost.Proofs.Graph.Caches

/-!
# What a construction leaves behind

However the construction of a component ends, it leaves the graph grown from what it was before,
with the locks as they were, unless calls were nested too deep, and it never waits for a lock that
it holds itself (`build_kept`). The reason is that the locked components are those on the way to the
component under construction, which are looked for before any lock is taken. A panic leaves a mark,
and nothing else does. The constructors of the graph make no requests of their own.
-/

namespace ServiceHost

variable {σ ι : Type}

namespace Outcome

variable {ε α β : Type}

/-- Why a call does not return, if it does not. -/
def interruption? : Outcome ε α → Option Interruption
  | .ok _ => none
  | .error _ => none
  | .interrupted why => some why

/-- What comes of a value, if there is one. -/
def map (f : α → β) : Outcome ε α → Outcome ε β
  | .ok value => .ok (f value)
  | .error cause => .error cause
  | .interrupted why => .interrupted why

@[simp] theorem interruption?_map (f : α → β) (outcome : Outcome ε α) :
    (outcome.map f).interruption? = outcome.interruption? := by
  cases outcome <;> rfl

/-- What succeeds after a function has succeeded before it. -/
theorem map_eq_ok {f : α → β} {outcome : Outcome ε α} {b : β} (h : outcome.map f = .ok b) :
    ∃ a, outcome = .ok a ∧ f a = b := by
  cases outcome with
  | ok a =>
    cases h
    exact ⟨a, rfl, rfl⟩
  | error e => cases h
  | interrupted why => cases h

end Outcome

/-! ## Inputs one after another -/

section
variable {owner : Key} {p : Param} {node : Node σ ι} {item : Instance ι} {w w₁ w' : Workshop σ ι}
  {find : Key → Node σ ι → Workshop σ ι → Outcome GraphError (Instance ι) × Workshop σ ι}

/-- Nothing is found for an optional input that nobody registered. -/
theorem gather_absent (hnode : w.graph.node? p.key = none) (hoptional : p.optional = true)
    (rest : Inputs) : gather owner find (p :: rest) w =
      ((gather owner find rest w).1.map ((p, none) :: ·), (gather owner find rest w).2) := by
  rw [gather]
  simp only [hnode, hoptional, if_true]
  generalize gather owner find rest w = r
  obtain ⟨outcome, w₁⟩ := r
  cases outcome <;> rfl

theorem gather_missing (hnode : w.graph.node? p.key = none) (hoptional : p.optional = false)
    (rest : Inputs) :
    gather owner find (p :: rest) w = (.error (.missingDependency p.key (some owner)), w) := by
  rw [gather]
  simp only [hnode, hoptional, Bool.false_eq_true, if_false]

/-- A registered input that is found comes before what is found for the others. -/
theorem gather_present (hnode : w.graph.node? p.key = some node)
    (hfind : find p.key node w = (.ok item, w₁)) (rest : Inputs) :
    gather owner find (p :: rest) w =
      ((gather owner find rest w₁).1.map ((p, some item) :: ·), (gather owner find rest w₁).2) := by
  rw [gather]
  simp only [hnode, hfind]
  generalize gather owner find rest w₁ = r
  obtain ⟨outcome, w₂⟩ := r
  cases outcome <;> rfl

theorem gather_failed {e : GraphError} (hnode : w.graph.node? p.key = some node)
    (hfind : find p.key node w = (.error e, w₁)) (rest : Inputs) :
    gather owner find (p :: rest) w = (.error e, w₁) := by
  rw [gather]
  simp only [hnode, hfind]

theorem gather_interrupted {why : Interruption} (hnode : w.graph.node? p.key = some node)
    (hfind : find p.key node w = (.interrupted why, w₁)) (rest : Inputs) :
    gather owner find (p :: rest) w = (.interrupted why, w₁) := by
  rw [gather]
  simp only [hnode, hfind]

/-- When all inputs were found, the first one was left out or found, and then the others were. -/
theorem gather_cons_ok {rest : Inputs} {entries : List (Param × Option (Instance ι))}
    (h : gather owner find (p :: rest) w = (.ok entries, w')) :
    (∃ more, w.graph.node? p.key = none ∧ p.optional = true ∧
      gather owner find rest w = (.ok more, w') ∧ entries = (p, none) :: more) ∨
    ∃ node item w₁ more, w.graph.node? p.key = some node ∧ find p.key node w = (.ok item, w₁) ∧
      gather owner find rest w₁ = (.ok more, w') ∧ entries = (p, some item) :: more := by
  cases hnode : w.graph.node? p.key with
  | none =>
    cases hoptional : p.optional with
    | false =>
      rw [gather_missing hnode hoptional] at h
      cases h
    | true =>
      rw [gather_absent hnode hoptional] at h
      generalize hrest : gather owner find rest w = r at h
      obtain ⟨outcome, w₁⟩ := r
      cases outcome <;> cases h
      exact .inl ⟨_, rfl, rfl, rfl, rfl⟩
  | some node =>
    obtain ⟨outcome, w₁, hfind⟩ : ∃ outcome w₁, find p.key node w = (outcome, w₁) := ⟨_, _, rfl⟩
    cases outcome with
    | error e =>
      rw [gather_failed hnode hfind] at h
      cases h
    | interrupted why =>
      rw [gather_interrupted hnode hfind] at h
      cases h
    | ok item =>
      rw [gather_present hnode hfind] at h
      generalize hrest : gather owner find rest w₁ = r at h
      obtain ⟨outcome, w₂⟩ := r
      cases outcome <;> cases h
      exact .inr ⟨node, item, w₁, _, rfl, hfind, hrest, rfl⟩

end

/-! ## What is left behind -/

/-- What a call that ends in this way leaves of a graph at work. -/
structure Workshop.Kept (w : Workshop σ ι) (why : Option Interruption) (w' : Workshop σ ι) :
    Prop where
  beside : w'.beside = w.beside
  grown : w.graph.Grown w'.graph
  awake : ∀ key, why ≠ some (.deadlock key)
  /-- Only a panic leaves a mark. -/
  calm : (∀ text, why ≠ some (.panic text)) → ∀ key, w'.graph.Marked key → w.graph.Marked key

namespace Workshop.Kept

variable {w w₁ w₂ : Workshop σ ι} {why : Option Interruption}

/-- A call that changes nothing but the surroundings. -/
theorem still (w : Workshop σ ι) (world : σ) : w.Kept none { w with world } :=
  ⟨rfl, .refl _, nofun, fun _ _ h => h⟩

/-- Calls one after another. -/
theorem and_then (h : w.Kept none w₁) (h' : w₁.Kept why w₂) : w.Kept why w₂ where
  beside := h'.beside.trans h.beside
  grown := h.grown.trans h'.grown
  awake := h'.awake
  calm hcalm key hmark := h.calm nofun key (h'.calm hcalm key hmark)

section
variable {key : Key} {inputs : Inputs} {construct : Args ι → Program σ ι} {cache : Cache ι}

/-- The end of a construction without a panic: its lock is given back, whatever else is done to the
cache. -/
theorem unlock (hnode : w.graph.node? key = some (.recipe inputs construct cache))
    (hfree : cache.locked = false) (hnone : cache.made = none)
    (h : Kept { w with graph := w.graph.lock key } none w₁) {f : Cache ι → Cache ι}
    (hlocked : ∀ c, (f c).locked = false) (hmark : ∀ c, (f c).poisoned = c.poisoned) :
    w.Kept none { w₁ with graph := w₁.graph.mapCache key f } := by
  refine ⟨h.beside, .of_lock hnode hfree hnone h.grown hlocked fun c => (hmark c).trans, nofun,
    fun _ k hmarked => ?_⟩
  have hlock : (w.graph.lock key).Marked k := by
    rcases Graph.marked_mapCache hmarked with hbefore | ⟨_, c, hclean, hset⟩
    · exact h.calm nofun k hbefore
    · exact nomatch (hclean.symm.trans (hmark c).symm).trans hset
  rcases Graph.marked_mapCache hlock with hbefore | ⟨_, c, hclean, hset⟩
  · exact hbefore
  · exact nomatch hclean.symm.trans hset

/-- The end of a construction by a panic: its lock is given back. -/
theorem poison (hnode : w.graph.node? key = some (.recipe inputs construct cache))
    (hfree : cache.locked = false) (hnone : cache.made = none)
    (h : Kept { w with graph := w.graph.lock key } why w₁) (text : String) :
    w.Kept (some (.panic text)) { w₁ with graph := w₁.graph.poison key } :=
  ⟨h.beside, .of_lock hnode hfree hnone h.grown (fun _ => rfl) (fun _ _ => rfl), nofun,
    (absurd rfl <| · text)⟩

/-- A construction that ends without a component gives its lock back, unless calls were nested too
deep. -/
theorem giveUp (hnode : w.graph.node? key = some (.recipe inputs construct cache))
    (hfree : cache.locked = false) (hnone : cache.made = none)
    (h : Kept { w with graph := w.graph.lock key } why w₁) (hdeep : why ≠ some .tooDeep) :
    w.Kept why (w₁.giveUp key why) := by
  cases why with
  | none => exact h.unlock hnode hfree hnone (fun _ => rfl) (fun _ => rfl)
  | some why =>
    cases why with
    | panic text => exact h.poison hnode hfree hnone text
    | deadlock k => exact absurd rfl (h.awake k)
    | tooDeep => exact absurd rfl hdeep

end

end Workshop.Kept

/-- A program that makes no requests changes nothing but the surroundings, and returns or panics,
whatever would answer its requests. -/
theorem Program.Detached.run {p : Program σ ι} (h : p.Detached) (resolve : Resolver σ ι)
    (w : Workshop σ ι) :
    (∃ world, (p.run resolve w).2 = { w with world }) ∧
      ((p.run resolve w).1.interruption? = none ∨
        ∃ text, (p.run resolve w).1.interruption? = some (.panic text)) := by
  induction h generalizing w with
  | finish result => cases result <;> exact ⟨⟨w.world, rfl⟩, .inl rfl⟩
  | panic text => exact ⟨⟨w.world, rfl⟩, .inr ⟨text, rfl⟩⟩
  | read _ ih => exact ih w.world w
  | write world _ ih =>
    obtain ⟨⟨world', hrun⟩, hwhy⟩ := ih { w with world }
    exact ⟨⟨world', hrun⟩, hwhy⟩

/-- Finding the components of inputs leaves what finding each of them leaves. -/
theorem gather_kept {owner : Key}
    {find : Key → Node σ ι → Workshop σ ι → Outcome GraphError (Instance ι) × Workshop σ ι}
    {inputs : Inputs} {w : Workshop σ ι}
    (hfind : ∀ key node w', w.graph.Grown w'.graph → w'.graph.node? key = some node →
      (find key node w').1.interruption? ≠ some .tooDeep →
      w'.Kept (find key node w').1.interruption? (find key node w').2)
    (hdeep : (gather owner find inputs w).1.interruption? ≠ some .tooDeep) :
    w.Kept (gather owner find inputs w).1.interruption? (gather owner find inputs w).2 := by
  induction inputs generalizing w with
  | nil => exact .still w w.world
  | cons p rest ih =>
    cases hnode : w.graph.node? p.key with
    | none =>
      cases hoptional : p.optional with
      | false =>
        rw [gather_missing hnode hoptional]
        exact .still w w.world
      | true =>
        rw [gather_absent hnode hoptional, Outcome.interruption?_map] at hdeep ⊢
        exact ih hfind hdeep
    | some node =>
      have hfirst := hfind p.key node w (.refl _) hnode
      obtain ⟨outcome, w₁, hfound⟩ : ∃ outcome w₁, find p.key node w = (outcome, w₁) := ⟨_, _, rfl⟩
      rw [hfound] at hfirst
      cases outcome with
      | error e =>
        rw [gather_failed hnode hfound]
        exact hfirst nofun
      | interrupted why =>
        rw [gather_interrupted hnode hfound] at hdeep ⊢
        exact hfirst hdeep
      | ok item =>
        have hfirst : w.Kept none w₁ := hfirst nofun
        rw [gather_present hnode hfound, Outcome.interruption?_map] at hdeep ⊢
        exact hfirst.and_then
          (ih (fun key node w' h => hfind key node w' (hfirst.grown.trans h)) hdeep)

/-- The construction of a component takes place between the locked components and those that are not
there yet. -/
theorem build_kept (note : Notice → σ → σ) (depth : Nat) (path : List Key) (key : Key)
    (node : Node σ ι) (w : Workshop σ ι) (hdetached : w.graph.Detached)
    (hlocks : w.graph.LockedIn path) (hnode : w.graph.node? key = some node)
    (hdeep : (build note depth path key node w).1.interruption? ≠ some .tooDeep) :
    w.Kept (build note depth path key node w).1.interruption?
      (build note depth path key node w).2 := by
  induction depth generalizing path key node w with
  | zero =>
    cases node with
    | value item => exact .still w w.world
    | recipe => exact absurd rfl hdeep
  | succ depth ih =>
    cases node with
    | value item => exact .still w w.world
    | recipe inputs construct cache =>
      unfold build at hdeep ⊢
      by_cases hpath : key ∈ path
      · rw [if_pos hpath]
        exact .still w w.world
      rw [if_neg hpath] at hdeep ⊢
      have hfree : cache.locked = false := hlocks.free hnode hpath
      rw [hfree] at hdeep ⊢
      cases hmade : cache.made with
      | some item => exact .still w w.world
      | none =>
        simp only [hmade, Bool.false_eq_true, if_false] at hdeep ⊢
        have hgather := @gather_kept _ _ key (build note depth (path ++ [key])) inputs
          { w with graph := w.graph.lock key } fun k node w' hgrown =>
            ih (path ++ [key]) k node w' (hgrown.detached (hdetached.mapCache key _))
              (hgrown.lockedIn (hlocks.lock key))
        generalize gather key (build note depth (path ++ [key])) inputs
          { w with graph := w.graph.lock key } = r at hdeep hgather
        obtain ⟨outcome, w₁⟩ := r
        cases outcome with
        | error e => exact (hgather nofun).giveUp hnode hfree hmade nofun
        | interrupted why => exact (hgather hdeep).giveUp hnode hfree hmade hdeep
        | ok entries =>
          have hgather : Workshop.Kept { w with graph := w.graph.lock key } none w₁ :=
            hgather nofun
          obtain ⟨⟨world, hworld⟩, hwhy⟩ := (hdetached key inputs construct cache hnode
            ⟨key, entries⟩).run (resolveWith (build note depth []))
              { w₁ with world := note (.constructing key) w₁.world }
          have hrun := hgather.and_then (.still w₁ world)
          simp only at hdeep ⊢
          generalize Program.run (resolveWith (build note depth [])) (construct ⟨key, entries⟩)
            { w₁ with world := note (.constructing key) w₁.world } = r at hdeep hworld hwhy
          obtain ⟨outcome, w₂⟩ := r
          obtain rfl : w₂ = { w₁ with world } := hworld
          cases outcome with
          | ok value => exact hrun.unlock hnode hfree hmade (fun _ => rfl) (fun _ => rfl)
          | error failure => exact hrun.giveUp hnode hfree hmade nofun
          | interrupted why =>
            obtain hnone | ⟨text, hpanic⟩ := hwhy
            · cases hnone
            · cases hpanic
              exact hrun.poison hnode hfree hmade text

end ServiceHost
