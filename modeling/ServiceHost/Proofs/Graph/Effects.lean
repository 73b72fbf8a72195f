import ServiceHost.Proofs.Graph.History

/-!
# What every call does

A call of a graph, of whatever kind and however it ends, is made up of a few changes: caches are
locked, filled and released, a cache is marked when a panic goes through its construction, and nodes
are added. What each of these does, and what can be done several times in a row
(`Graph.Effect`), is therefore done by every call: when inputs are gathered, while a program runs,
by a construction, a resolution and an invocation, whatever the constructors request in their turn.
-/

namespace ServiceHost

variable {σ ι : Type} {note : Notice → σ → σ} {depth : Nat} {w : Workshop σ ι}

/-- What finding each input in turn does, finding all of them does, if it can be done several times
in a row. -/
theorem gather_induction
    {find : Key → Node σ ι → Workshop σ ι → Outcome GraphError (Instance ι) × Workshop σ ι}
    {R : Workshop σ ι → Option Interruption → Workshop σ ι → Prop} (hrefl : ∀ w, R w none w)
    (htrans : ∀ {w₁ w₂ w₃ why}, R w₁ none w₂ → R w₂ why w₃ → R w₁ why w₃) (owner : Key)
    (inputs : Inputs)
    (hfind : ∀ key node w', R w none w' → w'.graph.node? key = some node →
      R w' (find key node w').1.interruption? (find key node w').2) :
    R w (gather owner find inputs w).1.interruption? (gather owner find inputs w).2 := by
  induction inputs generalizing w with
  | nil => exact hrefl w
  | cons p rest ih =>
    cases hnode : w.graph.node? p.key with
    | none =>
      cases hoptional : p.optional with
      | false =>
        rw [gather_missing hnode hoptional]
        exact hrefl w
      | true =>
        rw [gather_absent hnode hoptional, Outcome.interruption?_map]
        exact ih hfind
    | some node =>
      have hfirst := hfind p.key node w (hrefl w) hnode
      obtain ⟨outcome, w₁, hfound⟩ : ∃ outcome w₁, find p.key node w = (outcome, w₁) := ⟨_, _, rfl⟩
      rw [hfound] at hfirst
      cases outcome with
      | error e =>
        rw [gather_failed hnode hfound]
        exact hfirst
      | interrupted why =>
        rw [gather_interrupted hnode hfound]
        exact hfirst
      | ok item =>
        rw [gather_present hnode hfound, Outcome.interruption?_map]
        exact htrans hfirst (ih fun key node w' h => hfind key node w' (htrans hfirst h))

/-- The relation of a graph before a call and after it, and of the reason why the call has not
returned, if it has not, is one that each change makes by itself and that changes in a row make
together. -/
structure Graph.Effect (R : Graph σ ι → Option Interruption → Graph σ ι → Prop) : Prop where
  refl (g : Graph σ ι) (why : Option Interruption) : R g why g
  trans {g₁ g₂ g₃ : Graph σ ι} {why : Option Interruption} (h : R g₁ none g₂) (h' : R g₂ why g₃) :
    R g₁ why g₃
  /-- A cache is changed, and no mark is set. -/
  cache {g g' : Graph σ ι} {why : Option Interruption} (h : R g why g') (key : Key)
    {f : Cache ι → Cache ι} (hmark : ∀ c, (f c).poisoned = c.poisoned) :
    R g why (g'.mapCache key f)
  /-- A panic marks a cache. -/
  poison {g g' : Graph σ ι} {text : String} (h : R g (some (.panic text)) g') (key : Key) :
    R g (some (.panic text)) (g'.poison key)
  /-- A node is added, the cache of which is not marked. -/
  node {g g' : Graph σ ι} {key : Key} {node : Node σ ι} (h : g.register key node = .ok g')
    (hnew : ∀ inputs construct cache, node = .recipe inputs construct cache →
      cache.poisoned = false) : R g none g'

namespace Graph.Effect

variable {R : Graph σ ι → Option Interruption → Graph σ ι → Prop} {why : Option Interruption}

/-- A registration has the effect, of a constructor whose cache is not marked. -/
theorem register (hR : Effect R) (w : Workshop σ ι) (key : Key) {node : Node σ ι}
    (hnew : ∀ inputs construct cache, node = .recipe inputs construct cache →
      cache.poisoned = false) : R w.graph none (w.register key node).2.graph := by
  unfold Workshop.register
  cases hregister : w.graph.register key node with
  | error e => exact hR.refl w.graph none
  | ok g => exact hR.node hregister hnew

theorem supply (hR : Effect R) (w : Workshop σ ι) (key : Key) (value : ι) :
    R w.graph none (w.register key (.ofValue key value)).2.graph := by
  refine hR.register w key ?_
  rintro _ _ _ ⟨⟩

theorem provide (hR : Effect R) (w : Workshop σ ι) (key : Key) (inputs : Inputs)
    (construct : Args ι → Program σ ι) :
    R w.graph none (w.register key (.ofRecipe inputs construct)).2.graph := by
  refine hR.register w key ?_
  rintro _ _ _ ⟨⟩
  rfl

/-- Giving up has the effect of the reason for it. -/
theorem giveUp (hR : Effect R) {g : Graph σ ι} (h : R g why w.graph) (key : Key) :
    R g why (w.giveUp key why).graph := by
  match why with
  | none => exact hR.cache h key fun _ => rfl
  | some (.panic _) => exact hR.poison h key
  | some (.deadlock _) => exact h
  | some .tooDeep => exact h

/-- What a constructor does at a graph beside leaves the graph at work alone. -/
theorem consult (hR : Effect R) {α : Type} (why : α → Option Interruption)
    {f : Workshop σ ι → α × Workshop σ ι} (h : R w.graph (why (f w).1) (f w).2.graph) :
    R w.graph (why (w.consult f).1) (w.consult f).2.graph := by
  unfold Workshop.consult
  cases w.beside with
  | none => exact h
  | some graph => exact hR.refl w.graph _

/-- A program has the effect, if resolving each key has it. -/
theorem program (hR : Effect R) {resolve : Resolver σ ι}
    (hresolve : ∀ key (w : Workshop σ ι),
      R w.graph (resolve key w).1.interruption? (resolve key w).2.graph)
    (p : Program σ ι) (w : Workshop σ ι) :
    R w.graph (p.run resolve w).1.interruption? (p.run resolve w).2.graph := by
  induction p generalizing w with
  | finish result => cases result <;> exact hR.refl w.graph none
  | panic text => exact hR.refl w.graph _
  | read next ih => exact ih w.world w
  | write world next ih => exact ih { w with world }
  | isCached key next ih => exact ih _ w
  | resolve key next ih =>
    have hfirst := hR.consult Outcome.interruption? (hresolve key w)
    unfold Program.run
    generalize w.consult (resolve key) = r at hfirst
    obtain ⟨outcome, w₁⟩ := r
    cases outcome with
    | ok item => exact hR.trans hfirst (ih _ w₁)
    | error e => exact hR.trans hfirst (ih _ w₁)
    | interrupted why => exact hfirst
  | supply key value next ih =>
    have hfirst := hR.consult (fun _ => none) (f := fun w => w.register key (.ofValue key value))
      (hR.supply w key value)
    exact hR.trans hfirst (ih _ _)
  | provide key inputs construct next _ ih =>
    have hfirst := hR.consult (fun _ => none)
      (f := fun w => w.register key (.ofRecipe inputs construct))
      (hR.provide w key inputs construct)
    exact hR.trans hfirst (ih _ _)

section
variable {find : Key → Node σ ι → Workshop σ ι → Outcome GraphError (Instance ι) × Workshop σ ι}

theorem gather (hR : Effect R) (owner : Key)
    (hfind : ∀ key node (w : Workshop σ ι),
      R w.graph (find key node w).1.interruption? (find key node w).2.graph)
    (inputs : Inputs) (w : Workshop σ ι) :
    R w.graph (gather owner find inputs w).1.interruption?
      (gather owner find inputs w).2.graph :=
  gather_induction (R := fun w why w' => R w.graph why w'.graph) (fun w => hR.refl w.graph none)
    hR.trans owner inputs fun key node w' _ _ => hfind key node w'

/-- Resolving a key has the effect, if every construction has it. -/
theorem resolveWith (hR : Effect R)
    (hbuild : ∀ key node (w : Workshop σ ι),
      R w.graph (find key node w).1.interruption? (find key node w).2.graph) (key : Key)
    (w : Workshop σ ι) :
    R w.graph (resolveWith find key w).1.interruption? (resolveWith find key w).2.graph := by
  unfold ServiceHost.resolveWith
  cases w.graph.node? key with
  | none => exact hR.refl w.graph none
  | some node =>
    simp only
    cases node.available with
    | some item => exact hR.refl w.graph none
    | none =>
      simp only
      cases w.graph.verify key node with
      | error e => exact hR.refl w.graph none
      | ok => exact hbuild key node w

end

/-- A construction has the effect. It is one of locking a cache, of its inputs and of its
constructor, and of what is done with the cache at the end. -/
theorem build (hR : Effect R) (note : Notice → σ → σ) (depth : Nat) (path : List Key) (key : Key)
    (node : Node σ ι) (w : Workshop σ ι) :
    R w.graph (build note depth path key node w).1.interruption?
      (build note depth path key node w).2.graph := by
  induction depth generalizing path key node w with
  | zero => cases node <;> exact hR.refl w.graph _
  | succ depth ih =>
    cases node with
    | value item => exact hR.refl w.graph none
    | recipe inputs construct cache =>
    unfold ServiceHost.build
    split
    · exact hR.refl w.graph none
    split
    · exact hR.refl w.graph _
    cases cache.made with
    | some item => exact hR.refl w.graph none
    | none =>
      have hlock : R w.graph none (w.graph.lock key) :=
        hR.cache (hR.refl w.graph none) key fun _ => rfl
      have hgather := hR.trans hlock (hR.gather key (ih (path ++ [key])) inputs
        { w with graph := w.graph.lock key })
      simp only
      generalize ServiceHost.gather key (ServiceHost.build note depth (path ++ [key])) inputs
        { w with graph := w.graph.lock key } = r at hgather
      obtain ⟨outcome, w₁⟩ := r
      cases outcome with
      | error e => exact hR.giveUp hgather key
      | interrupted why => exact hR.giveUp hgather key
      | ok entries =>
        have hrun := hR.trans hgather (hR.program (hR.resolveWith (ih []))
          (construct ⟨key, entries⟩) { w₁ with world := note (.constructing key) w₁.world })
        simp only
        generalize (construct ⟨key, entries⟩).run
          (ServiceHost.resolveWith (ServiceHost.build note depth []))
          { w₁ with world := note (.constructing key) w₁.world } = r at hrun
        obtain ⟨outcome, w₂⟩ := r
        cases outcome with
        | ok value => exact hR.cache hrun key fun _ => rfl
        | error failure => exact hR.giveUp hrun key
        | interrupted why => exact hR.giveUp hrun key

theorem resolveWithin (hR : Effect R) (note : Notice → σ → σ) (depth : Nat) (key : Key)
    (w : Workshop σ ι) :
    R w.graph (resolveWithin note depth key w).1.interruption?
      (resolveWithin note depth key w).2.graph :=
  hR.resolveWith (hR.build note depth []) key w

/-- Finding an input of an invocation has the effect. -/
theorem fetch (hR : Effect R) (note : Notice → σ → σ) (depth : Nat) (owner key : Key)
    (node : Node σ ι) (w : Workshop σ ι) :
    R w.graph (fetch note depth owner key node w).1.interruption?
      (fetch note depth owner key node w).2.graph := by
  unfold ServiceHost.fetch
  cases w.graph.verify key node with
  | error e => exact hR.refl w.graph none
  | ok => exact hR.build note depth [owner] key node w

/-- An invocation has the effect. -/
theorem invokeWithin (hR : Effect R) (note : Notice → σ → σ) (depth : Nat) (name : String)
    (inputs : Inputs) (function : Args ι → Program σ ι) (w : Workshop σ ι) :
    R w.graph (invokeWithin note depth name inputs function w).1.interruption?
      (invokeWithin note depth name inputs function w).2.graph := by
  have hgather := hR.gather (invocationKey name) (hR.fetch note depth (invocationKey name))
    inputs w
  rw [invokeWithin_eq]
  generalize ServiceHost.gather (invocationKey name)
    (ServiceHost.fetch note depth (invocationKey name)) inputs w = r at hgather
  obtain ⟨outcome, w₁⟩ := r
  cases outcome with
  | error e => exact hgather
  | interrupted why => exact hgather
  | ok entries =>
    have hrun := hR.trans hgather (hR.program (hR.resolveWithin note depth)
      (function ⟨invocationKey name, entries⟩)
      { w₁ with world := note (.invoking (invocationKey name)) w₁.world })
    simp only
    generalize (function ⟨invocationKey name, entries⟩).run
      (ServiceHost.resolveWithin note depth)
      { w₁ with world := note (.invoking (invocationKey name)) w₁.world } = r at hrun
    obtain ⟨outcome, w₂⟩ := r
    cases outcome <;> exact hrun

end Graph.Effect

end ServiceHost
