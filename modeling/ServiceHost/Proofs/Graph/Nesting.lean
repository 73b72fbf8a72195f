import ServiceHost.Proofs.Graph.Reentry

/-!
# How deep calls are nested

Each level to which calls are nested holds the lock of another key, and a call that returns gives
back the locks that it took. So the depth does not run out as long as it is more than there are
nodes, in the graph at work and in the one beside (`build_abides`). This is so whatever is in the
caches, whoever holds other locks, and whatever constructors request and register. And where the
depth does not run out, nothing depends on it (`build_deeper`): what is said of a call with enough
of it is said of a call without a bound.

Nothing is made in all this that leads to itself through declared inputs, for each component of such
a loop would have to be made after the next one (`Graph.Knotted`).
-/

namespace ServiceHost

open Relation

variable {σ ι : Type} {depth : Nat} {w w₁ w₂ : Workshop σ ι} {key : Key}

/-! ## Locks and loops -/

namespace Graph

/-- The same locks are held. -/
def SameLocks (g g' : Graph σ ι) : Prop :=
  ∀ key, g'.Locked key ↔ g.Locked key

/-- The keys are distinct, and their locks are held. -/
structure Holds (g : Graph σ ι) (held : List Key) : Prop where
  nodup : held.Nodup
  locked : ∀ key ∈ held, g.Locked key

/-- Each of the components is to be made and declares one of them as an input. -/
def Knotted (g : Graph σ ι) (knot : Key → Prop) : Prop :=
  ∀ key, knot key → ∃ inputs, g.Unbuilt key inputs ∧ ∃ p ∈ inputs, knot p.key

section
variable {g g' g'' : Graph σ ι} {k : Key} {held : List Key} {knot : Key → Prop}
  {f : Cache ι → Cache ι} {inputs : Inputs} {construct : Args ι → Program σ ι} {cache : Cache ι}

theorem SameLocks.refl (g : Graph σ ι) : g.SameLocks g :=
  fun _ => Iff.rfl

theorem SameLocks.trans (h : g.SameLocks g') (h' : g'.SameLocks g'') : g.SameLocks g'' :=
  fun key => (h' key).trans (h key)

theorem Locked.mem_keys (h : g.Locked key) : key ∈ g.keys := by
  obtain ⟨_, _, _, hnode, -⟩ := h
  exact mem_keys_of_node? hnode

/-- Whether a lock is held is a matter of the node of its key. -/
theorem locked_congr (h : g'.node? key = g.node? key) : g'.Locked key ↔ g.Locked key := by
  rw [Locked, Locked, h]

theorem not_locked_of_free (hnode : g.node? key = some (.recipe inputs construct cache))
    (hfree : cache.locked = false) : ¬g.Locked key := by
  rintro ⟨_, _, _, hnode', hheld⟩
  cases hnode.symm.trans hnode'
  cases hfree.symm.trans hheld

/-- The lock that is taken is held, and those that were held before. -/
theorem locked_lock_iff (hnode : g.node? key = some (.recipe inputs construct cache)) :
    (g.lock key).Locked k ↔ g.Locked k ∨ k = key := by
  refine ⟨locked_lock, ?_⟩
  rintro (hlocked | rfl)
  · exact hlocked.lock
  · refine ⟨inputs, construct, { cache with locked := true }, ?_, rfl⟩
    rw [lock, node?_mapCache, if_pos rfl, hnode]
    rfl

theorem locked_mapCache_of_ne (f : Cache ι → Cache ι) (hk : k ≠ key) :
    (g.mapCache key f).Locked k ↔ g.Locked k :=
  locked_congr (by rw [node?_mapCache, if_neg hk])

/-- A change that frees the cache leaves the key unlocked. -/
theorem not_locked_mapCache (hlocked : ∀ c, (f c).locked = false) :
    ¬(g.mapCache key f).Locked key := by
  rintro ⟨inputs, construct, cache, hnode, hheld⟩
  rw [node?_mapCache, if_pos rfl, Option.map_eq_some_iff] at hnode
  obtain ⟨node, -, hnode⟩ := hnode
  cases node with
  | value => cases hnode
  | recipe _ _ cache' =>
    cases hnode
    cases (hlocked cache').symm.trans hheld

/-- A lock that was free is taken and given back. -/
theorem SameLocks.of_lock (hfree : ¬g.Locked key) (h : (g.lock key).SameLocks g')
    (hlocked : ∀ c, (f c).locked = false) : g.SameLocks (g'.mapCache key f) := by
  intro k
  by_cases hk : k = key
  · rw [hk]
    exact iff_of_false (not_locked_mapCache hlocked) hfree
  · rw [locked_mapCache_of_ne f hk, h k]
    exact locked_mapCache_of_ne _ hk

/-- There are no more locks than nodes. -/
theorem Holds.length_le (h : g.Holds held) : held.length ≤ g.size := by
  rw [size_eq_keys]
  exact h.nodup.length_le_of_subset fun k hk => (h.locked k hk).mem_keys

theorem Holds.same (h : g.Holds held) (hsame : g.SameLocks g') : g'.Holds held :=
  ⟨h.nodup, fun k hk => (hsame k).2 (h.locked k hk)⟩

/-- One more lock is taken, which was free. -/
theorem Holds.lock (h : g.Holds held)
    (hnode : g.node? key = some (.recipe inputs construct cache)) (hfree : ¬g.Locked key) :
    (g.lock key).Holds (key :: held) where
  nodup := List.nodup_cons.2 ⟨fun hmem => hfree (h.locked key hmem), h.nodup⟩
  locked := List.forall_mem_cons.2
    ⟨(locked_lock_iff hnode).2 (.inr rfl), fun k hk => (h.locked k hk).lock⟩

theorem Knotted.congr (h : g.Knotted knot) (hsame : ∀ k, knot k → g'.node? k = g.node? k) :
    g'.Knotted knot := by
  intro k hk
  obtain ⟨inputs, ⟨construct, cache, hnode, hnone⟩, hinput⟩ := h k hk
  exact ⟨inputs, ⟨construct, cache, (hsame k hk).trans hnode, hnone⟩, hinput⟩

/-- No component of a loop is there. -/
theorem Knotted.item? (h : g.Knotted knot) (hkey : knot key) : g.item? key = none := by
  obtain ⟨inputs, hunbuilt, -⟩ := h key hkey
  exact hunbuilt.item?

/-- A loop stays if no component of it is stored. -/
theorem Knotted.mapCache (h : g.Knotted knot) (hmade : knot key → ∀ c, (f c).made = c.made) :
    (g.mapCache key f).Knotted knot := by
  intro k hk
  obtain ⟨inputs, ⟨construct, cache, hnode, hnone⟩, hinput⟩ := h k hk
  by_cases hkey : k = key
  · refine ⟨inputs, ⟨construct, f cache, ?_, (hmade (hkey ▸ hk) cache).trans hnone⟩, hinput⟩
    rw [node?_mapCache, if_pos hkey, hnode]
    rfl
  · refine ⟨inputs, ⟨construct, cache, ?_, hnone⟩, hinput⟩
    rw [node?_mapCache, if_neg hkey, hnode]

/-- What leads to a loop, and the loop, make a knot. -/
theorem knotted_of_loop (g : Graph σ ι) :
    g.Knotted fun k =>
      ∃ looping, ReflTransGen g.Uses k looping ∧ TransGen g.Uses looping looping := by
  rintro k ⟨looping, hleads, hloop⟩
  have hnext : ∃ used, g.Uses k used ∧ ReflTransGen g.Uses used looping := by
    obtain rfl | hnext := hleads.cases_head
    · exact TransGen.head'_iff.1 hloop
    · exact hnext
  obtain ⟨used, ⟨inputs, hunbuilt, ⟨p, hp, rfl⟩, -⟩, hrest⟩ := hnext
  exact ⟨inputs, hunbuilt, p, hp, looping, hrest, hloop⟩

end

end Graph

/-- The number of nodes of the graph at work and of the one beside. -/
def Workshop.extent (w : Workshop σ ι) : Nat :=
  w.graph.size + w.beside.elim 0 Graph.size

/-- What a call that may go to this depth does to locks and loops, and how deep it has been nested
if it ran out of depth: locks were held before, and as many levels come on top. -/
structure Workshop.Abides (depth : Nat) (w : Workshop σ ι) (why : Option Interruption)
    (w' : Workshop σ ι) : Prop where
  beside : w.beside = none → w'.beside = none
  locks : why = none → w.graph.SameLocks w'.graph
  room : why = some .tooDeep → ∀ held, w.graph.Holds held → held.length + depth ≤ w'.extent
  knots : ∀ knot, w.graph.Knotted knot → w'.graph.Knotted knot

namespace Outcome

variable {ε α : Type}

/-- The call has returned no value. -/
def Stopped (outcome : Outcome ε α) : Prop :=
  ∀ a, outcome ≠ .ok a

theorem Stopped.error (e : ε) : (Outcome.error e : Outcome ε α).Stopped :=
  nofun

theorem Stopped.interrupted (why : Interruption) :
    (Outcome.interrupted why : Outcome ε α).Stopped :=
  nofun

/-- An outcome with an interruption is that interruption. -/
theorem eq_interrupted {outcome : Outcome ε α} {why : Interruption}
    (h : outcome.interruption? = some why) : outcome = .interrupted why := by
  cases outcome with
  | ok a => cases h
  | error e => cases h
  | interrupted cause =>
    cases h
    rfl

end Outcome

namespace Workshop.Abides

variable {why : Option Interruption} {inputs : Inputs} {construct : Args ι → Program σ ι}
  {cache : Cache ι}

/-- Only the surroundings have changed. -/
theorem still (w : Workshop σ ι) (world : σ) : w.Abides depth none { w with world } where
  beside h := h
  locks _ := .refl _
  room := nofun
  knots _ h := h

/-- The call has stopped where it was, and not for want of depth. -/
theorem stopped (w : Workshop σ ι) (hwhy : why ≠ some .tooDeep) : w.Abides depth why w where
  beside h := h
  locks _ := .refl _
  room hdeep := absurd hdeep hwhy
  knots _ h := h

/-- At depth zero there are no more locks than nodes, either. -/
theorem exhausted (w : Workshop σ ι) : w.Abides 0 (some .tooDeep) w where
  beside h := h
  locks := nofun
  room _ _ hheld := Nat.le_trans hheld.length_le (Nat.le_add_right ..)
  knots _ h := h

theorem waiting (w : Workshop σ ι) (key : Key) : w.Abides depth (some (.deadlock key)) w :=
  stopped w nofun

/-- What returns, and then another call, abide by the locks together. -/
theorem trans (h : w.Abides depth none w₁) (h' : w₁.Abides depth why w₂) :
    w.Abides depth why w₂ where
  beside hnone := h'.beside (h.beside hnone)
  locks hwhy := (h.locks rfl).trans (h'.locks hwhy)
  room hdeep held hheld := h'.room hdeep held (hheld.same (h.locks rfl))
  knots knot hknot := h'.knots knot (h.knots knot hknot)

/-- A new node is not locked, and belongs to no loop. -/
theorem register (depth : Nat) (w : Workshop σ ι) (key : Key) {node : Node σ ι}
    (hnew : ∀ inputs construct cache, node = .recipe inputs construct cache →
      cache.locked = false) : w.Abides depth none (w.register key node).2 := by
  unfold Workshop.register
  obtain ⟨-, hrefused⟩ | ⟨hnone, g, hok, -⟩ := w.graph.register_eq key node
  · rw [hrefused]
    exact still w w.world
  · rw [hok]
    refine ⟨fun h => h, fun _ k => ?_, nofun, fun knot hknot => hknot.congr fun k hk => ?_⟩
    · obtain ⟨hnode, rfl⟩ | hsame := Graph.register_ok hok k
      · refine iff_of_false ?_ fun hlocked => hnone hlocked.mem_keys
        rintro ⟨inputs, construct, cache, hnode', hlocked⟩
        cases (hnew inputs construct cache (Option.some.inj (hnode.symm.trans hnode'))).symm.trans
          hlocked
      · exact Graph.locked_congr hsame
    · obtain ⟨-, rfl⟩ | hsame := Graph.register_ok hok k
      · obtain ⟨inputs, hunbuilt, -⟩ := hknot k hk
        exact absurd hunbuilt.mem_keys hnone
      · exact hsame

/-- What is done at a graph beside leaves the graph at work alone, and the nodes of both count. -/
theorem consult {α : Type} (why : α → Option Interruption) {f : Workshop σ ι → α × Workshop σ ι}
    (h : ∀ w : Workshop σ ι, w.Abides depth (why (f w).1) (f w).2) (w : Workshop σ ι) :
    w.Abides depth (why (w.consult f).1) (w.consult f).2 := by
  unfold Workshop.consult
  cases hbeside : w.beside with
  | none => exact h w
  | some graph =>
    have hfirst := h ⟨graph, none, w.world⟩
    refine ⟨fun hnone => absurd hnone (hbeside ▸ nofun), fun _ => .refl _,
      fun hdeep held hheld => ?_, fun _ hknot => hknot⟩
    have hdepth := hfirst.room hdeep [] ⟨List.nodup_nil, nofun⟩
    rw [extent, hfirst.beside rfl] at hdepth
    have hle := hheld.length_le
    simp only [List.length_nil, Option.elim_none] at hdepth
    simp only [extent, Option.elim_some]
    omega

/-- The end of a construction, which took the lock of its key. -/
theorem unlock (hnode : w.graph.node? key = some (.recipe inputs construct cache))
    (hfree : ¬w.graph.Locked key) (h : Abides depth { w with graph := w.graph.lock key } why w₁)
    (hbeside : w₂.beside = w₁.beside) (hkeys : w₂.graph.keys = w₁.graph.keys)
    (hlocks : why = none → w.graph.SameLocks w₂.graph)
    (hknots : ∀ knot, w.graph.Knotted knot → w₁.graph.Knotted knot → w₂.graph.Knotted knot) :
    w.Abides (depth + 1) why w₂ where
  beside hnone := hbeside.trans (h.beside hnone)
  locks := hlocks
  room hdeep held hheld := by
    have hdepth := h.room hdeep (key :: held) (hheld.lock hnode hfree)
    rw [List.length_cons] at hdepth
    rw [extent, hbeside, Graph.size_eq_keys, hkeys, ← Graph.size_eq_keys, ← extent]
    omega
  knots knot hknot := hknots knot hknot (h.knots knot (hknot.mapCache fun _ _ => rfl))

/-- It ends without a component. -/
theorem giveUp (hnode : w.graph.node? key = some (.recipe inputs construct cache))
    (hfree : ¬w.graph.Locked key) (h : Abides depth { w with graph := w.graph.lock key } why w₁) :
    w.Abides (depth + 1) why (w₁.giveUp key why) := by
  match why with
  | none =>
    exact h.unlock hnode hfree rfl (Graph.keys_mapCache ..)
      (fun _ => .of_lock hfree (h.locks rfl) fun _ => rfl)
      fun _ _ hknot => hknot.mapCache fun _ _ => rfl
  | some (.panic _) =>
    exact h.unlock hnode hfree rfl (Graph.keys_mapCache ..) nofun
      fun _ _ hknot => hknot.mapCache fun _ _ => rfl
  | some (.deadlock _) => exact h.unlock hnode hfree rfl rfl nofun fun _ _ hknot => hknot
  | some .tooDeep => exact h.unlock hnode hfree rfl rfl nofun fun _ _ hknot => hknot

/-- It ends with a component, which belongs to no loop. -/
theorem store (hnode : w.graph.node? key = some (.recipe inputs construct cache))
    (hfree : ¬w.graph.Locked key) (h : Abides depth { w with graph := w.graph.lock key } none w₁)
    (hoff : ∀ knot, w.graph.Knotted knot → ¬knot key) (item : Instance ι) :
    w.Abides (depth + 1) none { w₁ with graph := w₁.graph.store key item } :=
  h.unlock hnode hfree rfl (Graph.keys_mapCache ..)
    (fun _ => .of_lock hfree (h.locks rfl) fun _ => rfl)
    fun knot hknot hafter => hafter.mapCache fun hk => absurd hk (hoff knot hknot)

end Workshop.Abides

/-! ## What every call keeps to -/

/-- A program abides by the locks that are held, if resolving each key does. -/
theorem Program.abides {resolve : Resolver σ ι}
    (hresolve : ∀ key (w : Workshop σ ι),
      w.Abides depth (resolve key w).1.interruption? (resolve key w).2)
    (p : Program σ ι) (w : Workshop σ ι) :
    w.Abides depth (p.run resolve w).1.interruption? (p.run resolve w).2 := by
  induction p generalizing w with
  | finish result => cases result <;> exact .still w w.world
  | panic text => exact .stopped w nofun
  | read next ih => exact ih w.world w
  | write world next ih =>
    have hwritten : w.Abides depth none { w with world } := .still w world
    exact hwritten.trans (ih { w with world })
  | isCached key next ih => exact ih _ w
  | resolve key next ih =>
    have hfirst := Workshop.Abides.consult Outcome.interruption? (hresolve key) w
    unfold Program.run
    generalize w.consult (resolve key) = r at hfirst
    obtain ⟨outcome, w₁⟩ := r
    cases outcome with
    | ok item => exact hfirst.trans (ih _ w₁)
    | error e => exact hfirst.trans (ih _ w₁)
    | interrupted why => exact hfirst
  | supply key value next ih =>
    have hfirst : w.Abides depth none (w.consult fun w => w.register key (.ofValue key value)).2 :=
      .consult (fun _ => none) (fun w => .register depth w key (by rintro _ _ _ ⟨⟩)) w
    exact hfirst.trans (ih _ _)
  | provide key inputs construct next _ ih =>
    have hfirst : w.Abides depth none
        (w.consult fun w => w.register key (.ofRecipe inputs construct)).2 :=
      .consult (fun _ => none) (fun w => .register depth w key (by rintro _ _ _ ⟨⟩; rfl)) w
    exact hfirst.trans (ih _ _)

/-- A way to find the component of a node that keeps to this, and finds none that belongs to a loop.
-/
def Heeds (depth : Nat)
    (find : Key → Node σ ι → Workshop σ ι → Outcome GraphError (Instance ι) × Workshop σ ι) :
    Prop :=
  ∀ key node (w : Workshop σ ι), w.graph.node? key = some node →
    w.Abides depth (find key node w).1.interruption? (find key node w).2 ∧
      ∀ knot, w.graph.Knotted knot → knot key → (find key node w).1.Stopped

section
variable {find : Key → Node σ ι → Workshop σ ι → Outcome GraphError (Instance ι) × Workshop σ ι}

theorem Heeds.gather (h : Heeds depth find) (owner : Key) (inputs : Inputs) (w : Workshop σ ι) :
    w.Abides depth (gather owner find inputs w).1.interruption? (gather owner find inputs w).2 :=
  gather_induction (R := Workshop.Abides depth) (fun w => .still w w.world) .trans owner
    inputs fun key node w' _ hnode => (h key node w' hnode).1

/-- Not all inputs are found if one belongs to a loop. -/
theorem Heeds.gather_stopped (h : Heeds depth find) {owner : Key} {inputs : Inputs} {p : Param}
    (hp : p ∈ inputs) {knot : Key → Prop} (hknot : w.graph.Knotted knot) (hkey : knot p.key) :
    (ServiceHost.gather owner find inputs w).1.Stopped := by
  induction inputs generalizing w with
  | nil => cases hp
  | cons q rest ih =>
    intro entries hok
    obtain ⟨more, hnone, -, hrest, -⟩ | ⟨node, item, w₁, more, hnode, hfirst, hrest, -⟩ :=
      gather_cons_ok (Prod.ext hok rfl)
    · obtain rfl | hp := List.mem_cons.1 hp
      · obtain ⟨inputs, ⟨_, _, hnode, -⟩, -⟩ := hknot _ hkey
        cases hnone.symm.trans hnode
      · exact ih hp hknot more (congrArg Prod.fst hrest)
    · obtain ⟨habides, hstopped⟩ := h q.key node w hnode
      obtain rfl | hp := List.mem_cons.1 hp
      · exact hstopped knot hknot hkey item (congrArg Prod.fst hfirst)
      · rw [hfirst] at habides
        exact ih hp (habides.knots knot hknot) more (congrArg Prod.fst hrest)

end

/-- Resolving a key abides by the locks, if every construction heeds them. -/
theorem Heeds.resolveWith
    {build : Key → Node σ ι → Workshop σ ι → Outcome GraphError (Instance ι) × Workshop σ ι}
    (h : Heeds depth build) (key : Key) (w : Workshop σ ι) :
    w.Abides depth (resolveWith build key w).1.interruption? (resolveWith build key w).2 := by
  unfold ServiceHost.resolveWith
  cases hnode : w.graph.node? key with
  | none => exact .still w w.world
  | some node =>
    simp only
    cases node.available with
    | some item => exact .still w w.world
    | none =>
      cases w.graph.verify key node with
      | error e => exact .still w w.world
      | ok => exact (h key node w hnode).1

/-- A construction leaves the locks as they were if it returns, runs out of depth only if that is
not more than there are nodes, and makes nothing that leads to itself. -/
theorem build_abides (note : Notice → σ → σ) (depth : Nat) (path : List Key) :
    Heeds depth (build (ι := ι) note depth path) := by
  induction depth generalizing path with
  | zero =>
    intro key node w hnode
    cases node with
    | value item =>
      refine ⟨.still w w.world, fun knot hknot hkey => ?_⟩
      cases (hknot.item? hkey).symm.trans (Graph.item?_of_node? hnode)
    | recipe =>
      exact ⟨.exhausted w, fun _ _ _ => .interrupted _⟩
  | succ depth ih =>
    intro key node w hnode
    cases node with
    | value item =>
      refine ⟨.still w w.world, fun knot hknot hkey => ?_⟩
      cases (hknot.item? hkey).symm.trans (Graph.item?_of_node? hnode)
    | recipe inputs construct cache =>
    unfold build
    split
    · exact ⟨.still w w.world, fun _ _ _ => .error _⟩
    cases hlocked : cache.locked with
    | true => exact ⟨.waiting w key, fun _ _ _ => .interrupted _⟩
    | false =>
    cases hmade : cache.made with
    | some item =>
      refine ⟨.still w w.world, fun knot hknot hkey => ?_⟩
      cases (hknot.item? hkey).symm.trans ((Graph.item?_of_node? hnode).trans hmade)
    | none =>
      have hfree : ¬w.graph.Locked key := Graph.not_locked_of_free hnode hlocked
      have hgather := (ih (path ++ [key])).gather key inputs
        { w with graph := w.graph.lock key }
      have hloop (knot : Key → Prop) (hknot : w.graph.Knotted knot) (hkey : knot key) :
          (gather key (build note depth (path ++ [key])) inputs
            { w with graph := w.graph.lock key }).1.Stopped := by
        obtain ⟨_, ⟨_, _, hnode', -⟩, p, hp, hinput⟩ := hknot key hkey
        cases hnode.symm.trans hnode'
        exact (ih (path ++ [key])).gather_stopped hp (hknot.mapCache fun _ _ => rfl) hinput
      simp only [Bool.false_eq_true, if_false]
      generalize gather key (build note depth (path ++ [key])) inputs
        { w with graph := w.graph.lock key } = r at hgather hloop
      obtain ⟨outcome, w₁⟩ := r
      cases outcome with
      | error e => exact ⟨hgather.giveUp hnode hfree, fun _ _ _ => .error e⟩
      | interrupted why => exact ⟨hgather.giveUp hnode hfree, fun _ _ _ => .interrupted why⟩
      | ok entries =>
        have hoff (knot : Key → Prop) (hknot : w.graph.Knotted knot) : ¬knot key := fun hkey =>
          hloop knot hknot hkey entries rfl
        have hnoted : Workshop.Abides depth { w with graph := w.graph.lock key } none
            { w₁ with world := note (.constructing key) w₁.world } :=
          hgather.trans (.still w₁ _)
        have hrun := hnoted.trans (Program.abides (ih []).resolveWith (construct ⟨key, entries⟩) _)
        simp only
        generalize (construct ⟨key, entries⟩).run (resolveWith (build note depth []))
          { w₁ with world := note (.constructing key) w₁.world } = r at hrun
        obtain ⟨outcome, w₂⟩ := r
        refine ⟨?abides, fun knot hknot hkey => absurd hkey (hoff knot hknot)⟩
        case abides =>
          cases outcome with
          | ok value => exact hrun.store hnode hfree hoff _
          | error failure => exact hrun.giveUp hnode hfree
          | interrupted why => exact hrun.giveUp hnode hfree

/-! ## More depth -/

/-- The second call does what the first one does, unless the first one has run out of depth. -/
def Outcome.Deeper {ε α : Type} (r r' : Outcome ε α × Workshop σ ι) : Prop :=
  r.1.interruption? ≠ some .tooDeep → r' = r

/-- The first call has returned. -/
theorem Outcome.Deeper.returned {ε α : Type} {r r' : Outcome ε α × Workshop σ ι}
    (h : Outcome.Deeper r r') (hreturned : r.1.interruption? = none) : r' = r := by
  refine h ?_
  rw [hreturned]
  exact (Option.some_ne_none _).symm

/-- More depth does not matter to a request, at whatever graph it is made. -/
theorem Workshop.consult_deeper {α ε : Type} {f f' : Workshop σ ι → Outcome ε α × Workshop σ ι}
    (h : ∀ w, Outcome.Deeper (f w) (f' w)) (w : Workshop σ ι) :
    Outcome.Deeper (w.consult f) (w.consult f') := by
  intro hdeep
  unfold Workshop.consult at hdeep ⊢
  cases hbeside : w.beside with
  | none =>
    rw [hbeside] at hdeep
    exact h w hdeep
  | some graph =>
    rw [hbeside] at hdeep
    simp only [h ⟨graph, none, w.world⟩ hdeep]

/-- More depth does not matter to a program, if it does not to resolving a key. -/
theorem Program.deeper {resolve resolve' : Resolver σ ι}
    (h : ∀ key w, Outcome.Deeper (resolve key w) (resolve' key w)) (p : Program σ ι)
    (w : Workshop σ ι) : Outcome.Deeper (p.run resolve w) (p.run resolve' w) := by
  induction p generalizing w with
  | finish result =>
    intro _
    cases result <;> rfl
  | panic text => exact fun _ => rfl
  | read next ih => exact ih w.world w
  | write world next ih => exact ih { w with world }
  | isCached key next ih => exact ih _ w
  | resolve key next ih =>
    have hfirst := Workshop.consult_deeper (h key) w
    unfold Program.run
    generalize w.consult (resolve key) = r at hfirst
    obtain ⟨outcome, w₁⟩ := r
    cases outcome with
    | ok item =>
      rw [hfirst.returned rfl]
      exact ih _ w₁
    | error e =>
      rw [hfirst.returned rfl]
      exact ih _ w₁
    | interrupted why =>
      intro hdeep
      rw [hfirst hdeep]
  | supply key value next ih => exact ih _ _
  | provide key inputs construct next _ ih => exact ih _ _

/-- More depth does not matter to finding inputs, if it does not to each of them. -/
theorem gather_deeper (owner : Key)
    {find find' : Key → Node σ ι → Workshop σ ι → Outcome GraphError (Instance ι) × Workshop σ ι}
    (h : ∀ key node w, Outcome.Deeper (find key node w) (find' key node w)) (inputs : Inputs)
    (w : Workshop σ ι) :
    Outcome.Deeper (gather owner find inputs w) (gather owner find' inputs w) := by
  induction inputs generalizing w with
  | nil => exact fun _ => rfl
  | cons p rest ih =>
    intro hdeep
    cases hnode : w.graph.node? p.key with
    | none =>
      cases hoptional : p.optional with
      | false => rw [gather_missing hnode hoptional, gather_missing hnode hoptional]
      | true =>
        rw [gather_absent hnode hoptional, Outcome.interruption?_map] at hdeep
        rw [gather_absent hnode hoptional, gather_absent hnode hoptional, ih w hdeep]
    | some node =>
      have hfirst := h p.key node w
      obtain ⟨outcome, w₁, hfind⟩ : ∃ outcome w₁, find p.key node w = (outcome, w₁) := ⟨_, _, rfl⟩
      rw [hfind] at hfirst
      cases outcome with
      | ok item =>
        rw [gather_present hnode hfind, Outcome.interruption?_map] at hdeep
        rw [gather_present hnode hfind, gather_present hnode (hfirst.returned rfl), ih w₁ hdeep]
      | error e => rw [gather_failed hnode hfind, gather_failed hnode (hfirst.returned rfl)]
      | interrupted why =>
        rw [gather_interrupted hnode hfind] at hdeep
        rw [gather_interrupted hnode hfind, gather_interrupted hnode (hfirst hdeep)]

/-- More depth does not matter to resolving a key, if it does not to every construction. -/
theorem resolveWith_deeper
    {build build' : Key → Node σ ι → Workshop σ ι → Outcome GraphError (Instance ι) × Workshop σ ι}
    (h : ∀ key node w, Outcome.Deeper (build key node w) (build' key node w)) (key : Key)
    (w : Workshop σ ι) : Outcome.Deeper (resolveWith build key w) (resolveWith build' key w) := by
  unfold resolveWith
  cases w.graph.node? key with
  | none => exact fun _ => rfl
  | some node =>
    simp only
    cases node.available with
    | some item => exact fun _ => rfl
    | none =>
      cases w.graph.verify key node with
      | error e => exact fun _ => rfl
      | ok => exact h key node w

/-- A construction that does not run out of depth does the same at any greater depth. -/
theorem build_deeper (note : Notice → σ → σ) (depth more : Nat) (path : List Key) (key : Key)
    (node : Node σ ι) (w : Workshop σ ι) :
    Outcome.Deeper (build note depth path key node w)
      (build note (depth + more) path key node w) := by
  induction depth generalizing path key node w with
  | zero =>
    cases node with
    | value item =>
      intro _
      rw [build_value, build_value]
    | recipe => exact fun hdeep => absurd rfl hdeep
  | succ depth ih =>
    cases node with
    | value item =>
      intro _
      rw [build_value, build_value]
    | recipe inputs construct cache =>
    rw [Nat.succ_add]
    unfold build
    split
    · exact fun _ => rfl
    split
    · exact fun _ => rfl
    cases cache.made with
    | some item => exact fun _ => rfl
    | none =>
      have hgather := gather_deeper key (ih (path ++ [key])) inputs
        { w with graph := w.graph.lock key }
      simp only
      generalize gather key (build note depth (path ++ [key])) inputs
        { w with graph := w.graph.lock key } = r at hgather
      obtain ⟨outcome, w₁⟩ := r
      cases outcome with
      | error e => exact fun _ => by rw [hgather.returned rfl]
      | interrupted why => exact fun hdeep => by rw [hgather hdeep]
      | ok entries =>
        have hrun := Program.deeper (resolveWith_deeper (ih [])) (construct ⟨key, entries⟩)
          { w₁ with world := note (.constructing key) w₁.world }
        rw [hgather.returned rfl]
        simp only
        generalize (construct ⟨key, entries⟩).run (resolveWith (build note depth []))
          { w₁ with world := note (.constructing key) w₁.world } = r at hrun
        obtain ⟨outcome, w₂⟩ := r
        cases outcome with
        | ok value => exact fun _ => by rw [hrun.returned rfl]
        | error failure => exact fun _ => by rw [hrun.returned rfl]
        | interrupted why => exact fun hdeep => by rw [hrun hdeep]

end ServiceHost
