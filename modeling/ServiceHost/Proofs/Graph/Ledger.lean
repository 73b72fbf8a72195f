import Mathlib.Logic.Function.Basic
import ServiceHost.Proofs.Graph.Conduct

/-!
# Threads that share a graph

Any number of threads resolve keys of one graph, act by act in any order. A shift is such a crew
with all that its threads have done (`Workshop.shift`). Each of them holds the locks of the
components that it has under construction, while it builds their inputs, and for a moment that of a
component that it looks for.

For each key there is a ledger (`Shift.Ledger`): which thread has the lock of its component and what
for, in agreement with the lock, with the cache, with the calls of the constructor that have not
returned, and with those that have returned a component. An act changes the ledger of one key only
(`Ledger.other`), and there in the order in which a construction goes: the lock is taken, the
constructor is called, it returns, what it returned is stored and the lock is given back
(`Ledger.own`).
-/

namespace ServiceHost

open Relation

variable {σ ι : Type}

/-- Threads at work, and what they have done, the last move first. -/
structure Shift (σ ι : Type) where
  crew : Crew σ ι
  moves : List (Crew.Move σ ι)

namespace Shift

/-- A thread does its next act, or nothing where it has to wait. -/
def step (note : Notice → σ → σ) (s : Shift σ ι) (i : Nat) : Shift σ ι :=
  match s.crew.move? note i with
  | some (move, crew) => ⟨crew, move :: s.moves⟩
  | none => s

/-- The threads whose call of the constructor of the key has not returned. -/
def running (key : Key) : List (Crew.Move σ ι) → List Nat
  | [] => []
  | ⟨i, .call k _, _⟩ :: earlier =>
    if k = key then i :: running key earlier else running key earlier
  | ⟨i, .returned k _, _⟩ :: earlier =>
    if k = key then (running key earlier).erase i else running key earlier
  | _ :: earlier => running key earlier

/-- The constructor of the key returns a component. -/
def returnsOk (key : Key) : Crew.Move σ ι → Bool
  | ⟨_, .returned k (.ok _), _⟩ => k == key
  | _ => false

/-- The keys whose locks the thread has tried while somebody else had them. -/
def missedBy (i : Nat) : List (Crew.Move σ ι) → List Key
  | [] => []
  | ⟨j, .look key, none⟩ :: earlier =>
    if j = i then key :: missedBy i earlier else missedBy i earlier
  | _ :: earlier => missedBy i earlier

end Shift

/-- Threads that resolve these keys act in this order, or do nothing where they have to wait. -/
def Workshop.shift (w : Workshop σ ι) (note : Notice → σ → σ) (keys : List Key)
    (schedule : List Nat) : Shift σ ι :=
  schedule.foldl (Shift.step note) ⟨w.crew keys, []⟩

/-- The threads do what they do without anybody keeping a record of it. -/
theorem Workshop.crew_shift (w : Workshop σ ι) (note : Notice → σ → σ) (keys : List Key)
    (schedule : List Nat) :
    (w.shift note keys schedule).crew = (w.crew keys).run note schedule := by
  have hstep (s : Shift σ ι) (i : Nat) : (s.step note i).crew = s.crew.step note i := by
    rw [Shift.step, Crew.step]
    cases s.crew.move? note i <;> rfl
  have hrun (s : Shift σ ι) : (schedule.foldl (Shift.step note) s).crew =
      s.crew.run note schedule := by
    unfold Crew.run
    induction schedule generalizing s with
    | nil => rfl
    | cons i rest ih => rw [List.foldl_cons, List.foldl_cons, ih, hstep]
  exact hrun ⟨w.crew keys, []⟩

/-- The key whose cache an act is about. -/
def Act.key? : Act σ ι → Option Key
  | .look key => some key
  | .lock key => some key
  | .release key => some key
  | .poison key => some key
  | .call key _ => some key
  | .returned key _ => some key
  | .store key _ => some key
  | _ => none

/-- What an act does to the cache that it is about. -/
def Act.effect : (a : Act σ ι) → a.Answer → Cache ι → Cache ι
  | .look _, some _, c => { c with locked := true }
  | .lock _, _, c => { c with locked := true }
  | .release _, _, c => { c with locked := false }
  | .poison _, _, c => { c with locked := false, poisoned := true }
  | .store _ item, _, c => { c with made := some item }
  | _, _, c => c

/-- No component is lost by an act, and a new one could be made. -/
structure Act.Proper (g : Graph σ ι) (a : Act σ ι) (answer : a.Answer) (key : Key)
    (cache : Cache ι) : Prop where
  kept : ∀ item, cache.made = some item → (a.effect answer cache).made = some item
  made : cache.made = none → (a.effect answer cache).made ≠ none → g.trusted.Makeable key

/-- An act that leaves the component as it is. -/
theorem Act.Proper.of_made {g : Graph σ ι} {a : Act σ ι} {answer : a.Answer} {key : Key}
    {cache : Cache ι} (h : (a.effect answer cache).made = cache.made) :
    a.Proper g answer key cache :=
  ⟨fun _ hmade => h.trans hmade, fun hnone hmade => absurd (h.trans hnone) hmade⟩

/-- What the locks of one component are held for. -/
def stagesOf (key : Key) (s : Stack) : List Stage :=
  s.filterMap fun f => if f.1 = key then some f.2 else none

theorem stagesOf_cons (key : Key) (f : Key × Stage) (s : Stack) :
    stagesOf key (f :: s) = if f.1 = key then f.2 :: stagesOf key s else stagesOf key s := by
  unfold stagesOf
  rw [List.filterMap_cons]
  by_cases hkey : f.1 = key <;> simp [hkey]

/-- A stage of a key stands on the stack. -/
theorem mem_of_stagesOf {key : Key} {stage : Stage} {s : Stack} (h : stage ∈ stagesOf key s) :
    (key, stage) ∈ s := by
  obtain ⟨⟨k, stage'⟩, hmem, hsome⟩ := List.mem_filterMap.1 h
  split at hsome
  · next hk =>
    cases hsome
    cases hk
    exact hmem
  · cases hsome

theorem Node.mapCache_id (node : Node σ ι) : node.mapCache (fun c => c) = node := by
  cases node <;> rfl

section
variable {note : Notice → σ → σ} {a : Act σ ι} {answer : a.Answer} {w w' : Workshop σ ι}
  {g : Graph σ ι} {known : Key → Instance ι → Prop} {s : Stack}

/-- An act changes the cache of one component at most. -/
theorem Act.perform_node? (h : a.perform note w = some (answer, w'))
    (hallowed : a.Allowed g known s) (key : Key) :
    w'.graph.node? key = if a.key? = some key
      then (w.graph.node? key).map (Node.mapCache (a.effect answer)) else w.graph.node? key := by
  have hsame : ∀ f : Cache ι → Cache ι, (∀ c, f c = c) → ∀ k : Option Key,
      w.graph.node? key = if k = some key
        then (w.graph.node? key).map (Node.mapCache f) else w.graph.node? key := by
    intro f hf k
    obtain rfl : f = fun c => c := funext hf
    split
    · rw [funext Node.mapCache_id, Option.map_id']
    · rfl
  have hmap : ∀ k (f : Cache ι → Cache ι), (w.graph.mapCache k f).node? key =
      if some k = some key then (w.graph.node? key).map (Node.mapCache f)
      else w.graph.node? key := by
    intro k f
    rw [Graph.node?_mapCache]
    simp only [Option.some_inj, eq_comm]
  cases a with
  | peek k => cases h; rfl
  | read => cases h; rfl
  | write world => cases h; rfl
  | register k node => exact hallowed.elim
  | call k entries => cases h; exact hsame _ (fun _ => rfl) _
  | returned k result => cases h; exact hsame _ (fun _ => rfl) _
  | store k item => cases h; exact hmap k _
  | release k => cases h; exact hmap k _
  | poison k => cases h; exact hmap k _
  | look k =>
    rcases Act.look_cases h with ⟨rfl, rfl⟩ | ⟨cache, -, -, rfl, rfl⟩
    · exact hsame _ (fun _ => rfl) _
    · exact hmap k _
  | lock k =>
    obtain ⟨cache, -, -, rfl, rfl⟩ := Act.lock_cases h
    exact hmap k _

/-- An act changes the cache of its own key, and no other. -/
theorem Act.perform_cache? (h : a.perform note w = some (answer, w'))
    (hallowed : a.Allowed g known s) (key : Key) :
    w'.graph.cache? key = if a.key? = some key
      then (w.graph.cache? key).map (a.effect answer) else w.graph.cache? key := by
  unfold Graph.cache?
  rw [Act.perform_node? h hallowed key]
  by_cases hkey : a.key? = some key
  · rw [if_pos hkey, if_pos hkey]
    cases w.graph.node? key with
    | none => rfl
    | some node => cases node <;> rfl
  · rw [if_neg hkey, if_neg hkey]

/-! ## The ledger of a key -/

theorem stagesOf_tail {key k : Key} {stage : Stage} {s : Stack} (hk : k ≠ key)
    (hhead : s.head? = some (k, stage)) : stagesOf key s.tail = stagesOf key s := by
  obtain ⟨rest, rfl⟩ := List.head?_eq_some_iff.1 hhead
  rw [stagesOf_cons, if_neg hk, List.tail_cons]

/-- An act leaves the locks of other components as they are. -/
theorem stagesOf_after (answer : a.Answer) {key : Key} (hallowed : a.Allowed g known s)
    (hkey : a.key? ≠ some key) : stagesOf key (a.after s answer) = stagesOf key s := by
  have hcons : ∀ {k} stage s, some k ≠ some key → stagesOf key ((k, stage) :: s) = stagesOf key s :=
    fun stage s hk => by rw [stagesOf_cons, if_neg fun heq => hk (congrArg some heq)]
  have htail : ∀ {k stage}, some k ≠ some key → s.head? = some (k, stage) →
      stagesOf key s.tail = stagesOf key s :=
    fun hk hhead => stagesOf_tail (fun heq => hk (congrArg some heq)) hhead
  cases a with
  | peek k => rfl
  | read => rfl
  | write world => rfl
  | poison k => exact hallowed.elim
  | register k node => exact hallowed.elim
  | look k =>
    cases answer with
    | none => rfl
    | some cache => exact hcons _ s hkey
  | lock k => cases answer <;> exact hcons _ s hkey
  | call k entries => exact (hcons _ s.tail hkey).trans (htail hkey hallowed.1)
  | returned k result =>
    cases result <;> exact (hcons _ s.tail hkey).trans (htail hkey hallowed)
  | store k item => exact (hcons _ s.tail hkey).trans (htail hkey hallowed)
  | release k =>
    obtain ⟨stage, hhead, -⟩ := hallowed
    exact htail hkey hhead

end

/-- What a thread has the lock of a component for. -/
def stagesBy (owner : Option (Nat × Stage)) (i : Nat) : List Stage :=
  match owner with
  | some (j, stage) => if i = j then [stage] else []
  | none => []

/-- The thread in whose call of the constructor a construction is. -/
def callerIn : Option (Nat × Stage) → List Nat
  | some (i, .calling) => [i]
  | _ => []

/-- The constructor has returned the component. -/
def Stage.hasReturned : Stage → Bool
  | .made => true
  | .stored => true
  | _ => false

namespace Shift

/-- Which thread has the lock of the component of the key in the present graph, and what for. -/
structure Ledger (g present : Graph σ ι) (moves : List (Crew.Move σ ι)) (busy : Nat → Stack)
    (key : Key) (owner : Option (Nat × Stage)) : Prop where
  held : ∀ i, stagesOf key (busy i) = stagesBy owner i
  registered : owner ≠ none → ∃ cache, present.cache? key = some cache
  locked : ∀ cache, present.cache? key = some cache → cache.locked = owner.isSome
  /-- What is under construction is there once it is stored. -/
  made : ∀ cache i stage, present.cache? key = some cache → owner = some (i, stage) →
    stage ≠ .looking → (cache.made ≠ none ↔ stage = .stored)
  makeable : ∀ i stage, owner = some (i, stage) → stage ≠ .looking → g.trusted.Makeable key
  running : running key moves = callerIn owner
  returned_le : moves.countP (returnsOk key) ≤ 1
  /-- What the constructor returned is in the cache, or about to be put there. -/
  returned : moves.countP (returnsOk key) ≠ 0 →
    (∃ cache, present.cache? key = some cache ∧ cache.made ≠ none) ∨ ∃ i, owner = some (i, .made)

/-- An act at another key is no return of this one's constructor. -/
theorem returnsOk_other {i : Nat} {a : Act σ ι} {answer : a.Answer} {key : Key}
    (hkey : a.key? ≠ some key) : returnsOk key ⟨i, a, answer⟩ = false := by
  cases a with
  | returned k result =>
    cases result with
    | ok value => exact beq_eq_false_iff_ne.2 fun hk => hkey (congrArg some hk)
    | error failure => rfl
  | _ => rfl

/-- Nor does it change whether that constructor runs. -/
theorem running_other {i : Nat} {a : Act σ ι} {answer : a.Answer} {key : Key}
    {moves : List (Crew.Move σ ι)} (hkey : a.key? ≠ some key) :
    running key (⟨i, a, answer⟩ :: moves) = running key moves := by
  cases a with
  | call k entries => exact if_neg fun hk => hkey (congrArg some hk)
  | returned k result => exact if_neg fun hk => hkey (congrArg some hk)
  | _ => rfl

namespace Ledger

variable {g present present' : Graph σ ι} {known : Key → Instance ι → Prop}
  {moves moves' : List (Crew.Move σ ι)} {busy : Nat → Stack} {key : Key}
  {owner : Option (Nat × Stage)} {note : Notice → σ → σ} {a : Act σ ι} {answer : a.Answer}
  {w w' : Workshop σ ι} {i : Nat} {stage : Stage} {rest : Stack} {cache : Cache ι}

/-- The last lock that a thread has taken is in the ledger of its key. -/
theorem owner_of_head (h : Ledger g present moves busy key owner)
    (hstack : busy i = (key, stage) :: rest) :
    owner = some (i, stage) ∧ stagesOf key rest = [] := by
  have hheld := h.held i
  rw [hstack, stagesOf_cons, if_pos rfl] at hheld
  cases owner with
  | none => cases hheld
  | some o =>
    obtain ⟨j, stage'⟩ := o
    unfold stagesBy at hheld
    dsimp only at hheld
    split at hheld
    · next hij =>
      obtain ⟨rfl, hrest⟩ := List.cons.inj hheld
      exact ⟨by rw [hij], hrest⟩
    · cases hheld

/-- Nobody has a lock that is free. -/
theorem owner_of_free (h : Ledger g present moves busy key owner)
    (hcache : present.cache? key = some cache) (hfree : cache.locked = false) : owner = none := by
  have hlocked := (h.locked cache hcache).symm.trans hfree
  cases owner with
  | none => rfl
  | some o => cases hlocked

/-- A lock is taken. -/
theorem held_taken (h : Ledger g present moves busy key none) (stage : Stage) (j : Nat) :
    stagesOf key (Function.update busy i ((key, stage) :: busy i) j) =
      stagesBy (some (i, stage)) j := by
  have hheld := h.held j
  by_cases hj : j = i
  · subst hj
    rw [Function.update_self, stagesOf_cons, if_pos rfl, hheld, stagesBy, stagesBy]
    exact (if_pos rfl).symm
  · rw [Function.update_of_ne hj, hheld, stagesBy, stagesBy]
    exact (if_neg hj).symm

/-- The innermost construction of a thread comes further. -/
theorem held_moved (h : Ledger g present moves busy key owner)
    (hstack : busy i = (key, stage) :: rest) (stage' : Stage) (j : Nat) :
    stagesOf key (Function.update busy i ((key, stage') :: rest) j) =
      stagesBy (some (i, stage')) j := by
  obtain ⟨rfl, hrest⟩ := h.owner_of_head hstack
  by_cases hj : j = i
  · subst hj
    rw [Function.update_self, stagesOf_cons, if_pos rfl, hrest, stagesBy]
    exact (if_pos rfl).symm
  · have hother := h.held j
    rw [stagesBy, if_neg hj] at hother
    rw [Function.update_of_ne hj, hother, stagesBy]
    exact (if_neg hj).symm

/-- The last lock that a thread has taken is given back. -/
theorem held_ended (h : Ledger g present moves busy key owner)
    (hstack : busy i = (key, stage) :: rest) (j : Nat) :
    stagesOf key (Function.update busy i rest j) = [] := by
  obtain ⟨rfl, hrest⟩ := h.owner_of_head hstack
  by_cases hj : j = i
  · subst hj
    rw [Function.update_self, hrest]
  · have hother := h.held j
    rw [stagesBy, if_neg hj] at hother
    rw [Function.update_of_ne hj, hother]

/-! ### One act -/

/-- Nothing has happened that is told in the ledger. -/
theorem same {busy' : Nat → Stack} (h : Ledger g present moves busy key owner)
    (hheld : ∀ j, stagesOf key (busy' j) = stagesOf key (busy j))
    (hcache : present'.cache? key = present.cache? key)
    (hrunning : Shift.running key moves' = Shift.running key moves)
    (hreturns : moves'.countP (returnsOk key) = moves.countP (returnsOk key)) :
    Ledger g present' moves' busy' key owner where
  held j := (hheld j).trans (h.held j)
  registered := hcache ▸ h.registered
  locked := hcache ▸ h.locked
  made := hcache ▸ h.made
  makeable := h.makeable
  running := hrunning.trans h.running
  returned_le := hreturns ▸ h.returned_le
  returned := by
    rw [hreturns, hcache]
    exact h.returned

/-- An act about another component. -/
theorem other (h : Ledger g w.graph moves busy key owner) (hkey : a.key? ≠ some key)
    (hallowed : a.Allowed g known (busy i)) (hact : a.perform note w = some (answer, w')) :
    Ledger g w'.graph (⟨i, a, answer⟩ :: moves)
      (Function.update busy i (a.after (busy i) answer)) key owner := by
  refine h.same (fun j => ?_) ?_ (running_other hkey) ?_
  · by_cases hj : j = i
    · subst hj
      rw [Function.update_self, stagesOf_after answer hallowed hkey]
    · rw [Function.update_of_ne hj]
  · exact (Act.perform_cache? hact hallowed key).trans (if_neg hkey)
  · exact List.countP_cons_of_neg (by rw [returnsOk_other hkey]; exact Bool.false_ne_true)

/-- While the component is under construction its constructor has returned it only at the end. -/
theorem hasReturned (h : Ledger g present moves busy key (some (i, stage)))
    (hstage : stage ≠ .looking) (hreturns : moves.countP (returnsOk key) ≠ 0) :
    stage.hasReturned = true := by
  rcases h.returned hreturns with ⟨cache, hcache, hmade⟩ | ⟨j, hown⟩
  · rw [(h.made cache i stage hcache rfl hstage).1 hmade]
    rfl
  · cases hown
    rfl

/-- A lock is taken: to look at what is there, or to construct what can be made. -/
theorem taken (h : Ledger g present moves busy key none)
    (hcache : present.cache? key = some cache)
    (hcache' : present'.cache? key = some { cache with locked := true })
    (hstage : stage = .looking ∨
      stage = .gathering ∧ cache.made = none ∧ g.trusted.Makeable key)
    (hrunning : Shift.running key moves' = Shift.running key moves)
    (hreturns : moves'.countP (returnsOk key) = moves.countP (returnsOk key)) :
    Ledger g present' moves' (Function.update busy i ((key, stage) :: busy i)) key
      (some (i, stage)) where
  held := h.held_taken stage
  registered _ := ⟨_, hcache'⟩
  locked cache' hsame := by
    cases hcache'.symm.trans hsame
    rfl
  made cache' j stage' hsame hown hne := by
    cases hcache'.symm.trans hsame
    cases hown
    rcases hstage with rfl | ⟨rfl, hnone, -⟩
    · exact absurd rfl hne
    · exact iff_of_false (fun hmade => hmade hnone) Stage.noConfusion
  makeable j stage' hown hne := by
    cases hown
    rcases hstage with rfl | ⟨-, -, hmakeable⟩
    · exact absurd rfl hne
    · exact hmakeable
  running := by
    refine (hrunning.trans h.running).trans ?_
    rcases hstage with rfl | ⟨rfl, -⟩ <;> rfl
  returned_le := hreturns ▸ h.returned_le
  returned hne := by
    rw [hreturns] at hne
    rcases h.returned hne with ⟨cache', hsame, hmade⟩ | ⟨j, hown⟩
    · cases hcache.symm.trans hsame
      exact .inl ⟨_, hcache', hmade⟩
    · cases hown

/-- A construction comes further. -/
theorem moved {stage' : Stage} (h : Ledger g present moves busy key (some (i, stage)))
    (hstack : busy i = (key, stage) :: rest) (hne : stage ≠ .looking)
    (hcache : present'.cache? key = some cache) (hlocked : cache.locked = true)
    (hmade : cache.made ≠ none ↔ stage' = .stored)
    (hrunning : Shift.running key moves' = callerIn (some (i, stage')))
    (hle : moves'.countP (returnsOk key) ≤ 1)
    (hreturns : moves'.countP (returnsOk key) ≠ 0 → stage'.hasReturned = true) :
    Ledger g present' moves' (Function.update busy i ((key, stage') :: rest)) key
      (some (i, stage')) where
  held := h.held_moved hstack stage'
  registered _ := ⟨cache, hcache⟩
  locked cache' hcache' := by
    cases hcache.symm.trans hcache'
    exact hlocked
  made cache' j stage hcache' hown _ := by
    cases hcache.symm.trans hcache'
    cases hown
    exact hmade
  makeable _ _ _ _ := h.makeable i stage rfl hne
  running := hrunning
  returned_le := hle
  returned hne := by
    have hstage := hreturns hne
    cases stage' with
    | made => exact .inr ⟨i, rfl⟩
    | stored => exact .inl ⟨cache, hcache, hmade.2 rfl⟩
    | _ => cases hstage

/-- A lock is given back. -/
theorem released (h : Ledger g present moves busy key (some (i, stage)))
    (hstack : busy i = (key, stage) :: rest) (hover : stage.isOver = true)
    (hcache : present.cache? key = some cache)
    (hcache' : present'.cache? key = some { cache with locked := false })
    (hrunning : Shift.running key moves' = Shift.running key moves)
    (hreturns : moves'.countP (returnsOk key) = moves.countP (returnsOk key)) :
    Ledger g present' moves' (Function.update busy i rest) key none where
  held := h.held_ended hstack
  registered hne := absurd rfl hne
  locked cache' hsame := by
    cases hcache'.symm.trans hsame
    rfl
  made _ _ _ _ hown := by cases hown
  makeable _ _ hown := by cases hown
  running := by
    rw [hrunning, h.running]
    cases stage with
    | calling => cases hover
    | _ => rfl
  returned_le := hreturns ▸ h.returned_le
  returned hne := by
    rw [hreturns] at hne
    rcases h.returned hne with ⟨cache', hsame, hmade⟩ | ⟨j, hown⟩
    · cases hcache.symm.trans hsame
      exact .inl ⟨_, hcache', hmade⟩
    · cases hown
      cases hover

/-! ### An act about the component -/

/-- A thread is about to go on with the last lock that it has taken. -/
theorem at_head (h : Ledger g present moves busy key owner)
    (hhead : (busy i).head? = some (key, stage)) :
    ∃ rest cache, busy i = (key, stage) :: rest ∧ owner = some (i, stage) ∧
      present.cache? key = some cache ∧ cache.locked = true := by
  obtain ⟨rest, hstack⟩ := List.head?_eq_some_iff.1 hhead
  obtain ⟨rfl, -⟩ := h.owner_of_head hstack
  obtain ⟨cache, hcache⟩ := h.registered (Option.some_ne_none _)
  exact ⟨rest, cache, hstack, rfl, hcache, h.locked cache hcache⟩

/-- The call of the constructor ends, for the first time if it returns the component. -/
theorem call_ended {result : Except Failure ι}
    {answer : (Act.returned key result : Act σ ι).Answer}
    (h : Ledger g present moves busy key owner) (hhead : (busy i).head? = some (key, .calling))
    (hcache : present'.cache? key = present.cache? key) :
    ∃ owner', Ledger g present' (⟨i, .returned key result, answer⟩ :: moves)
      (Function.update busy i ((Act.returned key result : Act σ ι).after (busy i) answer))
      key owner' := by
  obtain ⟨rest, cache, hstack, rfl, hsome, hlocked⟩ := h.at_head hhead
  have hmade : cache.made ≠ none ↔ Stage.calling = .stored :=
    h.made cache i _ hsome rfl Stage.noConfusion
  have hunmade {stage : Stage} (hstage : stage ≠ .stored) : cache.made ≠ none ↔ stage = .stored :=
    hmade.trans (iff_of_false Stage.noConfusion hstage)
  have hran : Shift.running key (⟨i, .returned key result, answer⟩ :: moves) = [] := by
    refine (if_pos rfl).trans ?_
    rw [h.running]
    exact List.erase_cons_head ..
  have hnone : moves.countP (returnsOk key) = 0 := Classical.byContradiction fun hne =>
    Bool.false_ne_true (h.hasReturned Stage.noConfusion hne)
  rw [hsome] at hcache
  cases result with
  | ok value =>
    rw [Act.after, hstack, List.tail_cons]
    refine ⟨_, h.moved hstack Stage.noConfusion hcache hlocked (hunmade Stage.noConfusion) hran ?_
      fun _ => rfl⟩
    rw [List.countP_cons, hnone]
    split <;> simp
  | error failure =>
    rw [Act.after, hstack, List.tail_cons]
    exact ⟨_, h.moved hstack Stage.noConfusion hcache hlocked (hunmade Stage.noConfusion) hran
      h.returned_le fun hne => absurd hnone hne⟩

/-- An act about the component changes its ledger in the order in which a construction goes. -/
theorem own (h : Ledger g w.graph moves busy key owner) (hkey : a.key? = some key)
    {known' : Key → Instance ι → Prop} {missed : List Key} (hallowed : a.Allowed g known (busy i))
    (hyields : a.Yields g known' missed answer) (hact : a.perform note w = some (answer, w')) :
    ∃ owner', Ledger g w'.graph (⟨i, a, answer⟩ :: moves)
      (Function.update busy i (a.after (busy i) answer)) key owner' := by
  have hcache' := Act.perform_cache? hact hallowed key
  rw [if_pos hkey] at hcache'
  cases a with
  | peek k => cases hkey
  | read => cases hkey
  | write world => cases hkey
  | register k node => cases hkey
  | poison k => exact hallowed.elim
  | look k =>
    cases hkey
    rcases Act.look_cases hact with ⟨rfl, rfl⟩ | ⟨cache, hcache, hfree, rfl, -⟩
    · exact ⟨owner, h.same (fun j => congrArg (stagesOf key)
        (congrFun (Function.update_eq_self i busy) j)) rfl rfl rfl⟩
    · obtain rfl := h.owner_of_free hcache hfree
      rw [hcache] at hcache'
      exact ⟨_, h.taken hcache hcache' (.inl rfl) rfl rfl⟩
  | lock k =>
    cases hkey
    obtain ⟨cache, hcache, hfree, hanswer, -⟩ := Act.lock_cases hact
    obtain rfl := h.owner_of_free hcache hfree
    rw [hcache] at hcache'
    cases answer with
    | some item => exact ⟨_, h.taken hcache hcache' (.inl rfl) rfl rfl⟩
    | none =>
      have hmakeable := hallowed.2.1 hyields
      exact ⟨_, h.taken hcache hcache' (.inr ⟨rfl, hanswer.symm, hmakeable⟩) rfl rfl⟩
  | call k entries =>
    cases hkey
    obtain ⟨rest, cache, hstack, rfl, hcache, hlocked⟩ := h.at_head hallowed.1
    have hmade := h.made cache i _ hcache rfl Stage.noConfusion
    rw [hcache] at hcache'
    rw [Act.after, hstack, List.tail_cons]
    refine ⟨_, h.moved hstack Stage.noConfusion hcache' hlocked ?_ ?_ h.returned_le ?_⟩
    · exact hmade.trans (iff_of_false Stage.noConfusion Stage.noConfusion)
    · exact (if_pos rfl).trans (congrArg (i :: ·) h.running)
    · exact fun hne => h.hasReturned Stage.noConfusion hne
  | returned k result =>
    cases hkey
    exact h.call_ended hallowed (hcache'.trans Option.map_id')
  | store k item =>
    cases hkey
    obtain ⟨rest, cache, hstack, rfl, hcache, hlocked⟩ := h.at_head hallowed
    rw [hcache] at hcache'
    rw [Act.after, hstack, List.tail_cons]
    refine ⟨_, h.moved hstack Stage.noConfusion hcache' hlocked ?_ h.running h.returned_le
      fun _ => rfl⟩
    exact iff_of_true (Option.some_ne_none item) rfl
  | release k =>
    cases hkey
    obtain ⟨stage, hhead, hover⟩ := hallowed
    obtain ⟨rest, cache, hstack, rfl, hcache, -⟩ := h.at_head hhead
    rw [hcache] at hcache'
    rw [Act.after, hstack, List.tail_cons]
    exact ⟨none, h.released hstack hover hcache hcache' rfl rfl⟩

/-- What is done to a cache of which the ledger tells. -/
theorem proper (h : Ledger g present moves busy key owner) (hkey : a.key? = some key)
    (hallowed : a.Allowed g known (busy i)) (hcache : present.cache? key = some cache) :
    a.Proper g answer key cache := by
  cases a with
  | peek k => cases hkey
  | read => cases hkey
  | write world => cases hkey
  | register k node => cases hkey
  | poison k => exact hallowed.elim
  | call k entries => exact .of_made rfl
  | returned k result => exact .of_made rfl
  | look k => cases answer <;> exact .of_made rfl
  | lock k => exact .of_made rfl
  | release k => exact .of_made rfl
  | store k item =>
    cases hkey
    obtain ⟨rest, cache', hstack, rfl, hcache', -⟩ := h.at_head hallowed
    cases hcache.symm.trans hcache'
    refine ⟨fun item' hmade => ?_, fun _ _ => h.makeable i _ rfl Stage.noConfusion⟩
    cases (h.made cache i _ hcache rfl Stage.noConfusion).1 (hmade ▸ Option.some_ne_none item')

end Ledger

end Shift

end ServiceHost
