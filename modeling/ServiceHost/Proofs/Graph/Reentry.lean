import ServiceHost.Proofs.Graph.Advance
import ServiceHost.Proofs.Graph.Precheck

/-!
# Constructors that resolve

A constructor that asks for a component while it runs makes a call within a call, and the locks of
all components under construction around it are held by the caller itself. Neither check sees these:
the one before a construction takes a locked component for one that is still to be made, and the
path of a construction begins anew with every call. So a call within a call that leads back to a
component under construction does not return a component (`Graph.Barred`): unless the check refuses
it for its declared inputs alone, or a constructor fails on the way, it waits for a lock that its
own caller holds. Nothing else keeps a call from returning: what it waits for was locked when the
call was made, or is a component that leads back to itself through declared inputs and through what
constructors may ask for (`Graph.Awaits`, `build_answers`).
-/

namespace ServiceHost

open Relation

variable {σ ι : Type}

/-- The program returns on any answers, and registers nothing. -/
inductive Program.Returning : Program σ ι → Prop
  | finish (result : Except Failure ι) : Returning (.finish result)
  | read {next : σ → Program σ ι} (h : ∀ world, Returning (next world)) : Returning (.read next)
  | write (world : σ) {next : Program σ ι} (h : Returning next) : Returning (.write world next)
  | isCached (key : Key) {next : Bool → Program σ ι} (h : ∀ answer, Returning (next answer)) :
      Returning (.isCached key next)
  | resolve (key : Key) {next : Except GraphError (Instance ι) → Program σ ι}
      (h : ∀ answer, Returning (next answer)) : Returning (.resolve key next)

/-- The program asks for the component of the key, on some answers. -/
inductive Program.Asks (k : Key) : Program σ ι → Prop
  | now (next : Except GraphError (Instance ι) → Program σ ι) : Asks k (.resolve k next)
  | read {next : σ → Program σ ι} {world : σ} (h : Asks k (next world)) : Asks k (.read next)
  | write (world : σ) {next : Program σ ι} (h : Asks k next) : Asks k (.write world next)
  | isCached (key : Key) {next : Bool → Program σ ι} {answer : Bool} (h : Asks k (next answer)) :
      Asks k (.isCached key next)
  | resolve (key : Key) {next : Except GraphError (Instance ι) → Program σ ι}
      {answer : Except GraphError (Instance ι)} (h : Asks k (next answer)) :
      Asks k (.resolve key next)
  | supply (key : Key) (value : ι) {next : Except GraphError Unit → Program σ ι}
      {answer : Except GraphError Unit} (h : Asks k (next answer)) :
      Asks k (.supply key value next)
  | provide (key : Key) (inputs : Inputs) (construct : Args ι → Program σ ι)
      {next : Except GraphError Unit → Program σ ι} {answer : Except GraphError Unit}
      (h : Asks k (next answer)) : Asks k (.provide key inputs construct next)

namespace Graph

/-- Every constructor returns, whatever it is called with, and registers nothing. -/
def Returning (g : Graph σ ι) : Prop :=
  ∀ key inputs construct cache, g.node? key = some (.recipe inputs construct cache) →
    ∀ args, (construct args).Returning

/-- The lock of the key is held. -/
def Locked (g : Graph σ ι) (key : Key) : Prop :=
  ∃ inputs construct cache, g.node? key = some (.recipe inputs construct cache) ∧
    cache.locked = true

/-- The component to be made declares the next one as an input, or its constructor may ask for it.
-/
def Leads (g : Graph σ ι) (key next : Key) : Prop :=
  ∃ inputs construct cache, g.node? key = some (.recipe inputs construct cache) ∧
    cache.made = none ∧ ((∃ p ∈ inputs, p.key = next) ∨ ∃ args, (construct args).Asks next)

/-- A call for `root` may wait for `key`: it leads there, and the key is locked or leads back to
itself. -/
def Awaits (g : Graph σ ι) (root key : Key) : Prop :=
  ReflTransGen g.Leads root key ∧ (g.Locked key ∨ TransGen g.Leads key key)

/-- The component is under construction, or leads to one that is, through declared inputs. -/
def Barred (g : Graph σ ι) (key : Key) : Prop :=
  ∃ busy, g.Busy busy ∧ g.Needs key busy

section
variable {g g' : Graph σ ι} {key k root next : Key} {inputs : Inputs}
  {construct : Args ι → Program σ ι} {cache : Cache ι}

/-! ## What leads where -/

/-- What is still to be made was so before, and led to the same components. -/
theorem Later.leads (h : g.Later g') (hleads : g'.Leads key next) : g.Leads key next := by
  obtain ⟨inputs, construct, cache', hnode, hnone, hnext⟩ := hleads
  obtain ⟨cache, hbefore, hmade⟩ := h.recipe_of hnode
  refine ⟨inputs, construct, cache, hbefore, ?_, hnext⟩
  cases hitem : cache.made with
  | none => rfl
  | some item => cases hnone.symm.trans (hmade item hitem)

theorem Later.returning (h : g.Later g') (hg : g.Returning) : g'.Returning := by
  intro key inputs construct cache' hnode args
  obtain ⟨cache, hbefore, -⟩ := h.recipe_of hnode
  exact hg key inputs construct cache hbefore args

/-- A graph that has grown has the same locks held. -/
theorem Grown.locked_iff (h : g.Grown g') : g'.Locked key ↔ g.Locked key := by
  constructor
  · rintro ⟨inputs, construct, cache', hnode, hlocked⟩
    obtain ⟨cache, hbefore, hsame, -⟩ := h.recipe_of hnode
    exact ⟨inputs, construct, cache, hbefore, hsame ▸ hlocked⟩
  · rintro ⟨inputs, construct, cache, hnode, hlocked⟩
    obtain ⟨node', hnode', hgrown⟩ := h.node_some hnode
    cases hgrown with
    | recipe _ _ hsame => exact ⟨inputs, construct, _, hnode', hsame.trans hlocked⟩

theorem Grown.awaits (h : g.Grown g') (hawaits : g'.Awaits root key) : g.Awaits root key :=
  ⟨ReflTransGen.mono (fun _ _ => h.later.leads) _ _ hawaits.1,
    hawaits.2.imp h.locked_iff.1 (TransGen.mono (fun _ _ => h.later.leads) _ _)⟩

/-- Beside what was locked before, the key is. -/
theorem locked_lock (h : (g.lock key).Locked k) : g.Locked k ∨ k = key := by
  obtain ⟨inputs, construct, cache, hnode, hlocked⟩ := h
  rw [lock, node?_mapCache] at hnode
  split at hnode
  · next hk => exact .inr hk
  · exact .inl ⟨inputs, construct, cache, hnode, hlocked⟩

/-- Locks that are held stay so when another one is taken. -/
theorem Locked.lock (h : g.Locked k) : (g.lock key).Locked k := by
  obtain ⟨inputs, construct, cache, hnode, hlocked⟩ := h
  unfold Locked
  rw [Graph.lock, node?_mapCache, hnode]
  split
  · exact ⟨inputs, construct, _, rfl, rfl⟩
  · exact ⟨inputs, construct, cache, rfl, hlocked⟩

/-- What is waited for while the key is under construction was locked before, or leads back to
itself, as the key does if it is waited for. -/
theorem Awaits.of_lock (hleads : g.Leads key root) (h : (g.lock key).Awaits root k) :
    g.Awaits key k := by
  obtain ⟨hafter, hend⟩ := h
  have hway : ReflTransGen g.Leads root k :=
    ReflTransGen.mono (fun _ _ => (Later.lock g key).leads) _ _ hafter
  refine ⟨hway.head hleads, ?_⟩
  rcases hend with hlocked | hback
  · rcases locked_lock hlocked with hbefore | hkey
    · exact .inl hbefore
    · rw [hkey] at hway ⊢
      exact .inr (.head' hleads hway)
  · exact .inr (TransGen.mono (fun _ _ => (Later.lock g key).leads) _ _ hback)

/-! ## What is barred -/

theorem Busy.barred (h : g.Busy key) : g.Barred key := by
  have ⟨inputs, construct, cache, hnode, _, hnone⟩ := h
  exact ⟨key, h, ⟨inputs, construct, cache, hnode, hnone⟩, .refl⟩

theorem Barred.item? (h : g.Barred key) : g.item? key = none := by
  obtain ⟨_, -, ⟨inputs, hunbuilt⟩, -⟩ := h
  exact hunbuilt.item?

/-- A component that is barred is under construction, or one of its inputs is barred. -/
theorem Barred.cases (h : g.Barred key) :
    g.Busy key ∨ ∃ inputs, g.Unbuilt key inputs ∧ ∃ p ∈ inputs, g.Barred p.key := by
  obtain ⟨busy, hbusy, -, hway⟩ := h
  rcases hway.cases_head with rfl | ⟨used, ⟨inputs, hunbuilt, ⟨p, hp, rfl⟩, hpending⟩, hrest⟩
  · exact .inl hbusy
  · exact .inr ⟨inputs, hunbuilt, p, hp, busy, hbusy, hpending, hrest⟩

/-- What is barred stays so as long as no lock is given back and nothing of it is made. -/
theorem Barred.of_later (h : g.Barred key) (hlater : g.Later g')
    (hbusy : ∀ k, g.Busy k → g'.Locked k) (hnone : ∀ k, g.Barred k → g'.item? k = none) :
    g'.Barred key := by
  obtain ⟨busy, hfirst, -, hway⟩ := h
  have hbusy' : g'.Busy busy := by
    obtain ⟨inputs, construct, cache, hnode, hlocked⟩ := hbusy busy hfirst
    have hmade := (item?_of_node? hnode).symm.trans (hnone busy hfirst.barred)
    exact ⟨inputs, construct, cache, hnode, hlocked, hmade⟩
  refine ⟨busy, hbusy', ?_⟩
  induction hway using ReflTransGen.head_induction_on with
  | refl =>
    obtain ⟨_, _, hneeds⟩ := hbusy'.barred
    exact ⟨hneeds.1, .refl⟩
  | head huses hrest ih =>
    have ⟨inputs, hunbuilt, hused, _⟩ := huses
    have hbarred : g.Barred _ := ⟨busy, hfirst, ⟨inputs, hunbuilt⟩, hrest.head huses⟩
    exact ih.head ⟨inputs, hlater.unbuilt hunbuilt (hnone _ hbarred), hused, ih.1⟩

/-- Keys stay barred when a lock is taken. -/
theorem Barred.lock (h : g.Barred k) : (g.lock key).Barred k := by
  refine h.of_later (.lock g key) (fun b hbusy => ?_) fun b hbarred => ?_
  · obtain ⟨inputs, construct, cache, hnode, hlocked, -⟩ := hbusy
    exact Locked.lock ⟨inputs, construct, cache, hnode, hlocked⟩
  · rw [Graph.lock, item?_mapCache (f := fun c => { c with locked := true }) fun _ => rfl]
    exact hbarred.item?

end

end Graph

/-! ## Calls -/

namespace Workshop

/-- A call that has returned has left the nodes and the locks as they were, and what was made. It
has made nothing that was barred. -/
structure Returned (w w' : Workshop σ ι) : Prop where
  beside : w'.beside = w.beside
  keys : w'.graph.keys = w.graph.keys
  grown : w.graph.Grown w'.graph
  barred : ∀ key, w.graph.Barred key → w'.graph.item? key = none

/-- A call that makes requests for such components has returned, or it waits for one that they
lead to. -/
structure Ends (w : Workshop σ ι) (roots : Key → Prop) (why : Option Interruption)
    (w' : Workshop σ ι) : Prop where
  returned : why = none → w.Returned w'
  waits : ∀ cause, why = some cause →
    ∃ root key, roots root ∧ cause = .deadlock key ∧ w.graph.Awaits root key

/-- A call for a component that has returned it was not for one that is barred. -/
structure Answers (w : Workshop σ ι) (key : Key)
    (r : Outcome GraphError (Instance ι) × Workshop σ ι) : Prop where
  ends : w.Ends (· = key) r.1.interruption? r.2
  unbarred : ∀ item, r.1 = .ok item → ¬ w.graph.Barred key

/-- A graph all of whose constructors return and make their requests to it, in which some locks are
held. There is room for those of all other keys in the depth to which calls may still be nested. -/
structure Ready (w : Workshop σ ι) (held : List Key) (depth : Nat) : Prop where
  beside : w.beside = none
  returning : w.graph.Returning
  nodup : held.Nodup
  locked : ∀ key ∈ held, w.graph.Locked key
  room : w.graph.size < held.length + depth

variable {w w₁ w₂ : Workshop σ ι} {roots roots' : Key → Prop} {why : Option Interruption}
  {held : List Key} {depth : Nat} {key : Key}

namespace Returned

/-- A call that changes nothing but the surroundings. -/
theorem still (w : Workshop σ ι) (world : σ) : w.Returned { w with world } :=
  ⟨rfl, rfl, .refl _, fun _ hbarred => hbarred.item?⟩

/-- What was barred still is. -/
theorem still_barred (h : w.Returned w₁) (hbarred : w.graph.Barred key) : w₁.graph.Barred key := by
  refine hbarred.of_later h.grown.later (fun k hbusy => ?_) h.barred
  obtain ⟨inputs, construct, cache, hnode, hlocked, -⟩ := hbusy
  exact h.grown.locked_iff.2 ⟨inputs, construct, cache, hnode, hlocked⟩

/-- Calls one after another. -/
theorem trans (h : w.Returned w₁) (h' : w₁.Returned w₂) : w.Returned w₂ where
  beside := h'.beside.trans h.beside
  keys := h'.keys.trans h.keys
  grown := h.grown.trans h'.grown
  barred key hbarred := h'.barred key (h.still_barred hbarred)

theorem ends (h : w.Returned w₁) (h' : w₁.Ends roots why w₂) : w.Ends roots why w₂ where
  returned hwhy := h.trans (h'.returned hwhy)
  waits cause hwhy := by
    obtain ⟨root, key, hroot, rfl, hawaits⟩ := h'.waits cause hwhy
    exact ⟨root, key, hroot, rfl, h.grown.awaits hawaits⟩

/-- The end of a construction: its lock is given back, and the component is stored unless it is
barred. -/
theorem unlock {inputs : Inputs} {construct : Args ι → Program σ ι} {cache : Cache ι}
    (hnode : w.graph.node? key = some (.recipe inputs construct cache))
    (hfree : cache.locked = false) (hnone : cache.made = none)
    (h : Returned { w with graph := w.graph.lock key } w₁) {f : Cache ι → Cache ι}
    (hlocked : ∀ c, (f c).locked = false) (hmark : ∀ c, (f c).poisoned = c.poisoned)
    (hkeeps : w.graph.Barred key → ∀ c, (f c).made = c.made) :
    w.Returned { w₁ with graph := w₁.graph.mapCache key f } where
  beside := h.beside
  keys := (Graph.keys_mapCache ..).trans (h.keys.trans (Graph.keys_mapCache ..))
  grown := .of_lock hnode hfree hnone h.grown hlocked fun c => (hmark c).trans
  barred k hbarred := by
    have hbefore : w₁.graph.item? k = none := h.barred k hbarred.lock
    show (w₁.graph.mapCache key f).item? k = none
    by_cases hk : k = key
    · rw [Graph.item?_mapCache (hkeeps (hk ▸ hbarred)), hbefore]
    · rw [Graph.item?, Graph.node?_mapCache, if_neg hk]
      exact hbefore

end Returned

namespace Ends

theorem mono (h : w.Ends roots why w₁) (hroots : ∀ k, roots k → roots' k) :
    w.Ends roots' why w₁ where
  returned := h.returned
  waits cause hwhy := by
    obtain ⟨root, key, hroot, hcause, hawaits⟩ := h.waits cause hwhy
    exact ⟨root, key, hroots root hroot, hcause, hawaits⟩

theorem back (h : w.Returned w₁) (roots : Key → Prop) : w.Ends roots none w₁ :=
  ⟨fun _ => h, nofun⟩

theorem still (w : Workshop σ ι) (roots : Key → Prop) : w.Ends roots none w :=
  back (.still w w.world) roots

end Ends

namespace Answers

/-- A call that fails has returned no component. -/
theorem failed (h : w.Ends (· = key) none w₁) (e : GraphError) : w.Answers key (.error e, w₁) :=
  ⟨h, nofun⟩

/-- Nor has one that never returns. -/
theorem waiting {awaited : Key} (h : w.graph.Awaits key awaited) (w₁ : Workshop σ ι) :
    w.Answers key (.interrupted (.deadlock awaited), w₁) := by
  refine ⟨⟨nofun, ?_⟩, nofun⟩
  rintro _ ⟨⟩
  exact ⟨key, awaited, rfl, rfl, h⟩

end Answers

namespace Ready

/-- There are no more locks than keys. -/
theorem length_le (h : w.Ready held depth) : held.length ≤ w.graph.size := by
  have hkeys : held ⊆ w.graph.keys := by
    intro key hkey
    obtain ⟨inputs, construct, cache, hnode, -⟩ := h.locked key hkey
    exact Graph.mem_keys_of_node? hnode
  have hle := h.nodup.length_le_of_subset hkeys
  rwa [Graph.keys, List.length_map] at hle

theorem after (h : w.Ready held depth) (h' : w.Returned w₁) : w₁.Ready held depth where
  beside := h'.beside.trans h.beside
  returning := h'.grown.later.returning h.returning
  nodup := h.nodup
  locked key hkey := h'.grown.locked_iff.2 (h.locked key hkey)
  room := by
    rw [Graph.size_eq_keys, h'.keys, ← Graph.size_eq_keys]
    exact h.room

/-- One more lock is taken. -/
theorem lock {inputs : Inputs} {construct : Args ι → Program σ ι} {cache : Cache ι}
    (h : w.Ready held (depth + 1))
    (hnode : w.graph.node? key = some (.recipe inputs construct cache))
    (hfree : cache.locked = false) :
    Ready { w with graph := w.graph.lock key } (key :: held) depth where
  beside := h.beside
  returning := (Graph.Later.lock w.graph key).returning h.returning
  nodup := by
    refine List.nodup_cons.2 ⟨fun hmem => ?_, h.nodup⟩
    obtain ⟨_, _, _, hnode', hlocked⟩ := h.locked key hmem
    cases hnode.symm.trans hnode'
    cases hfree.symm.trans hlocked
  locked := by
    refine List.forall_mem_cons.2 ⟨⟨inputs, construct, { cache with locked := true }, ?_, rfl⟩,
      fun k hk => (h.locked k hk).lock⟩
    show (w.graph.lock key).node? key = _
    rw [Graph.lock, Graph.node?_mapCache, if_pos rfl, hnode]
    rfl
  room := by
    have hroom := h.room
    rw [Graph.size_eq_keys] at hroom ⊢
    show (w.graph.lock key).keys.length < _
    rw [Graph.lock, Graph.keys_mapCache, List.length_cons]
    omega

end Ready

end Workshop

section
variable {w : Workshop σ ι} {held : List Key} {depth : Nat}

/-- A program that returns has returned, or it waits for what one of its requests leads to. -/
theorem Program.Returning.ends {resolve : Resolver σ ι}
    (hresolve : ∀ key (w : Workshop σ ι), w.Ready held depth → w.Answers key (resolve key w))
    {p : Program σ ι} (hp : p.Returning) (h : w.Ready held depth) :
    w.Ends (fun key => p.Asks key) (p.run resolve w).1.interruption? (p.run resolve w).2 := by
  induction hp generalizing w with
  | finish result => cases result <;> exact .still w _
  | read _ ih => exact (ih w.world h).mono fun _ => .read
  | write world _ ih =>
    have hwrite := Workshop.Returned.still w world
    exact (hwrite.ends (ih (h.after hwrite))).mono fun _ => .write world
  | isCached key _ ih => exact (ih _ h).mono fun _ => .isCached key
  | resolve key _ ih =>
    have hfirst := (hresolve key w h).ends
    unfold Program.run Workshop.consult
    rw [h.beside]
    simp only
    generalize resolve key w = r at hfirst
    obtain ⟨outcome, w₁⟩ := r
    cases outcome with
    | ok item =>
      have hreturned := hfirst.returned rfl
      exact (hreturned.ends (ih _ (h.after hreturned))).mono fun _ => .resolve key
    | error e =>
      have hreturned := hfirst.returned rfl
      exact (hreturned.ends (ih _ (h.after hreturned))).mono fun _ => .resolve key
    | interrupted why =>
      refine hfirst.mono ?_
      rintro _ rfl
      exact .now _

/-- Inputs that have been found are not barred. -/
theorem gather_ends (owner : Key)
    {find : Key → Node σ ι → Workshop σ ι → Outcome GraphError (Instance ι) × Workshop σ ι}
    (hfind : ∀ key node (w : Workshop σ ι), w.Ready held depth → w.graph.node? key = some node →
      w.Answers key (find key node w))
    (inputs : Inputs) (h : w.Ready held depth) :
    w.Ends (fun key => ∃ p ∈ inputs, p.key = key) (gather owner find inputs w).1.interruption?
        (gather owner find inputs w).2 ∧
      ∀ entries, (gather owner find inputs w).1 = .ok entries →
        ∀ p ∈ inputs, ¬ w.graph.Barred p.key := by
  induction inputs generalizing w with
  | nil => exact ⟨.still w _, fun _ _ _ hp => absurd hp List.not_mem_nil⟩
  | cons p rest ih =>
    have hlater : ∀ k, (∃ p ∈ rest, p.key = k) → ∃ p' ∈ p :: rest, p'.key = k := by
      rintro _ ⟨p', hp', hk⟩
      exact ⟨p', List.mem_cons_of_mem p hp', hk⟩
    cases hnode : w.graph.node? p.key with
    | none =>
      have hopen : ¬ w.graph.Barred p.key := by
        rintro ⟨_, -, ⟨_, _, _, hsome, -⟩, -⟩
        cases hnode.symm.trans hsome
      cases hoptional : p.optional with
      | false =>
        rw [gather_missing hnode hoptional]
        exact ⟨.still w _, by rintro _ ⟨⟩⟩
      | true =>
        obtain ⟨hends, hrest⟩ := ih h
        rw [gather_absent hnode hoptional, Outcome.interruption?_map]
        refine ⟨hends.mono hlater, fun _ hok => List.forall_mem_cons.2 ⟨hopen, ?_⟩⟩
        obtain ⟨more, hmore, -⟩ := Outcome.map_eq_ok hok
        exact hrest more hmore
    | some node =>
      have hfirst := hfind p.key node w h hnode
      obtain ⟨outcome, w₁, hfound⟩ : ∃ outcome w₁, find p.key node w = (outcome, w₁) := ⟨_, _, rfl⟩
      rw [hfound] at hfirst
      have hhead : ∀ k, k = p.key → ∃ p' ∈ p :: rest, p'.key = k :=
        fun _ hk => ⟨p, List.mem_cons_self, hk.symm⟩
      cases outcome with
      | error e =>
        rw [gather_failed hnode hfound]
        exact ⟨hfirst.ends.mono hhead, by rintro _ ⟨⟩⟩
      | interrupted why =>
        rw [gather_interrupted hnode hfound]
        exact ⟨hfirst.ends.mono hhead, by rintro _ ⟨⟩⟩
      | ok item =>
        have hreturned : w.Returned w₁ := hfirst.ends.returned rfl
        obtain ⟨hends, hrest⟩ := ih (h.after hreturned)
        rw [gather_present hnode hfound, Outcome.interruption?_map]
        refine ⟨(hreturned.ends hends).mono hlater, fun _ hok => ?_⟩
        obtain ⟨more, hmore, -⟩ := Outcome.map_eq_ok hok
        refine List.forall_mem_cons.2 ⟨hfirst.unbarred item rfl, fun p' hp' hbarred => ?_⟩
        exact hrest more hmore p' hp' (hreturned.still_barred hbarred)

/-- A key is resolved as its component is built. -/
theorem resolveWith_answers
    {build : Key → Node σ ι → Workshop σ ι → Outcome GraphError (Instance ι) × Workshop σ ι}
    (hbuild : ∀ key node (w : Workshop σ ι), w.Ready held depth → w.graph.node? key = some node →
      w.Answers key (build key node w))
    (key : Key) (h : w.Ready held depth) : w.Answers key (resolveWith build key w) := by
  unfold resolveWith
  cases hnode : w.graph.node? key with
  | none => exact .failed (.still w _) _
  | some node =>
    simp only
    cases havailable : node.available with
    | some item =>
      refine ⟨.still w _, fun _ _ hbarred => ?_⟩
      have hnone := (Graph.item?_of_node? hnode).symm.trans hbarred.item?
      cases node with
      | value => cases hnone
      | recipe inputs construct cache =>
        have hmade : cache.made = none := hnone
        simp [Node.available, hmade] at havailable
    | none =>
      simp only
      cases w.graph.verify key node with
      | error e => exact .failed (.still w _) _
      | ok => exact hbuild key node w h hnode

end

/-- The construction of a component returns, or waits for one that it leads to, and does not return
what is barred. -/
theorem build_answers (note : Notice → σ → σ) {held : List Key} {depth : Nat} (path : List Key)
    (key : Key) (node : Node σ ι) (w : Workshop σ ι) (h : w.Ready held depth)
    (hnode : w.graph.node? key = some node) :
    w.Answers key (build note depth path key node w) := by
  induction depth generalizing held path key node w with
  | zero => exact absurd h.length_le (Nat.not_le_of_lt h.room)
  | succ depth ih =>
    cases node with
    | value item =>
      refine ⟨.still w _, fun _ _ hbarred => ?_⟩
      cases (Graph.item?_of_node? hnode).symm.trans hbarred.item?
    | recipe inputs construct cache =>
      unfold build
      by_cases hpath : key ∈ path
      · rw [if_pos hpath]
        exact .failed (.still w _) _
      rw [if_neg hpath]
      cases hlocked : cache.locked with
      | true =>
        exact .waiting ⟨.refl, .inl ⟨inputs, construct, cache, hnode, hlocked⟩⟩ w
      | false =>
      cases hmade : cache.made with
      | some item =>
        refine ⟨.still w _, fun _ _ hbarred => ?_⟩
        have hnone : cache.made = none := (Graph.item?_of_node? hnode).symm.trans hbarred.item?
        cases hmade.symm.trans hnone
      | none =>
        simp only [Bool.false_eq_true, if_false]
        have hlock := h.lock hnode hlocked
        have hgather := gather_ends key
          (fun k node w h hnode => ih (path ++ [key]) k node w h hnode) inputs hlock
        generalize gather key (build note depth (path ++ [key])) inputs
          { w with graph := w.graph.lock key } = r at hgather
        obtain ⟨outcome, w₁⟩ := r
        obtain ⟨hgather, hopen⟩ := hgather
        cases outcome with
        | error e =>
          refine .failed (.back ?_ _) e
          exact (hgather.returned rfl).unlock hnode hlocked hmade (fun _ => rfl) (fun _ => rfl)
            fun _ _ => rfl
        | interrupted why =>
          obtain ⟨_, k, ⟨p, hp, rfl⟩, rfl, hawaits⟩ := hgather.waits why rfl
          refine .waiting (hawaits.of_lock ?_) _
          exact ⟨inputs, construct, cache, hnode, hmade, .inl ⟨p, hp, rfl⟩⟩
        | ok entries =>
          have hgathered := hgather.returned rfl
          -- all inputs were found, so that none of them was barred before
          have hfree : ¬ w.graph.Barred key := fun hbarred => by
            rcases hbarred.cases with hbusy | ⟨inputs', hunbuilt, p, hp, hinput⟩
            · exact Workshop.Told.busy_other hnode hlocked hbusy rfl
            · obtain rfl := hunbuilt.unique ⟨construct, cache, hnode, hmade⟩
              exact hopen entries rfl p hp hinput.lock
          have hready := hgathered.trans (.still w₁ (note (.constructing key) w₁.world))
          have hrun := (h.returning key inputs construct cache hnode ⟨key, entries⟩).ends
            (fun k w h => resolveWith_answers (fun k node w h hnode => ih [] k node w h hnode) k h)
            (hlock.after hready)
          simp only
          generalize (construct ⟨key, entries⟩).run (resolveWith (build note depth []))
            { w₁ with world := note (.constructing key) w₁.world } = r at hrun
          obtain ⟨outcome, w₂⟩ := r
          cases outcome with
          | ok value =>
            refine ⟨.back ?_ _, fun _ _ => hfree⟩
            exact (hready.trans (hrun.returned rfl)).unlock hnode hlocked hmade (fun _ => rfl)
              (fun _ => rfl) fun hbarred => absurd hbarred hfree
          | error failure =>
            refine .failed (.back ?_ _) _
            exact (hready.trans (hrun.returned rfl)).unlock hnode hlocked hmade (fun _ => rfl)
              (fun _ => rfl) fun _ _ => rfl
          | interrupted why =>
            obtain ⟨asked, k, hasks, rfl, hawaits⟩ := hrun.waits why rfl
            have hawaits := hready.grown.awaits hawaits
            refine .waiting (hawaits.of_lock ?_) _
            exact ⟨inputs, construct, cache, hnode, hmade, .inr ⟨⟨key, entries⟩, hasks⟩⟩

/-! ## Refusals -/

/-- If the call has failed, a constructor has. -/
def Outcome.Unrefused {α : Type} (outcome : Outcome GraphError α) : Prop :=
  ∀ e, outcome = .error e → ∃ key failure, e = .constructor key failure

namespace Outcome.Unrefused

variable {α β : Type} {e : GraphError}

theorem ok (a : α) : (Outcome.ok a : Outcome GraphError α).Unrefused :=
  nofun

theorem interrupted (why : Interruption) :
    (Outcome.interrupted why : Outcome GraphError α).Unrefused :=
  nofun

theorem failed (key : Key) (failure : Failure) :
    (Outcome.error (.constructor key failure) : Outcome GraphError α).Unrefused := by
  rintro _ ⟨⟩
  exact ⟨key, failure, rfl⟩

/-- The same failure of another call. -/
theorem error (h : (Outcome.error e : Outcome GraphError α).Unrefused) :
    (Outcome.error e : Outcome GraphError β).Unrefused := by
  obtain ⟨key, failure, rfl⟩ := h e rfl
  exact failed key failure

/-- An outcome is no refusal, whatever is made of its value. -/
theorem map {outcome : Outcome GraphError α} (h : outcome.Unrefused) (f : α → β) :
    (outcome.map f).Unrefused := by
  cases outcome with
  | ok a => exact .ok (f a)
  | error e => exact h.error
  | interrupted why => exact .interrupted why

end Outcome.Unrefused

section
variable {g : Graph σ ι} {w : Workshop σ ι} {held : List Key} {depth : Nat}

/-- Finding inputs fails no other way than finding each of them, if those that are required are
there. -/
theorem gather_unrefused {owner : Key}
    {find : Key → Node σ ι → Workshop σ ι → Outcome GraphError (Instance ι) × Workshop σ ι}
    (hfind : ∀ key node (w : Workshop σ ι), w.Ready held depth → w.graph.node? key = some node →
      w.Answers key (find key node w))
    {inputs : Inputs}
    (hunrefused : ∀ p ∈ inputs, ∀ node (w : Workshop σ ι), g.Later w.graph → w.Ready held depth →
      w.graph.node? p.key = some node → (find p.key node w).1.Unrefused)
    (hrequired : ∀ p ∈ inputs, p.optional = false → g.node? p.key ≠ none)
    (hlater : g.Later w.graph) (h : w.Ready held depth) :
    (gather owner find inputs w).1.Unrefused := by
  induction inputs generalizing w with
  | nil => exact .ok []
  | cons p rest ih =>
    obtain ⟨hfirst, hrest⟩ := List.forall_mem_cons.1 hunrefused
    obtain ⟨hneeded, hothers⟩ := List.forall_mem_cons.1 hrequired
    cases hnode : w.graph.node? p.key with
    | none =>
      cases hoptional : p.optional with
      | false => exact absurd ((hlater.none _).1 hnode) (hneeded hoptional)
      | true =>
        rw [gather_absent hnode hoptional]
        exact (ih hrest hothers hlater h).map _
    | some node =>
      have hfound := hfirst node w hlater h hnode
      have hanswer := hfind p.key node w h hnode
      obtain ⟨outcome, w₁, hfind⟩ : ∃ outcome w₁, find p.key node w = (outcome, w₁) := ⟨_, _, rfl⟩
      rw [hfind] at hfound hanswer
      cases outcome with
      | error e =>
        rw [gather_failed hnode hfind]
        exact hfound.error
      | interrupted why =>
        rw [gather_interrupted hnode hfind]
        exact .interrupted why
      | ok item =>
        have hreturned : w.Returned w₁ := hanswer.ends.returned rfl
        rw [gather_present hnode hfind]
        exact (ih hrest hothers (hlater.trans hreturned.grown.later) (h.after hreturned)).map _

/-- What is there already is handed out, unless it is locked. -/
theorem build_unrefused_of_made (note : Notice → σ → σ) (depth : Nat) {path : List Key}
    {key : Key} {inputs : Inputs} {construct : Args ι → Program σ ι} {cache : Cache ι}
    {item : Instance ι} (hoff : key ∉ path) (hmade : cache.made = some item) :
    (build note depth path key (.recipe inputs construct cache) w).1.Unrefused := by
  cases depth with
  | zero => exact .interrupted .tooDeep
  | succ depth =>
    unfold build
    rw [if_neg hoff, hmade]
    split
    · exact .interrupted (.deadlock key)
    · exact .ok item

/-- The construction of one of the components in order meets no missing and no circular input. -/
theorem build_unrefused (note : Notice → σ → σ) {done : List Key} (hdone : g.Ordered done)
    {path : List Key} {key : Key} {node : Node σ ι} (hkey : key ∈ done)
    (hpath : ∀ a ∈ path, g.Pending a ∧ a ∉ done) (hlater : g.Later w.graph)
    (h : w.Ready held depth) (hnode : w.graph.node? key = some node) :
    (build note depth path key node w).1.Unrefused := by
  induction hdone generalizing depth path key node w held with
  | nil => cases hkey
  | @snoc done last inputs hdone hnew hunbuilt hrequired hused ih =>
    have hbelow : ∀ a ∈ path, g.Pending a ∧ a ∉ done := fun a ha =>
      (hpath a ha).imp_right fun hoff hmem => hoff (List.mem_append_left _ hmem)
    rcases List.mem_append.1 hkey with hbefore | hlast
    · exact ih hbefore hbelow hlater h hnode
    obtain rfl := List.mem_singleton.1 hlast
    have hoff : key ∉ path := fun hmem => (hpath key hmem).2 hkey
    have ⟨construct, _, hnode₀, _⟩ := hunbuilt
    obtain ⟨cache, hnode', -⟩ := hlater.recipe _ _ _ _ hnode₀
    cases hnode.symm.trans hnode'
    cases hmade : cache.made with
    | some item => exact build_unrefused_of_made note depth hoff hmade
    | none =>
    cases depth with
    | zero => exact absurd h.length_le (Nat.not_le_of_lt h.room)
    | succ depth =>
    unfold build
    rw [if_neg hoff]
    cases hlocked : cache.locked with
    | true => exact .interrupted (.deadlock key)
    | false =>
    have hlater' : g.Later (w.graph.lock key) := hlater.trans (.lock w.graph key)
    have hpath' : ∀ a ∈ path ++ [key], g.Pending a ∧ a ∉ done := by
      intro a ha
      rcases List.mem_append.1 ha with ha | ha
      · exact hbelow a ha
      · rw [List.mem_singleton.1 ha]
        exact ⟨⟨inputs, hunbuilt⟩, hnew⟩
    have hgather : (gather key (build note depth (path ++ [key])) inputs
        { w with graph := w.graph.lock key }).1.Unrefused := by
      refine gather_unrefused (build_answers note (path ++ [key]))
        (fun p hp node w hlater h hnode => ?_) hrequired hlater' (h.lock hnode' hlocked)
      by_cases hpending : g.Pending p.key
      · exact ih (hused p hp hpending) hpath' hlater h hnode
      -- an input that is not to be made is there already, and is not on the path
      have hoff' : p.key ∉ path ++ [key] := fun hmem => hpending (hpath' _ hmem).1
      cases hinput : g.node? p.key with
      | none => cases hnode.symm.trans ((hlater.none _).2 hinput)
      | some node₀ =>
        cases node₀ with
        | value item =>
          cases hnode.symm.trans (hlater.value _ _ hinput)
          rw [build_value]
          exact .ok item
        | recipe inputs' construct' cache' =>
          cases hmade' : cache'.made with
          | none => exact absurd ⟨inputs', construct', cache', hinput, hmade'⟩ hpending
          | some item =>
            obtain ⟨cache'', hnode'', hkeeps⟩ := hlater.recipe _ _ _ _ hinput
            cases hnode.symm.trans hnode''
            exact build_unrefused_of_made note depth hoff' (hkeeps item hmade')
    simp only [hmade, Bool.false_eq_true, if_false]
    generalize gather key (build note depth (path ++ [key])) inputs
      { w with graph := w.graph.lock key } = r at hgather
    obtain ⟨outcome, w₁⟩ := r
    cases outcome with
    | error e => exact hgather.error
    | interrupted why => exact .interrupted why
    | ok entries =>
      simp only
      generalize (construct ⟨key, entries⟩).run (resolveWith (build note depth []))
        { w₁ with world := note (.constructing key) w₁.world } = r
      obtain ⟨outcome, w₂⟩ := r
      cases outcome with
      | ok value => exact .ok _
      | error failure => exact .failed key failure
      | interrupted why => exact .interrupted why

end

/-! ## Resolution -/

/-- What the check trusts is there. -/
theorem Graph.later_trusted (g : Graph σ ι) : g.trusted.Later g where
  none key := by rw [node?_trusted, Option.map_eq_none_iff]
  value key item hnode := by
    rw [node?_trusted] at hnode
    obtain ⟨node, hbefore, hnode⟩ := Option.map_eq_some_iff.1 hnode
    cases node with
    | value => exact hbefore.trans (congrArg some hnode)
    | recipe => cases hnode
  recipe key inputs construct cache hnode := by
    rw [node?_trusted] at hnode
    obtain ⟨node, hbefore, hnode⟩ := Option.map_eq_some_iff.1 hnode
    cases node with
    | value => cases hnode
    | recipe _ _ cache' =>
      cases hnode
      refine ⟨cache', hbefore, fun item hitem => ?_⟩
      split at hitem
      · exact hitem
      · cases hitem

/-- The check refuses what is unsound in the graph without what it does not trust. -/
theorem Graph.verify_ok_iff_trusted {g : Graph σ ι} {key : Key} {node : Node σ ι}
    (hnode : g.node? key = some node) :
    g.verify key node = .ok () ↔ ¬ g.trusted.Unsound key := by
  have htrusted := node?_trusted_of hnode
  rw [← verify_trusted, verify_ok_iff g.trusted_calm htrusted, Unsound, htrusted]
  simp

/-- What the check lets through is the last of components in order, unless it is there already. -/
theorem Graph.ordered_of_verify_trusted {g : Graph σ ι} {key : Key} {node : Node σ ι}
    (hnode : g.node? key = some node) (havailable : node.available = none)
    (h : g.verify key node = .ok ()) : ∃ done, g.trusted.Ordered done ∧ key ∈ done := by
  have htrusted := node?_trusted_of hnode
  rw [← verify_trusted] at h
  refine ordered_of_verify g.trusted_calm htrusted h ?_
  refine (g.trusted_calm.isCached_eq_false_iff htrusted).1 ?_
  rw [node.isCached_trusted]
  cases node with
  | value => cases havailable
  | recipe inputs construct cache =>
    simp only [Node.available] at havailable
    split at havailable
    · next hlocked => simp [Node.isCached, hlocked]
    · simp [Node.isCached, havailable]

/-- A call to resolve a key, which may come from a constructor that runs: then the locks of the
components under construction around it are held. If it does not return, it waits for a component
that it leads to, through declared inputs and through what constructors may ask for, and that one
was locked when the call was made, or leads back to itself. If it returns, it does not return what
is under construction or leads to it through declared inputs. It fails because a constructor fails,
or because the check refuses the key, for its declared inputs and before anything happens. The check
knows nothing of the locks: it refuses exactly what is unsound in a graph without what it does not
trust. -/
theorem resolution_ends (note : Notice → σ → σ) {w : Workshop σ ι} {held : List Key} {depth : Nat}
    (h : w.Ready held depth) (key : Key) :
    (∀ why, (resolveWithin note depth key w).1 = .interrupted why →
      ∃ k, why = .deadlock k ∧ w.graph.Awaits key k) ∧
    (w.graph.Barred key → ∀ item, (resolveWithin note depth key w).1 ≠ .ok item) ∧
    (∀ e, (resolveWithin note depth key w).1 = .error e →
      (∃ k failure, e = .constructor k failure) ∨
        e.ofCheck = true ∧ w.graph.trusted.Unsound key ∧ (resolveWithin note depth key w).2 = w) ∧
    (w.graph.trusted.Unsound key →
      (∀ node, w.graph.node? key = some node → node.available = none) →
        ∃ e, resolveWithin note depth key w = (.error e, w) ∧ e.ofCheck = true) := by
  have hanswers : w.Answers key (resolveWithin note depth key w) :=
    resolveWith_answers (build_answers note []) key h
  refine ⟨fun why hwhy => ?waits, fun hbarred item hitem => ?barred, ?failed, ?refused⟩
  case waits =>
    obtain ⟨_, k, rfl, hcause, hawaits⟩ := hanswers.ends.waits why (by rw [hwhy]; rfl)
    exact ⟨k, hcause, hawaits⟩
  case barred => exact hanswers.unbarred item hitem hbarred
  case failed =>
    unfold resolveWithin resolveWith
    cases hnode : w.graph.node? key with
    | none =>
      rintro _ ⟨⟩
      exact .inr ⟨rfl, .inl ((w.graph.later_trusted.none key).1 hnode), rfl⟩
    | some node =>
      simp only
      cases havailable : node.available with
      | some item => rintro _ ⟨⟩
      | none =>
        simp only
        cases hverify : w.graph.verify key node with
        | error e =>
          rintro _ ⟨⟩
          refine .inr ⟨Graph.verify_ofCheck hnode hverify, ?_, rfl⟩
          refine Classical.byContradiction fun hsound => ?_
          cases hverify.symm.trans ((Graph.verify_ok_iff_trusted hnode).2 hsound)
        | ok =>
          obtain ⟨done, hdone, hmem⟩ :=
            Graph.ordered_of_verify_trusted hnode havailable hverify
          exact fun e herror => .inl (build_unrefused note hdone hmem
            (fun _ ha => absurd ha List.not_mem_nil) w.graph.later_trusted h hnode e herror)
  case refused =>
    intro hunsound hkey
    unfold resolveWithin resolveWith
    cases hnode : w.graph.node? key with
    | none => exact ⟨_, rfl, rfl⟩
    | some node =>
      simp only [hkey node hnode]
      cases hverify : w.graph.verify key node with
      | error e => exact ⟨e, rfl, Graph.verify_ofCheck hnode hverify⟩
      | ok => exact absurd hunsound ((Graph.verify_ok_iff_trusted hnode).1 hverify)

/-- The constructor of a server, which asks for its monitor and says what has come of it. -/
def askMonitor : Program Nat Nat :=
  .resolve (.of ⟨"Monitor"⟩) fun
    | .ok _ => .finish (.ok 0)
    | .error (.circularDependency _) => .finish (.ok 1)
    | .error _ => .finish (.ok 2)

/-- A server that asks for its monitor while it is constructed, and the monitor, which declares a
disk and the server. -/
def monitoredServer (disk : Except Failure Nat) : Workshop Nat Nat :=
  ⟨⟨[(.of ⟨"Server"⟩, .ofRecipe [] fun _ => askMonitor),
    (.of ⟨"Disk"⟩, .ofRecipe [] fun _ => .finish disk),
    (.of ⟨"Monitor"⟩, .ofRecipe [.of "disk" ⟨"Disk"⟩, .of "server" ⟨"Server"⟩]
      fun _ => .finish (.ok 0))]⟩, none, 0⟩

/-- The lock of the server is held. -/
def monitoredServerBusy : Workshop Nat Nat :=
  { monitoredServer (.ok 0) with graph := (monitoredServer (.ok 0)).graph.lock (.of ⟨"Server"⟩) }

/-- The server of the example is ready for what is said of it. -/
theorem monitoredServer_ready (disk : Except Failure Nat) : (monitoredServer disk).Ready [] 4 where
  beside := rfl
  returning := by
    intro key inputs construct cache hnode args
    obtain ⟨before, after, hentries, -⟩ := List.lookup_eq_some_iff.1 hnode
    have hmem : (key, .recipe inputs construct cache) ∈ (monitoredServer disk).graph.entries := by
      rw [hentries]
      exact List.mem_append_right _ List.mem_cons_self
    have hask : askMonitor.Returning := .resolve _ fun answer => by
      cases answer with
      | ok => exact .finish _
      | error e => cases e <;> exact .finish _
    simp only [monitoredServer, List.mem_cons, List.not_mem_nil, or_false, Prod.mk.injEq,
      Node.ofRecipe, Node.recipe.injEq] at hmem
    rcases hmem with ⟨-, -, rfl, -⟩ | ⟨-, -, rfl, -⟩ | ⟨-, -, rfl, -⟩
    · exact hask
    · exact .finish _
    · exact .finish _
  nodup := List.nodup_nil
  locked := nofun
  room := Nat.lt_succ_self 3

/-- The server leads back to itself by way of what its constructor asks for, and waits for itself;
and while it is constructed, the monitor is not handed out. -/
theorem monitoredServer_waits :
    (monitoredServer (.ok 0)).graph.Awaits (.of ⟨"Server"⟩) (.of ⟨"Server"⟩) ∧
      ∀ item, (resolveWithin (fun _ count => count + 1) 3 (.of ⟨"Monitor"⟩)
        monitoredServerBusy).1 ≠ .ok item := by
  have hready := monitoredServer_ready (.ok 0)
  constructor
  · obtain ⟨hwaits, -⟩ := resolution_ends (fun _ count => count + 1) hready (.of ⟨"Server"⟩)
    obtain ⟨_, hcause, hawaits⟩ := hwaits (.deadlock (.of ⟨"Server"⟩)) rfl
    cases hcause
    exact hawaits
  · have hbusy : monitoredServerBusy.graph.Busy (.of ⟨"Server"⟩) := ⟨_, _, _, rfl, rfl, rfl⟩
    have hmonitor : monitoredServerBusy.graph.Unbuilt (.of ⟨"Monitor"⟩)
        [.of "disk" ⟨"Disk"⟩, .of "server" ⟨"Server"⟩] := ⟨_, _, rfl, rfl⟩
    have huses : monitoredServerBusy.graph.Uses (.of ⟨"Monitor"⟩) (.of ⟨"Server"⟩) :=
      ⟨_, hmonitor, ⟨_, List.mem_cons_of_mem _ List.mem_cons_self, rfl⟩, ⟨_, _, _, rfl, rfl⟩⟩
    have hbarred : monitoredServerBusy.graph.Barred (.of ⟨"Monitor"⟩) :=
      ⟨_, hbusy, ⟨_, hmonitor⟩, .single huses⟩
    obtain ⟨-, hkept, -⟩ := resolution_ends (fun _ count => count + 1)
      (w := monitoredServerBusy) (hready.lock rfl rfl) (.of ⟨"Monitor"⟩)
    exact hkept hbarred

/-- The monitor that leads back to the server is not refused as circular when the server asks for
it: the server waits for its own lock, or, with a disk that fails, is told that the disk has failed.
-/
theorem monitoredServer_unreported :
    (resolveWithin (fun _ count => count + 1) 4 (.of ⟨"Server"⟩) (monitoredServer (.ok 0))).1 =
        .interrupted (.deadlock (.of ⟨"Server"⟩)) ∧
      (resolveWithin (fun _ count => count + 1) 4 (.of ⟨"Server"⟩)
        (monitoredServer (.error ⟨"no disk", []⟩))).1 = .ok ⟨⟨"Server"⟩, 2⟩ :=
  ⟨rfl, rfl⟩

end ServiceHost
