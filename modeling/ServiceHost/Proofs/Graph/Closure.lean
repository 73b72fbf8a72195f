import ServiceHost.Proofs.Graph.Agreement

/-!
# The closure of a key

The closure of a key holds the key and whatever can be reached from it by following the inputs that
constructors declare (`Graph.closure`). If the constructors of the closure make no requests for
other keys, resolving the key depends on nothing else and touches nothing else: in every graph that
has the same nodes there, it comes to the same result and leaves the same nodes behind, whatever
else is registered, in whatever order, and however broken that is (`resolution_within_closure`). A
constructor that asks for a key that it has not declared may be answered differently in another
graph (`nosyServer_depends`).
-/

namespace ServiceHost

open Relation

variable {σ ι : Type}

namespace Graph

/-- The key and what can be reached from it through declared inputs. -/
def closure (g : Graph σ ι) (key : Key) : Set Key :=
  {k | ReflTransGen g.Declares key k}

/-- The constructors of the closure make no requests for keys outside of it. -/
def SelfContained (g : Graph σ ι) (key : Key) : Prop :=
  ∀ k ∈ g.closure key, ∀ inputs construct cache,
    g.node? k = some (.recipe inputs construct cache) →
      ∀ args, (construct args).Within (g.closure key)

section
variable {g : Graph σ ι} {key k used : Key} {inputs : Inputs} {construct : Args ι → Program σ ι}
  {cache : Cache ι}

theorem mem_closure_self (g : Graph σ ι) (key : Key) : key ∈ g.closure key :=
  .refl

/-- The inputs of a constructor of the closure are in it. -/
theorem mem_closure_of_input (hk : k ∈ g.closure key)
    (hnode : g.node? k = some (.recipe inputs construct cache)) {p : Param} (hp : p ∈ inputs) :
    p.key ∈ g.closure key :=
  .tail hk ⟨inputs, construct, registered?_of_recipe hnode, p, hp, rfl⟩

/-- The closure is the least set that holds the key and the inputs that its constructors declare. -/
theorem closure_subset {S : Set Key} (hkey : key ∈ S)
    (hinputs : ∀ k ∈ S, ∀ inputs construct cache,
      g.node? k = some (.recipe inputs construct cache) → ∀ p ∈ inputs, p.key ∈ S) :
    g.closure key ⊆ S := by
  intro k hk
  induction hk with
  | refl => exact hkey
  | tail _ hdeclares ih =>
    obtain ⟨inputs, construct, hrecipe, p, hp, rfl⟩ := hdeclares
    obtain ⟨cache, hnode⟩ := node?_of_recipe hrecipe
    exact hinputs _ ih inputs construct cache hnode p hp

/-- A key depends on finitely many others, for only registered keys depend on any. -/
theorem closure_finite (g : Graph σ ι) (key : Key) : (g.closure key).Finite := by
  let declared := g.entries.flatMap fun e => e.2.inputs.map Param.key
  refine (List.finite_toSet (key :: declared)).subset (closure_subset List.mem_cons_self ?_)
  intro k _ inputs construct cache hnode p hp
  obtain ⟨before, after, hentries, -⟩ := List.lookup_eq_some_iff.1 hnode
  have hentry : (k, .recipe inputs construct cache) ∈ g.entries := by
    rw [hentries]
    exact List.mem_append_right _ List.mem_cons_self
  exact List.mem_cons_of_mem _
    (List.mem_flatMap.2 ⟨_, hentry, List.mem_map.2 ⟨p, hp, rfl⟩⟩)

/-- The closure of a key with such constructors is closed. -/
theorem SelfContained.closed (h : g.SelfContained key) : g.Closed (g.closure key) := by
  intro k hk node hnode
  cases node with
  | value item => exact .value item
  | recipe inputs construct cache =>
    exact .recipe (fun p hp => mem_closure_of_input hk hnode hp)
      (h k hk inputs construct cache hnode) cache

/-- There is room for all keys of the closure. -/
theorem SelfContained.room (h : g.SelfContained key) {g' : Graph σ ι}
    (hsame : ∀ k ∈ g.closure key, g'.node? k = g.node? k) (world : σ) {depth depth' : Nat}
    (hdepth : (g.closure key).ncard < depth) (hdepth' : (g.closure key).ncard < depth') :
    Workshop.Room (g.closure key) ⟨g, none, world⟩ ⟨g', none, world⟩ [] depth depth' where
  beside := rfl
  beside' := rfl
  world := rfl
  closed := h.closed
  node := hsame
  finite := g.closure_finite key
  nodup := List.nodup_nil
  busy := nofun
  room := by simpa using hdepth
  room' := by simpa using hdepth'

end

end Graph

/-- What resolving a key comes to, which constructors it calls with which arguments, and what it
makes of the closure of the key depend on this closure alone, and nothing else is touched. -/
theorem resolution_within_closure (note : Notice → σ → σ) (world : σ) {g g' : Graph σ ι} {key : Key}
    {depth depth' : Nat} (hsame : ∀ k ∈ g.closure key, g'.node? k = g.node? k)
    (hcontained : g.SelfContained key) (hdepth : (g.closure key).ncard < depth)
    (hdepth' : (g.closure key).ncard < depth') :
    let w : Workshop σ ι := ⟨g, none, world⟩
    let w' : Workshop σ ι := ⟨g', none, world⟩
    let r := resolveWithin note depth key w
    let r' := resolveWithin note depth' key w'
    let called := calls (resolveWithinDeeds note depth key w)
    let called' := calls (resolveWithinDeeds note depth' key w')
    (r'.1 = r.1 ∧ r.1 ≠ .interrupted .tooDeep) ∧
      (called' = called ∧ ∀ call ∈ called, call.1 ∈ g.closure key) ∧
      (r'.2.world = r.2.world ∧ ∀ k ∈ g.closure key, r'.2.graph.node? k = r.2.graph.node? k) ∧
      ∀ k ∉ g.closure key, r.2.graph.node? k = g.node? k ∧ r'.2.graph.node? k = g'.node? k := by
  intro w w' r r' called called'
  obtain ⟨houtcome, hpassage, hdeep⟩ := resolveWithin_agree note (g.mem_closure_self key)
    (hcontained.room hsame world hdepth hdepth')
  refine ⟨⟨houtcome, fun hinterrupted => hdeep ?_⟩, ⟨hpassage.calls, hpassage.within⟩,
    ⟨hpassage.agree.world, hpassage.agree.node⟩,
    fun k hk => ⟨hpassage.apart k hk, hpassage.apart' k hk⟩⟩
  exact congrArg Outcome.interruption? hinterrupted

/-! ## An example -/

/-- The constructor of a server, which asks for a clock and tells the time. -/
def tellTime : Program Nat Nat :=
  .resolve (.of ⟨"Clock"⟩) fun
    | .ok item => .finish (.ok item.value)
    | .error e => .finish (.error e.toFailure)

/-- The constructor of a clock, on which it is noon. -/
def noon : Args Nat → Program Nat Nat :=
  fun _ => .finish (.ok 12)

/-- A server over a pool that brings its own clock unless there is one, before whatever else. -/
def timedServer (others : List (Key × Node Nat Nat)) : Graph Nat Nat :=
  ⟨(.of ⟨"Server"⟩, .ofRecipe [.of "pool" ⟨"Pool"⟩, (Param.of "clock" ⟨"Clock"⟩).asOptional]
      fun _ => .provide (.of ⟨"Clock"⟩) [] noon fun _ => tellTime) ::
    (.of ⟨"Pool"⟩, .ofRecipe [] noon) :: others⟩

/-- Two components that need each other, and one that needs what is not there. -/
def wreckage : List (Key × Node Nat Nat) :=
  [ (.of ⟨"Alpha"⟩, .ofRecipe [.of "beta" ⟨"Beta"⟩] noon),
    (.of ⟨"Beta"⟩, .ofRecipe [.of "alpha" ⟨"Alpha"⟩] noon),
    (.of ⟨"Report"⟩, .ofRecipe [.of "printer" ⟨"Printer"⟩] noon) ]

/-- The server depends on itself, the pool and the clock. -/
theorem timedServer_closure {k : Key} (hk : k ∈ (timedServer []).closure (.of ⟨"Server"⟩)) :
    k = .of ⟨"Server"⟩ ∨ k = .of ⟨"Pool"⟩ ∨ k = .of ⟨"Clock"⟩ := by
  refine Graph.closure_subset (S := fun k => k = _ ∨ k = _ ∨ k = _) (.inl rfl) ?_ hk
  rintro k (rfl | rfl | rfl) inputs construct cache hnode p hp
  · cases hnode
    rcases List.mem_pair.1 hp with rfl | rfl
    · exact .inr (.inl rfl)
    · exact .inr (.inr rfl)
  · cases hnode
    cases hp
  · cases hnode

theorem timedServer_clock : Key.of ⟨"Clock"⟩ ∈ (timedServer []).closure (.of ⟨"Server"⟩) :=
  Graph.mem_closure_of_input (p := (Param.of "clock" ⟨"Clock"⟩).asOptional)
    (Graph.mem_closure_self _ _) rfl (List.mem_cons_of_mem _ List.mem_cons_self)

/-- Nobody the server depends on asks for anything that is not declared. -/
theorem timedServer_selfContained : (timedServer []).SelfContained (.of ⟨"Server"⟩) := by
  intro k hk inputs construct cache hnode args
  have hnoon (args : Args Nat) : (noon args).Within ((timedServer []).closure (.of ⟨"Server"⟩)) :=
    .finish _
  rcases timedServer_closure hk with rfl | rfl | rfl
  · cases hnode
    refine .provide timedServer_clock (fun _ hp => absurd hp List.not_mem_nil) hnoon fun _ => ?_
    refine .resolve timedServer_clock fun answer => ?_
    cases answer <;> exact .finish _
  · cases hnode
    exact hnoon args
  · cases hnode

/-- The server is made as well among the wreckage, which it leaves as it is. -/
theorem timedServer_unimpressed :
    let note : Notice → Nat → Nat := fun _ calls => calls + 1
    let r := resolveWithin note 4 (.of ⟨"Server"⟩) ⟨timedServer [], none, 0⟩
    let r' := resolveWithin note 4 (.of ⟨"Server"⟩) ⟨timedServer wreckage, none, 0⟩
    r.1 = .ok ⟨⟨"Server"⟩, 12⟩ ∧ r'.1 = r.1 ∧
      r'.2.graph.node? (.of ⟨"Clock"⟩) = r.2.graph.node? (.of ⟨"Clock"⟩) ∧
      r'.2.graph.node? (.of ⟨"Alpha"⟩) = (timedServer wreckage).node? (.of ⟨"Alpha"⟩) := by
  intro note r r'
  have hsame : ∀ k ∈ (timedServer []).closure (.of ⟨"Server"⟩),
      (timedServer wreckage).node? k = (timedServer []).node? k := by
    intro k hk
    rcases timedServer_closure hk with rfl | rfl | rfl <;> rfl
  have hdepth : ((timedServer []).closure (.of ⟨"Server"⟩)).ncard < 4 := by
    let keys : Finset Key := {.of ⟨"Server"⟩, .of ⟨"Pool"⟩, .of ⟨"Clock"⟩}
    have hkeys : (timedServer []).closure (.of ⟨"Server"⟩) ⊆ keys := fun k hk => by
      simpa [keys] using timedServer_closure hk
    have hle := Set.ncard_le_ncard hkeys (Finset.finite_toSet keys)
    rw [Set.ncard_coe_finset] at hle
    exact Nat.lt_succ_of_le (hle.trans (by decide))
  have halpha : Key.of ⟨"Alpha"⟩ ∉ (timedServer []).closure (.of ⟨"Server"⟩) := fun h =>
    absurd (timedServer_closure h) (by decide)
  obtain ⟨⟨houtcome, -⟩, -, ⟨-, hnode⟩, hapart⟩ :=
    resolution_within_closure note 0 hsame timedServer_selfContained hdepth hdepth
  exact ⟨rfl, houtcome, hnode _ timedServer_clock, (hapart _ halpha).2⟩

/-- A server that declares no inputs, and asks for a clock all the same. -/
def nosyServer (others : List (Key × Node Nat Nat)) : Workshop Nat Nat :=
  ⟨⟨(.of ⟨"Server"⟩, .ofRecipe [] fun _ => tellTime) :: others⟩, none, 0⟩

/-- Two graphs are alike on the closure of the server, which holds nothing else. There is a clock in
the second one only: the server is made, and so is the clock, and in the first one it fails. -/
theorem nosyServer_depends :
    let note : Notice → Nat → Nat := fun _ calls => calls + 1
    let server : Key := .of ⟨"Server"⟩
    let clock : Key := .of ⟨"Clock"⟩
    let w := nosyServer []
    let w' := nosyServer [(clock, .ofRecipe [] noon)]
    (∀ k ∈ w.graph.closure server, w'.graph.node? k = w.graph.node? k) ∧
      clock ∉ w.graph.closure server ∧
      (w.resolve note server).1 =
        .error (.constructor server ⟨"type Clock is not registered", []⟩) ∧
      (w'.resolve note server).1 = .ok ⟨⟨"Server"⟩, 12⟩ ∧
      w'.graph.isCached clock = false ∧
      (w'.resolve note server).2.graph.isCached clock = true := by
  intro note server clock w w'
  have hclosure : w.graph.closure server ⊆ {server} := by
    refine Graph.closure_subset rfl ?_
    rintro _ rfl _ _ _ ⟨⟩ p hp
    cases hp
  refine ⟨fun k hk => ?_, fun hclock => ?_, rfl, rfl, rfl, rfl⟩
  · rw [hclosure hk]
    rfl
  · exact absurd (Set.mem_singleton_iff.1 (hclosure hclock)) (by decide)

end ServiceHost
