import ServiceHost.Proofs.Graph.History

/-!
# What happens at a graph at work

Requests to a graph are answered by calling constructors, whose requests are answered in their turn.
All that happens on the way (`Happening`) is the trace of a call. It is told along with the call, by
functions that go the way of `build`, `gather` and `Program.run` and take what is found on the way
from these (`buildTrace`, `gatherTrace`, `Program.trace`). They are given what is told of each thing
that happens, and that is all they differ in: whatever is told of a call is told of the things in
its one trace, in their order (`buildTrace_eq`). Requests that a constructor makes to another graph
beside are nothing that happens at the graph at work.

What can happen while components are made is said once (`Happening.Sound`, `buildTrace_sound`): a
constructor is called with what was found for the inputs that were declared with it, and what it
returns has the type of its key.
-/

namespace ServiceHost

variable {σ ι τ : Type}

/-- The resolved inputs of one call. -/
abbrev Entries (ι : Type) : Type :=
  List (Param × Option (Instance ι))

/-- What is called with the inputs that were found. -/
inductive Callee where
  | constructorOf (key : Key)
  | function (name : String)

/-- The owner of the arguments. -/
def Callee.owner : Callee → Key
  | constructorOf key => key
  | function name => invocationKey name

/-- The inputs that are found for a call, and the graph at work before the first of them is. -/
structure Gathering (σ ι : Type) where
  callee : Callee
  inputs : Inputs
  find : Key → Node σ ι → Workshop σ ι → Outcome GraphError (Instance ι) × Workshop σ ι
  start : Workshop σ ι

/-- How it ends. -/
def Gathering.result (G : Gathering σ ι) : Outcome GraphError (Entries ι) :=
  (gather G.callee.owner G.find G.inputs G.start).1

/-- What can happen at a graph at work. -/
inductive Happening (σ ι : Type) where
  /-- A node is to be registered under the key. -/
  | registering (key : Key) (node : Node σ ι) (w : Workshop σ ι)
  /-- The key is checked before its component is built, as the graph is then. -/
  | checked (key : Key) (graph : Graph σ ι)
  /-- A constructor or a function is called with what was found for its inputs. -/
  | called (gathering : Gathering σ ι) (entries : Entries ι)
  /-- The constructor of the key has returned. -/
  | made (key : Key) (item : Instance ι)
  /-- The key was resolved. -/
  | resolved (key : Key) (item : Instance ι)

/-! ## Traces -/

/-- What is told of the graph at work when a constructor makes a request. -/
def Workshop.own (w : Workshop σ ι) (told : List τ) : List τ :=
  match w.beside with
  | none => told
  | some _ => []

/-- What is told while a constructor runs, and of each key that it resolves, by `told`. -/
def Program.trace (tell : Happening σ ι → List τ) (resolve : Resolver σ ι)
    (told : Key → Workshop σ ι → List τ) : Program σ ι → Workshop σ ι → List τ
  | .finish _, _ => []
  | .panic _, _ => []
  | .read next, w => (next w.world).trace tell resolve told w
  | .write world next, w => next.trace tell resolve told { w with world }
  | .isCached key next, w => (next (w.consulted.isCached key)).trace tell resolve told w
  | .resolve key next, w =>
    match w.consult (resolve key) with
    | (.ok item, w') =>
      w.own (told key w ++ tell (.resolved key item)) ++
        (next (.ok item)).trace tell resolve told w'
    | (.error e, w') => w.own (told key w) ++ (next (.error e)).trace tell resolve told w'
    | (.interrupted _, _) => w.own (told key w)
  | .supply key value next, w =>
    let (result, w') := w.consult fun w => w.register key (.ofValue key value)
    w.own (tell (.registering key (.ofValue key value) w)) ++
      (next result).trace tell resolve told w'
  | .provide key inputs construct next, w =>
    let (result, w') := w.consult fun w => w.register key (.ofRecipe inputs construct)
    w.own (tell (.registering key (.ofRecipe inputs construct) w)) ++
      (next result).trace tell resolve told w'

/-- What is told while the components of inputs are found. -/
def gatherTrace
    (find : Key → Node σ ι → Workshop σ ι → Outcome GraphError (Instance ι) × Workshop σ ι)
    (told : Key → Node σ ι → Workshop σ ι → List τ) : Inputs → Workshop σ ι → List τ
  | [], _ => []
  | p :: rest, w =>
    match w.graph.node? p.key with
    | some node =>
      match find p.key node w with
      | (.ok _, w') => told p.key node w ++ gatherTrace find told rest w'
      | _ => told p.key node w
    | none => if p.optional then gatherTrace find told rest w else []

/-- What is told while a key is resolved, and of the construction by `told`. -/
def resolveTrace (tell : Happening σ ι → List τ)
    (told : Key → Node σ ι → Workshop σ ι → List τ) (key : Key) (w : Workshop σ ι) : List τ :=
  match w.graph.node? key with
  | none => []
  | some node =>
    match node.available with
    | some _ => []
    | none =>
      tell (.checked key w.graph) ++
        match w.graph.verify key node with
        | .error _ => []
        | .ok () => told key node w

/-- What is told while the component of a node is built. -/
def buildTrace (tell : Happening σ ι → List τ) (note : Notice → σ → σ) :
    Nat → List Key → Key → Node σ ι → Workshop σ ι → List τ
  | _, _, _, .value _, _ => []
  | 0, _, _, .recipe _ _ _, _ => []
  | depth + 1, path, key, .recipe inputs construct cache, w =>
    if key ∈ path ∨ cache.locked ∨ cache.made.isSome then []
    else
      let locked := { w with graph := w.graph.lock key }
      let find := build note depth (path ++ [key])
      gatherTrace find (buildTrace tell note depth (path ++ [key])) inputs locked ++
        match gather key find inputs locked with
        | (.ok entries, w) =>
          let ready := { w with world := note (.constructing key) w.world }
          let resolve := resolveWith (build note depth [])
          let program := construct ⟨key, entries⟩
          tell (.called ⟨.constructorOf key, inputs, find, locked⟩ entries) ++
            (program.trace tell resolve (resolveTrace tell (buildTrace tell note depth [])) ready ++
              match program.run resolve ready with
              | (.ok value, _) => tell (.made key ⟨key.type, value⟩)
              | _ => [])
        | _ => []

/-- What is told while a key is resolved, with calls nested to a depth at most. -/
def resolveWithinTrace (tell : Happening σ ι → List τ) (note : Notice → σ → σ) (depth : Nat) :
    Key → Workshop σ ι → List τ :=
  resolveTrace tell (buildTrace tell note depth [])

/-- What is told while an invocation finds the component of an input. -/
def fetchTrace (tell : Happening σ ι → List τ) (note : Notice → σ → σ) (depth : Nat)
    (owner key : Key) (node : Node σ ι) (w : Workshop σ ι) : List τ :=
  tell (.checked key w.graph) ++
    match w.graph.verify key node with
    | .error _ => []
    | .ok () => buildTrace tell note depth [owner] key node w

/-- What is told of an invocation. -/
def invokeTrace (tell : Happening σ ι → List τ) (note : Notice → σ → σ) (depth : Nat)
    (name : String) (inputs : Inputs) (function : Args ι → Program σ ι) (w : Workshop σ ι) :
    List τ :=
  let owner := invocationKey name
  let find := fetch note depth owner
  gatherTrace find (fetchTrace tell note depth owner) inputs w ++
    match gather owner find inputs w with
    | (.ok entries, w') =>
      tell (.called ⟨.function name, inputs, find, w⟩ entries) ++
        (function ⟨owner, entries⟩).trace tell (resolveWithin note depth)
          (resolveWithinTrace tell note depth)
          { w' with world := note (.invoking owner) w'.world }
    | _ => []

/-! ## Requests -/

/-- A request to a graph. Calls that it leads to are nested to a depth at most. -/
inductive Request (σ ι : Type) where
  /-- The surroundings change on their own. -/
  | live (world : σ)
  | supply (key : Key) (value : ι)
  | provide (key : Key) (inputs : Inputs) (construct : Args ι → Program σ ι)
  | resolve (depth : Nat) (key : Key)
  | invoke (depth : Nat) (name : String) (inputs : Inputs) (function : Args ι → Program σ ι)

/-- The answer to a request. -/
inductive Reply (ι : Type) where
  | none
  | registered (result : Except GraphError Unit)
  | resolved (outcome : Outcome GraphError (Instance ι))
  | invoked (outcome : Outcome GraphError ι)

namespace Request

/-- The answer to a request, and the graph at work after it. -/
def reply (note : Notice → σ → σ) : Request σ ι → Workshop σ ι → Reply ι × Workshop σ ι
  | .live world, w => (.none, { w with world })
  | .supply key value, w =>
    let (result, w) := w.register key (.ofValue key value)
    (.registered result, w)
  | .provide key inputs construct, w =>
    let (result, w) := w.register key (.ofRecipe inputs construct)
    (.registered result, w)
  | .resolve depth key, w =>
    let (outcome, w) := resolveWithin note depth key w
    (.resolved outcome, w)
  | .invoke depth name inputs function, w =>
    let (outcome, w) := invokeWithin note depth name inputs function w
    (.invoked outcome, w)

/-- What is told of a request. -/
def trace (tell : Happening σ ι → List τ) (note : Notice → σ → σ) :
    Request σ ι → Workshop σ ι → List τ
  | .live _, _ => []
  | .supply key value, w => tell (.registering key (.ofValue key value) w)
  | .provide key inputs construct, w => tell (.registering key (.ofRecipe inputs construct) w)
  | .resolve depth key, w =>
    resolveWithinTrace tell note depth key w ++
      match (resolveWithin note depth key w).1 with
      | .ok item => tell (.resolved key item)
      | _ => []
  | .invoke depth name inputs function, w => invokeTrace tell note depth name inputs function w

end Request

/-! ## One trace -/

section
variable {tell : Happening σ ι → List τ} {note : Notice → σ → σ}

/-- Nothing that is told of a request is nothing of the graph at work. -/
@[simp] theorem Workshop.own_nil (w : Workshop σ ι) : w.own ([] : List τ) = [] := by
  unfold own
  split <;> rfl

/-- What is told of things at the graph at work is told of those among them that are there. -/
theorem Workshop.own_flatMap (w : Workshop σ ι) (trace : List (Happening σ ι))
    (tell : Happening σ ι → List τ) : (w.own trace).flatMap tell = w.own (trace.flatMap tell) := by
  unfold own
  split <;> rfl

theorem Workshop.own_of_beside {w : Workshop σ ι} (h : w.beside = none) (told : List τ) :
    w.own told = told := by
  rw [own, h]

theorem Workshop.consult_of_beside {w : Workshop σ ι} (h : w.beside = none)
    (f : Workshop σ ι → τ × Workshop σ ι) : w.consult f = f w := by
  rw [consult, h]

theorem Happening.told_singleton (x : Happening σ ι) :
    (List.singleton x).flatMap tell = tell x :=
  List.flatMap_singleton ..

/-- What is told while a constructor runs is told of what happens meanwhile. -/
theorem Program.trace_eq {resolve : Resolver σ ι} {told : Key → Workshop σ ι → List τ}
    {happened : Key → Workshop σ ι → List (Happening σ ι)}
    (h : ∀ key w, told key w = (happened key w).flatMap tell) (p : Program σ ι)
    (w : Workshop σ ι) :
    p.trace tell resolve told w = (p.trace List.singleton resolve happened w).flatMap tell := by
  induction p generalizing w with
  | finish result => rfl
  | panic text => rfl
  | read next ih => exact ih _ w
  | write world next ih => exact ih _
  | isCached key next ih => exact ih _ w
  | resolve key next ih =>
    unfold trace
    generalize w.consult (resolve key) = r
    obtain ⟨outcome, w₁⟩ := r
    cases outcome with
    | ok item =>
      rw [List.flatMap_append, ← ih, Workshop.own_flatMap, List.flatMap_append, h,
        Happening.told_singleton]
    | error e => rw [List.flatMap_append, ← ih, Workshop.own_flatMap, h]
    | interrupted why => rw [Workshop.own_flatMap, h]
  | supply key value next ih =>
    unfold trace
    rw [List.flatMap_append, ← ih, Workshop.own_flatMap, Happening.told_singleton]
  | provide key inputs construct next _ ih =>
    unfold trace
    rw [List.flatMap_append, ← ih, Workshop.own_flatMap, Happening.told_singleton]

section
variable {find : Key → Node σ ι → Workshop σ ι → Outcome GraphError (Instance ι) × Workshop σ ι}
  {told : Key → Node σ ι → Workshop σ ι → List τ}
  {happened : Key → Node σ ι → Workshop σ ι → List (Happening σ ι)}

/-- What is told while inputs are found is told of what happens meanwhile. -/
theorem gatherTrace_eq (h : ∀ key node w, told key node w = (happened key node w).flatMap tell)
    (inputs : Inputs) (w : Workshop σ ι) :
    gatherTrace find told inputs w = (gatherTrace find happened inputs w).flatMap tell := by
  induction inputs generalizing w with
  | nil => rfl
  | cons p rest ih =>
    unfold gatherTrace
    cases w.graph.node? p.key with
    | none =>
      cases p.optional with
      | false => rfl
      | true => exact ih w
    | some node =>
      dsimp only
      generalize find p.key node w = r
      obtain ⟨outcome, w₁⟩ := r
      cases outcome with
      | ok item => rw [List.flatMap_append, ← ih, h]
      | error e => exact h p.key node w
      | interrupted why => exact h p.key node w

/-- What is told while a key is resolved is told of what happens meanwhile. -/
theorem resolveTrace_eq (h : ∀ key node w, told key node w = (happened key node w).flatMap tell)
    (key : Key) (w : Workshop σ ι) :
    resolveTrace tell told key w =
      (resolveTrace List.singleton happened key w).flatMap tell := by
  unfold resolveTrace
  cases w.graph.node? key with
  | none => rfl
  | some node =>
    dsimp only
    cases node.available with
    | some item => rfl
    | none =>
      dsimp only
      rw [List.flatMap_append, Happening.told_singleton]
      cases w.graph.verify key node with
      | error e => rfl
      | ok => rw [h]

end

/-- What is told of a construction is told of what happens meanwhile. -/
theorem buildTrace_eq (tell : Happening σ ι → List τ) (note : Notice → σ → σ) (depth : Nat)
    (path : List Key) (key : Key) (node : Node σ ι) (w : Workshop σ ι) :
    buildTrace tell note depth path key node w =
      (buildTrace List.singleton note depth path key node w).flatMap tell := by
  induction depth generalizing path key node w with
  | zero => cases node <;> rfl
  | succ depth ih =>
    cases node with
    | value item => rfl
    | recipe inputs construct cache =>
      unfold buildTrace
      split
      · rfl
      dsimp only
      rw [List.flatMap_append, ← gatherTrace_eq (ih (path ++ [key]))]
      generalize gather key (build note depth (path ++ [key])) inputs
        { w with graph := w.graph.lock key } = r
      obtain ⟨outcome, w₁⟩ := r
      cases outcome with
      | error e => rfl
      | interrupted why => rfl
      | ok entries =>
        dsimp only
        rw [List.flatMap_append, List.flatMap_append,
          ← Program.trace_eq (resolveTrace_eq (ih [])), Happening.told_singleton]
        generalize (construct ⟨key, entries⟩).run (resolveWith (build note depth []))
          { w₁ with world := note (.constructing key) w₁.world } = r
        obtain ⟨outcome, w₂⟩ := r
        cases outcome with
        | ok value =>
          dsimp only
          rw [Happening.told_singleton]
        | error failure => rfl
        | interrupted why => rfl

/-- What is told of a resolution is told of what happens meanwhile. -/
theorem resolveWithinTrace_eq (tell : Happening σ ι → List τ) (note : Notice → σ → σ)
    (depth : Nat) (key : Key) (w : Workshop σ ι) :
    resolveWithinTrace tell note depth key w =
      (resolveWithinTrace List.singleton note depth key w).flatMap tell :=
  resolveTrace_eq (buildTrace_eq tell note depth []) key w

/-- What is told of finding an input is told of what happens meanwhile. -/
theorem fetchTrace_eq (tell : Happening σ ι → List τ) (note : Notice → σ → σ) (depth : Nat)
    (owner key : Key) (node : Node σ ι) (w : Workshop σ ι) :
    fetchTrace tell note depth owner key node w =
      (fetchTrace List.singleton note depth owner key node w).flatMap tell := by
  unfold fetchTrace
  rw [List.flatMap_append, Happening.told_singleton]
  cases w.graph.verify key node with
  | error e => rfl
  | ok =>
    dsimp only
    rw [← buildTrace_eq]

/-- What is told of an invocation is told of what happens meanwhile. -/
theorem invokeTrace_eq (tell : Happening σ ι → List τ) (note : Notice → σ → σ) (depth : Nat)
    (name : String) (inputs : Inputs) (function : Args ι → Program σ ι) (w : Workshop σ ι) :
    invokeTrace tell note depth name inputs function w =
      (invokeTrace List.singleton note depth name inputs function w).flatMap tell := by
  unfold invokeTrace
  dsimp only
  rw [List.flatMap_append, ← gatherTrace_eq (fetchTrace_eq tell note depth (invocationKey name))]
  generalize gather (invocationKey name) (fetch note depth (invocationKey name)) inputs w = r
  obtain ⟨outcome, w₁⟩ := r
  cases outcome with
  | error e => rfl
  | interrupted why => rfl
  | ok entries =>
    dsimp only
    rw [List.flatMap_append, ← Program.trace_eq (resolveWithinTrace_eq tell note depth),
      Happening.told_singleton]

/-- What is told of a request is told of what happens meanwhile. -/
theorem Request.trace_eq (tell : Happening σ ι → List τ) (note : Notice → σ → σ)
    (request : Request σ ι) (w : Workshop σ ι) :
    request.trace tell note w = (request.trace List.singleton note w).flatMap tell := by
  cases request with
  | live world => rfl
  | supply key value => exact (List.flatMap_singleton ..).symm
  | provide key inputs construct => exact (List.flatMap_singleton ..).symm
  | invoke depth name inputs function => exact invokeTrace_eq tell note depth name inputs function w
  | resolve depth key =>
    simp only [trace]
    rw [List.flatMap_append, ← resolveWithinTrace_eq]
    generalize (resolveWithin note depth key w).1 = outcome
    cases outcome with
    | ok item =>
      dsimp only
      rw [Happening.told_singleton]
    | error e => rfl
    | interrupted why => rfl

end

/-! ## What can happen -/

/-- The inputs are those that were declared with what is called. -/
def Gathering.Declared (requests : List (Request σ ι)) (G : Gathering σ ι) : Prop :=
  match G.callee with
  | .constructorOf key =>
    ∃ construct cache, G.start.graph.node? key = some (.recipe G.inputs construct cache)
  | .function name => ∃ depth function, .invoke depth name G.inputs function ∈ requests

/-- What can happen while these requests are answered. -/
inductive Happening.Sound (requests : List (Request σ ι)) : Happening σ ι → Prop
  /-- A value is registered as of the type of its key. -/
  | registering (key : Key) {node : Node σ ι} (w : Workshop σ ι)
      (htyped : ∀ item, node = .value item → item.type = key.type) :
      Sound requests (.registering key node w)
  | checked (key : Key) (graph : Graph σ ι) : Sound requests (.checked key graph)
  /-- A call is made with what was found for the declared inputs. -/
  | called {G : Gathering σ ι} {entries : Entries ι} (hresult : G.result = .ok entries)
      (hdeclared : G.Declared requests) : Sound requests (.called G entries)
  /-- What a constructor returns has the type of its key. -/
  | made (key : Key) (value : ι) : Sound requests (.made key ⟨key.type, value⟩)
  | resolved (key : Key) (item : Instance ι) : Sound requests (.resolved key item)

section
variable {requests : List (Request σ ι)} {note : Notice → σ → σ}

theorem Happening.Sound.supply (key : Key) (value : ι) (w : Workshop σ ι) :
    Sound requests (.registering key (.ofValue key value) w) := by
  refine .registering key w ?_
  rintro _ ⟨⟩
  rfl

theorem Happening.Sound.provide (key : Key) (inputs : Inputs) (construct : Args ι → Program σ ι)
    (w : Workshop σ ι) : Sound requests (.registering key (.ofRecipe inputs construct) w) := by
  refine .registering key w ?_
  rintro _ ⟨⟩

/-- What is told of the graph at work is among what is told. -/
theorem Workshop.mem_own {w : Workshop σ ι} {told : List τ} {x : τ} (h : x ∈ w.own told) :
    x ∈ told := by
  unfold own at h
  split at h
  · exact h
  · cases h

/-- What happens while a constructor runs can happen, if what happens whenever a key is resolved
can. -/
theorem Program.trace_sound {resolve : Resolver σ ι}
    {happened : Key → Workshop σ ι → List (Happening σ ι)}
    (h : ∀ key w, ∀ x ∈ happened key w, x.Sound requests) (p : Program σ ι) (w : Workshop σ ι) :
    ∀ x ∈ p.trace List.singleton resolve happened w, x.Sound requests := by
  induction p generalizing w with
  | finish result => exact fun x hx => absurd hx List.not_mem_nil
  | panic text => exact fun x hx => absurd hx List.not_mem_nil
  | read next ih => exact ih _ w
  | write world next ih => exact ih _
  | isCached key next ih => exact ih _ w
  | resolve key next ih =>
    unfold trace
    generalize w.consult (resolve key) = r
    obtain ⟨outcome, w₁⟩ := r
    cases outcome with
    | ok item =>
      refine List.forall_mem_append.2 ⟨fun x hx => ?_, ih _ w₁⟩
      rcases List.mem_append.1 (Workshop.mem_own hx) with hx | hx
      · exact h key w x hx
      · rw [List.mem_singleton.1 hx]
        exact .resolved key item
    | error e =>
      exact List.forall_mem_append.2 ⟨fun x hx => h key w x (Workshop.mem_own hx), ih _ w₁⟩
    | interrupted why => exact fun x hx => h key w x (Workshop.mem_own hx)
  | supply key value next ih =>
    refine List.forall_mem_append.2 ⟨fun x hx => ?_, ih _ _⟩
    rw [List.mem_singleton.1 (Workshop.mem_own hx)]
    exact .supply key value w
  | provide key inputs construct next _ ih =>
    refine List.forall_mem_append.2 ⟨fun x hx => ?_, ih _ _⟩
    rw [List.mem_singleton.1 (Workshop.mem_own hx)]
    exact .provide key inputs construct w

section
variable {find : Key → Node σ ι → Workshop σ ι → Outcome GraphError (Instance ι) × Workshop σ ι}
  {happened : Key → Node σ ι → Workshop σ ι → List (Happening σ ι)}

/-- What happens while inputs are found can happen, if what happens whenever one is found can. -/
theorem gatherTrace_sound
    (h : ∀ key node (w : Workshop σ ι), w.graph.node? key = some node →
      ∀ x ∈ happened key node w, x.Sound requests) (inputs : Inputs) (w : Workshop σ ι) :
    ∀ x ∈ gatherTrace find happened inputs w, x.Sound requests := by
  induction inputs generalizing w with
  | nil => exact fun x hx => absurd hx List.not_mem_nil
  | cons p rest ih =>
    unfold gatherTrace
    cases hnode : w.graph.node? p.key with
    | none =>
      cases p.optional with
      | false => exact fun x hx => absurd hx List.not_mem_nil
      | true => exact ih w
    | some node =>
      have hfirst := h p.key node w hnode
      dsimp only
      generalize find p.key node w = r
      obtain ⟨outcome, w₁⟩ := r
      cases outcome with
      | ok item => exact List.forall_mem_append.2 ⟨hfirst, ih w₁⟩
      | error e => exact hfirst
      | interrupted why => exact hfirst

/-- What happens while a key is resolved can happen, if what happens in every construction can. -/
theorem resolveTrace_sound
    (h : ∀ key node (w : Workshop σ ι), w.graph.node? key = some node →
      ∀ x ∈ happened key node w, x.Sound requests) (key : Key) (w : Workshop σ ι) :
    ∀ x ∈ resolveTrace List.singleton happened key w, x.Sound requests := by
  unfold resolveTrace
  cases hnode : w.graph.node? key with
  | none => exact fun x hx => absurd hx List.not_mem_nil
  | some node =>
    dsimp only
    cases node.available with
    | some item => exact fun x hx => absurd hx List.not_mem_nil
    | none =>
      refine List.forall_mem_append.2 ⟨List.forall_mem_singleton.2 (.checked key w.graph), ?_⟩
      cases w.graph.verify key node with
      | error e => exact fun x hx => absurd hx List.not_mem_nil
      | ok => exact h key node w hnode

end

/-- What happens in a construction can happen, whatever is requested. -/
theorem buildTrace_sound (note : Notice → σ → σ) (depth : Nat) (path : List Key) (key : Key)
    (node : Node σ ι) (w : Workshop σ ι) (hnode : w.graph.node? key = some node) :
    ∀ x ∈ buildTrace List.singleton note depth path key node w, x.Sound requests := by
  induction depth generalizing path key node w with
  | zero => cases node <;> exact fun x hx => absurd hx List.not_mem_nil
  | succ depth ih =>
    cases node with
    | value item => exact fun x hx => absurd hx List.not_mem_nil
    | recipe inputs construct cache =>
      unfold buildTrace
      split
      · exact fun x hx => absurd hx List.not_mem_nil
      refine List.forall_mem_append.2 ⟨gatherTrace_sound (ih (path ++ [key])) inputs _, ?_⟩
      cases hgather : gather key (build note depth (path ++ [key])) inputs
        { w with graph := w.graph.lock key } with | mk outcome w₁ =>
      cases outcome with
      | error e => exact fun x hx => absurd hx List.not_mem_nil
      | interrupted why => exact fun x hx => absurd hx List.not_mem_nil
      | ok entries =>
        have hdeclared : (w.graph.lock key).node? key =
            some (.recipe inputs construct { cache with locked := true }) := by
          rw [Graph.lock, Graph.node?_mapCache, if_pos rfl, hnode]
          rfl
        refine List.forall_mem_append.2 ⟨List.forall_mem_singleton.2
          (.called (congrArg Prod.fst hgather) ⟨construct, _, hdeclared⟩), ?_⟩
        refine List.forall_mem_append.2
          ⟨Program.trace_sound (resolveTrace_sound (ih [])) (construct ⟨key, entries⟩) _, ?_⟩
        generalize (construct ⟨key, entries⟩).run (resolveWith (build note depth []))
          { w₁ with world := note (.constructing key) w₁.world } = r
        obtain ⟨outcome, w₂⟩ := r
        cases outcome with
        | ok value => exact List.forall_mem_singleton.2 (.made key value)
        | error failure => exact fun x hx => absurd hx List.not_mem_nil
        | interrupted why => exact fun x hx => absurd hx List.not_mem_nil

/-- What happens in a resolution can happen, whatever is requested. -/
theorem resolveWithinTrace_sound (note : Notice → σ → σ) (depth : Nat) (key : Key)
    (w : Workshop σ ι) :
    ∀ x ∈ resolveWithinTrace List.singleton note depth key w, x.Sound requests :=
  resolveTrace_sound (buildTrace_sound note depth []) key w

/-- What happens while an invocation finds an input can happen, whatever is requested. -/
theorem fetchTrace_sound (note : Notice → σ → σ) (depth : Nat) (owner key : Key)
    (node : Node σ ι) (w : Workshop σ ι) (hnode : w.graph.node? key = some node) :
    ∀ x ∈ fetchTrace List.singleton note depth owner key node w, x.Sound requests := by
  refine List.forall_mem_append.2 ⟨List.forall_mem_singleton.2 (.checked key w.graph), ?_⟩
  cases w.graph.verify key node with
  | error e => exact fun x hx => absurd hx List.not_mem_nil
  | ok => exact buildTrace_sound note depth [owner] key node w hnode

/-- What happens in an invocation that is requested can happen. -/
theorem invokeTrace_sound (note : Notice → σ → σ) {depth : Nat} {name : String} {inputs : Inputs}
    {function : Args ι → Program σ ι} (hrequest : .invoke depth name inputs function ∈ requests)
    (w : Workshop σ ι) :
    ∀ x ∈ invokeTrace List.singleton note depth name inputs function w, x.Sound requests := by
  refine List.forall_mem_append.2
    ⟨gatherTrace_sound (fetchTrace_sound note depth (invocationKey name)) inputs w, ?_⟩
  cases hgather : gather (invocationKey name) (fetch note depth (invocationKey name)) inputs w with
    | mk outcome w₁ =>
  cases outcome with
  | error e => exact fun x hx => absurd hx List.not_mem_nil
  | interrupted why => exact fun x hx => absurd hx List.not_mem_nil
  | ok entries =>
    refine List.forall_mem_append.2 ⟨List.forall_mem_singleton.2
      (.called (congrArg Prod.fst hgather) ⟨depth, function, hrequest⟩), ?_⟩
    exact Program.trace_sound (resolveWithinTrace_sound note depth)
      (function ⟨invocationKey name, entries⟩) _

/-- What happens while a request is answered can happen. -/
theorem Request.trace_sound (note : Notice → σ → σ) {request : Request σ ι}
    (hrequest : request ∈ requests) (w : Workshop σ ι) :
    ∀ x ∈ request.trace List.singleton note w, x.Sound requests := by
  cases request with
  | live world => exact fun x hx => absurd hx List.not_mem_nil
  | supply key value => exact List.forall_mem_singleton.2 (.supply key value w)
  | provide key inputs construct =>
    exact List.forall_mem_singleton.2 (.provide key inputs construct w)
  | invoke depth name inputs function => exact invokeTrace_sound note hrequest w
  | resolve depth key =>
    refine List.forall_mem_append.2 ⟨resolveWithinTrace_sound note depth key w, ?_⟩
    cases (resolveWithin note depth key w).1 with
    | ok item => exact List.forall_mem_singleton.2 (.resolved key item)
    | error e => exact fun x hx => absurd hx List.not_mem_nil
    | interrupted why => exact fun x hx => absurd hx List.not_mem_nil

end

end ServiceHost
