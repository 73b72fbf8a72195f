import ServiceHost.Graph.Check

/-!
Resolution: the component of a key is handed out from its cache, or built after its inputs were. A
constructor runs with its cache locked, once; what it returns is stored before it is handed out, and
a failure is not stored. Constructors may make requests while they run, to the graph that they
belong to or to another one that was put beside it.

A call can also end without returning: by a panic, by waiting for a lock that the caller itself
holds, or because calls are nested deeper than the given bound. Every level of nesting holds the
lock of a different key, so one level more than there are nodes suffices as long as none is added.
-/

namespace ServiceHost

/-- Why a call does not return. -/
inductive Interruption where
  /-- It panicked. -/
  | panic (text : String)
  /-- It waits for the component of a key that it is itself constructing. -/
  | deadlock (key : Key)
  /-- Calls were nested too deep. -/
  | tooDeep
deriving DecidableEq, Repr

/-- How a call ends. -/
inductive Outcome (ε α : Type) where
  | ok (value : α)
  | error (cause : ε)
  | interrupted (why : Interruption)
deriving DecidableEq, Repr

/-- A graph at work: its nodes and the surroundings that its constructors act on. -/
structure Workshop (σ ι : Type) where
  graph : Graph σ ι
  /-- The graph that constructors make their requests to, unless they make them to `graph`. -/
  beside : Option (Graph σ ι)
  world : σ

/-- What the graph reports while it works. -/
inductive Notice where
  /-- The constructor of the key is about to run. -/
  | constructing (key : Key)
  /-- The function of that name is about to run. -/
  | invoking (owner : Key)
deriving DecidableEq, Repr

/-- The type that the owner of an invoked function's arguments has. -/
def invocationType : ComponentType :=
  ⟨"keystone::di::graph::Invocation"⟩

/-- The owner of an invoked function's arguments. Reference: `Graph::invoke`. -/
def invocationKey (name : String) : Key :=
  Key.named invocationType name

section

variable {σ ι : Type}

/-- A way to resolve a key. -/
abbrev Resolver (σ ι : Type) : Type :=
  Key → Workshop σ ι → Outcome GraphError (Instance ι) × Workshop σ ι

/-- Registers a node in the graph at work. -/
def Workshop.register (w : Workshop σ ι) (key : Key) (node : Node σ ι) :
    Except GraphError Unit × Workshop σ ι :=
  match w.graph.register key node with
  | .ok graph => (.ok (), { w with graph })
  | .error e => (.error e, w)

/-- The graph that constructors make their requests to. -/
def Workshop.consulted (w : Workshop σ ι) : Graph σ ι :=
  w.beside.getD w.graph

/-- Does something at the graph that constructors make their requests to. -/
def Workshop.consult {α : Type} (w : Workshop σ ι) (f : Workshop σ ι → α × Workshop σ ι) :
    α × Workshop σ ι :=
  match w.beside with
  | none => f w
  | some graph =>
    let (result, after) := f ⟨graph, none, w.world⟩
    (result, ⟨w.graph, some after.graph, after.world⟩)

/-- Runs a constructor, whose requests to resolve a key are answered by `resolve`. -/
def Program.run (resolve : Resolver σ ι) :
    Program σ ι → Workshop σ ι → Outcome Failure ι × Workshop σ ι
  | .finish (.ok value), w => (.ok value, w)
  | .finish (.error failure), w => (.error failure, w)
  | .panic text, w => (.interrupted (.panic text), w)
  | .read next, w => (next w.world).run resolve w
  | .write world next, w => next.run resolve { w with world }
  | .isCached key next, w => (next (w.consulted.isCached key)).run resolve w
  | .resolve key next, w =>
    match w.consult (resolve key) with
    | (.ok item, w) => (next (.ok item)).run resolve w
    | (.error e, w) => (next (.error e)).run resolve w
    | (.interrupted why, w) => (.interrupted why, w)
  | .supply key value next, w =>
    let (result, w) := w.consult fun w => w.register key (.ofValue key value)
    (next result).run resolve w
  | .provide key inputs construct next, w =>
    let (result, w) := w.consult fun w => w.register key (.ofRecipe inputs construct)
    (next result).run resolve w

/-- Finds the component of each input in turn, those that are registered by `find`.
Reference: `Graph::build` and `Graph::invoke`. -/
def gather (owner : Key)
    (find : Key → Node σ ι → Workshop σ ι → Outcome GraphError (Instance ι) × Workshop σ ι) :
    Inputs → Workshop σ ι →
      Outcome GraphError (List (Param × Option (Instance ι))) × Workshop σ ι
  | [], w => (.ok [], w)
  | p :: rest, w =>
    match w.graph.node? p.key with
    | some node =>
      match find p.key node w with
      | (.ok item, w) =>
        match gather owner find rest w with
        | (.ok entries, w) => (.ok ((p, some item) :: entries), w)
        | (.error e, w) => (.error e, w)
        | (.interrupted why, w) => (.interrupted why, w)
      | (.error e, w) => (.error e, w)
      | (.interrupted why, w) => (.interrupted why, w)
    | none =>
      if p.optional then
        match gather owner find rest w with
        | (.ok entries, w) => (.ok ((p, none) :: entries), w)
        | (.error e, w) => (.error e, w)
        | (.interrupted why, w) => (.interrupted why, w)
      else (.error (.missingDependency p.key (some owner)), w)

/-- Resolves a key, with `build` for a component that is not there yet.
Reference: `Graph::resolve_key`. -/
def resolveWith
    (build : Key → Node σ ι → Workshop σ ι → Outcome GraphError (Instance ι) × Workshop σ ι) :
    Resolver σ ι := fun key w =>
  match w.graph.node? key with
  | none => (.error (.missingDependency key none), w)
  | some node =>
    match node.available with
    | some item => (.ok item, w)
    | none =>
      match w.graph.verify key node with
      | .error e => (.error e, w)
      | .ok () => build key node w

/-- Gives back the lock of a key at the end of a construction without a component. A call that never
returns keeps it. -/
def Workshop.giveUp (w : Workshop σ ι) (key : Key) : Option Interruption → Workshop σ ι
  | none => { w with graph := w.graph.release key }
  | some (.panic _) => { w with graph := w.graph.poison key }
  | some _ => w

/-- Builds the component of a node: its inputs first, each in its turn, then the constructor runs.
The keys whose inputs are being built stand in `path`. Reference: `Graph::build`. -/
def build (note : Notice → σ → σ) : Nat → List Key → Key → Node σ ι → Workshop σ ι →
    Outcome GraphError (Instance ι) × Workshop σ ι
  | _, _, _, .value item, w => (.ok item, w)
  | 0, _, _, .recipe _ _ _, w => (.interrupted .tooDeep, w)
  | depth + 1, path, key, .recipe inputs construct cache, w =>
    if key ∈ path then (.error (circular path key), w)
    else if cache.locked then (.interrupted (.deadlock key), w)
    else match cache.made with
      | some item => (.ok item, w)
      | none =>
        match gather key (build note depth (path ++ [key])) inputs
            { w with graph := w.graph.lock key } with
        | (.error e, w) => (.error e, w.giveUp key none)
        | (.interrupted why, w) => (.interrupted why, w.giveUp key (some why))
        | (.ok entries, w) =>
          match (construct ⟨key, entries⟩).run (resolveWith (build note depth []))
              { w with world := note (.constructing key) w.world } with
          | (.ok value, w) =>
            (.ok ⟨key.type, value⟩, { w with graph := w.graph.store key ⟨key.type, value⟩ })
          | (.error failure, w) => (.error (.constructor key failure), w.giveUp key none)
          | (.interrupted why, w) => (.interrupted why, w.giveUp key (some why))

/-- Resolves a key, with calls nested to a depth at most. -/
def resolveWithin (note : Notice → σ → σ) (depth : Nat) : Resolver σ ι :=
  resolveWith (build note depth [])

/-- Resolves a key. Reference: `Graph::resolve_key`. -/
def Workshop.resolve (w : Workshop σ ι) (note : Notice → σ → σ) (key : Key) :
    Outcome GraphError (Instance ι) × Workshop σ ι :=
  resolveWithin note (w.graph.size + 1) key w

/-- Resolves the component of a type, and of a name if one is given, and checks that it has the
type. Reference: `Graph::resolve` and `Graph::resolve_named`. -/
def resolveTyped (resolve : Resolver σ ι) (key : Key) (w : Workshop σ ι) :
    Outcome GraphError ι × Workshop σ ι :=
  match resolve key w with
  | (.ok item, w) =>
    match item.as key.type with
    | .ok value => (.ok value, w)
    | .error e => (.error e, w)
  | (.error e, w) => (.error e, w)
  | (.interrupted why, w) => (.interrupted why, w)

/-- Resolves inputs and calls a function with them, with calls nested to a depth at most.
Reference: `Graph::invoke`. -/
def invokeWithin (note : Notice → σ → σ) (depth : Nat) (name : String) (inputs : Inputs)
    (function : Args ι → Program σ ι) (w : Workshop σ ι) : Outcome GraphError ι × Workshop σ ι :=
  let owner := invocationKey name
  let find := fun key (node : Node σ ι) (w : Workshop σ ι) =>
    match w.graph.verify key node with
    | .error e => (.error e, w)
    | .ok () => build note depth [owner] key node w
  match gather owner find inputs w with
  | (.error e, w) => (.error e, w)
  | (.interrupted why, w) => (.interrupted why, w)
  | (.ok entries, w) =>
    match (function ⟨owner, entries⟩).run (resolveWithin note depth)
        { w with world := note (.invoking owner) w.world } with
    | (.ok value, w) => (.ok value, w)
    | (.error failure, w) => (.error (.invokeFailed name failure), w)
    | (.interrupted why, w) => (.interrupted why, w)

/-- Resolves inputs and calls a function with them. Reference: `Graph::invoke`. -/
def Workshop.invoke (w : Workshop σ ι) (note : Notice → σ → σ) (name : String) (inputs : Inputs)
    (function : Args ι → Program σ ι) : Outcome GraphError ι × Workshop σ ι :=
  invokeWithin note (w.graph.size + 1) name inputs function w

end

end ServiceHost
