import ServiceHost.Graph.Resolve

/-!
Resolution by several threads at the same time. What a thread does is a tree of single acts, each
followed by a function of the answer to it. An act finds a node, tries or takes the lock of a cache,
gives it back, calls a constructor, lets it read or replace the surroundings, or stores what it
returned. Between two acts of a thread the others may do anything.

A cache is locked not only while its component is under construction. To look into it takes the lock
for a moment, too, and so does the construction of another component that finds this one made.
Whoever tries the lock in that moment does not get it, and whoever takes it waits.
-/

namespace ServiceHost

/-- What a thread does in one go. -/
inductive Act (σ ι : Type) where
  /-- Finds what is registered under a key. -/
  | peek (key : Key)
  /-- Tries the lock of a cache, and sees what is in it. -/
  | look (key : Key)
  /-- Waits for the lock of a cache, and sees what component is in it. -/
  | lock (key : Key)
  /-- Gives the lock back. -/
  | release (key : Key)
  /-- Gives the lock back while a panic is on its way out. -/
  | poison (key : Key)
  /-- Calls the constructor with the inputs that were found for it. -/
  | call (key : Key) (entries : List (Param × Option (Instance ι)))
  /-- The constructor reads the surroundings. -/
  | read
  /-- The constructor replaces the surroundings. -/
  | write (world : σ)
  /-- The constructor registers a node. -/
  | register (key : Key) (node : Node σ ι)
  /-- The constructor returns. -/
  | returned (key : Key) (result : Except Failure ι)
  /-- Puts the component into its cache. -/
  | store (key : Key) (item : Instance ι)

/-- What a thread learns by an act. -/
def Act.Answer {σ ι : Type} : Act σ ι → Type
  | .peek _ => Option (Node σ ι)
  | .look _ => Option (Cache ι)
  | .lock _ => Option (Instance ι)
  | .read => σ
  | .register _ _ => Except GraphError Unit
  | _ => Unit

/-- What a thread is still to do, up to a result. -/
inductive Thread (σ ι α : Type) where
  | done (result : α)
  | act (a : Act σ ι) (next : a.Answer → Thread σ ι α)

section

variable {σ ι α β ε : Type}

/-- The cache of a constructor. -/
def Graph.cache? (g : Graph σ ι) (key : Key) : Option (Cache ι) :=
  match g.node? key with
  | some (.recipe _ _ cache) => some cache
  | _ => none

/-- Does one act, unless it has to be waited for. The graph that constructors make their requests to
is the one that they belong to. -/
def Act.perform (note : Notice → σ → σ) :
    (a : Act σ ι) → Workshop σ ι → Option (a.Answer × Workshop σ ι)
  | .peek key, w => some (w.graph.node? key, w)
  | .look key, w =>
    match w.graph.cache? key with
    | some cache =>
      if cache.locked then some (none, w)
      else some (some cache, { w with graph := w.graph.lock key })
    | none => some (none, w)
  | .lock key, w =>
    match w.graph.cache? key with
    | some cache =>
      if cache.locked then none
      else some (cache.made, { w with graph := w.graph.lock key })
    | none => none
  | .release key, w => some ((), { w with graph := w.graph.release key })
  | .poison key, w => some ((), { w with graph := w.graph.poison key })
  | .call key _, w => some ((), { w with world := note (.constructing key) w.world })
  | .read, w => some (w.world, w)
  | .write world, w => some ((), { w with world })
  | .register key node, w => some (w.register key node)
  | .returned _ _, w => some ((), w)
  | .store key item, w =>
    some ((), { w with graph := w.graph.mapCache key fun c => { c with made := some item } })

namespace Thread

/-- One thing after another. -/
def bind : Thread σ ι α → (α → Thread σ ι β) → Thread σ ι β
  | .done a, f => f a
  | .act a next, f => .act a fun answer => (next answer).bind f

/-- One thing after another, unless the first fails. -/
def andThen (t : Thread σ ι (Outcome ε α)) (f : α → Thread σ ι (Outcome ε β)) :
    Thread σ ι (Outcome ε β) :=
  t.bind fun
    | .ok a => f a
    | .error e => .done (.error e)
    | .interrupted why => .done (.interrupted why)

/-! ### Looks at a cache -/

/-- Looks into a cache, unless somebody has its lock at the moment. -/
def glance (key : Key) : Thread σ ι (Option (Cache ι)) :=
  .act (.look key) fun
    | some cache => .act (.release key) fun _ => .done (some cache)
    | none => .done none

/-- The component, if it can be had at once. Reference: `Node::cached`. -/
def available (key : Key) : Node σ ι → Thread σ ι (Option (Instance ι))
  | .value item => .done (some item)
  | .recipe _ _ _ => (glance key).bind fun found => .done (found.bind fun cache => cache.made)

/-- The component is there and nothing speaks against it. Reference: `Node::is_cached`. -/
def isCached (key : Key) : Node σ ι → Thread σ ι Bool
  | .value _ => .done true
  | .recipe _ _ _ => (glance key).bind fun found =>
    .done (found.any fun cache => !cache.poisoned && cache.made.isSome)

/-! ### The check -/

/-- Looks for the first required input that is not registered. -/
def seek : Inputs → Thread σ ι (Option Param)
  | [] => .done none
  | p :: rest =>
    if p.optional then seek rest
    else .act (.peek p.key) fun
      | some _ => seek rest
      | none => .done (some p)

/-- Walks inputs one after another, each that is registered by `visit`. -/
def visitInputs (path : List Key)
    (visit : Key → Node σ ι → List Key → Thread σ ι (Except GraphError (List Key))) :
    Inputs → List Key → Thread σ ι (Except GraphError (List Key))
  | [], been => .done (.ok been)
  | p :: rest, been =>
    if p.key ∈ path then .done (.error (circular path p.key))
    else .act (.peek p.key) fun
      | none => visitInputs path visit rest been
      | some node => (visit p.key node been).bind fun
        | .ok been => visitInputs path visit rest been
        | .error e => .done (.error e)

/-- Walks on through the inputs of a component that was not seen to be there. -/
def expand (path : List Key)
    (visit : Key → Node σ ι → List Key → Thread σ ι (Except GraphError (List Key)))
    (key : Key) (inputs : Inputs) (been : List Key) :
    Thread σ ι (Except GraphError (List Key)) :=
  (seek inputs).bind fun
    | some p => .done (.error (.missingDependency p.key (some key)))
    | none => (visitInputs (path ++ [key]) visit inputs been).bind fun
      | .ok been => .done (.ok (been ++ [key]))
      | .error e => .done (.error e)

/-- Walks a node to the end, looking at one cache after another while others are at work. Reference:
`Graph::visit`. -/
def visit : Nat → List Key → Key → Node σ ι → List Key →
    Thread σ ι (Except GraphError (List Key))
  | depth, path, key, node, been =>
    if key ∈ been then .done (.ok been)
    else (isCached key node).bind fun
      | true => .done (.ok been)
      | false =>
        match node, depth with
        | .value _, _ => .done (.ok been)
        | .recipe _ _ _, 0 => .done (.ok been)
        | .recipe inputs _ _, depth + 1 =>
          expand path (visit depth (path ++ [key])) key inputs been

/-! ### The construction -/

/-- Finds the component of each input in turn, those that are registered by `find`. -/
def gather (owner : Key)
    (find : Key → Node σ ι → Thread σ ι (Outcome GraphError (Instance ι))) :
    Inputs → Thread σ ι (Outcome GraphError (List (Param × Option (Instance ι))))
  | [] => .done (.ok [])
  | p :: rest => .act (.peek p.key) fun
    | some node =>
      (find p.key node).andThen fun item =>
        (gather owner find rest).andThen fun entries => .done (.ok ((p, some item) :: entries))
    | none =>
      if p.optional then
        (gather owner find rest).andThen fun entries => .done (.ok ((p, none) :: entries))
      else .done (.error (.missingDependency p.key (some owner)))

/-- Resolves a key, with `build` for a component that is not there yet. Reference:
`Graph::resolve_key`. -/
def resolveWith (size : Nat)
    (build : Key → Node σ ι → Thread σ ι (Outcome GraphError (Instance ι))) (key : Key) :
    Thread σ ι (Outcome GraphError (Instance ι)) :=
  .act (.peek key) fun
    | none => .done (.error (.missingDependency key none))
    | some node => (available key node).bind fun
      | some item => .done (.ok item)
      | none => (visit size [] key node []).bind fun
        | .ok _ => build key node
        | .error e => .done (.error e)

/-- Ends a construction that was interrupted. A call that never returns keeps the lock. -/
def breakOff (key : Key) : Interruption → Thread σ ι (Outcome ε α)
  | .panic text => .act (.poison key) fun _ => .done (.interrupted (.panic text))
  | why => .done (.interrupted why)

end Thread

/-- What a constructor does, whose requests to resolve a key are answered by `resolve`. -/
def Program.thread (resolve : Key → Thread σ ι (Outcome GraphError (Instance ι))) :
    Program σ ι → Thread σ ι (Outcome Failure ι)
  | .finish (.ok value) => .done (.ok value)
  | .finish (.error failure) => .done (.error failure)
  | .panic text => .done (.interrupted (.panic text))
  | .read next => .act .read fun world => (next world).thread resolve
  | .write world next => .act (.write world) fun _ => next.thread resolve
  | .isCached key next => .act (.peek key) fun
    | some node => (Thread.isCached key node).bind fun cached => (next cached).thread resolve
    | none => (next false).thread resolve
  | .resolve key next => (resolve key).bind fun
    | .ok item => (next (.ok item)).thread resolve
    | .error e => (next (.error e)).thread resolve
    | .interrupted why => .done (.interrupted why)
  | .supply key value next =>
    .act (.register key (.ofValue key value)) fun result => (next result).thread resolve
  | .provide key inputs construct next =>
    .act (.register key (.ofRecipe inputs construct)) fun result => (next result).thread resolve

namespace Thread

/-- Calls the constructor and stores what it returns. -/
def construct (resolve : Key → Thread σ ι (Outcome GraphError (Instance ι))) (key : Key)
    (constructor : Args ι → Program σ ι) (entries : List (Param × Option (Instance ι))) :
    Thread σ ι (Outcome GraphError (Instance ι)) :=
  .act (.call key entries) fun _ =>
    ((constructor ⟨key, entries⟩).thread resolve).bind fun
      | .ok value =>
        .act (.returned key (.ok value)) fun _ =>
          .act (.store key ⟨key.type, value⟩) fun _ =>
            .act (.release key) fun _ => .done (.ok ⟨key.type, value⟩)
      | .error failure =>
        .act (.returned key (.error failure)) fun _ =>
          .act (.release key) fun _ => .done (.error (.constructor key failure))
      | .interrupted why => breakOff key why

/-- Builds the component of a node, in a graph with so many nodes. The lock is held until the
component is stored. Reference: `Graph::build`. -/
def build (size : Nat) : Nat → List Key → Key → Node σ ι →
    Thread σ ι (Outcome GraphError (Instance ι))
  | _, _, _, .value item => .done (.ok item)
  | 0, _, _, .recipe _ _ _ => .done (.interrupted .tooDeep)
  | depth + 1, path, key, .recipe inputs constructor _ =>
    if key ∈ path then .done (.error (circular path key))
    else .act (.lock key) fun
      | some item => .act (.release key) fun _ => .done (.ok item)
      | none =>
        (gather key (build size depth (path ++ [key])) inputs).bind fun
          | .ok entries =>
            construct (resolveWith size (build size depth [])) key constructor entries
          | .error e => .act (.release key) fun _ => .done (.error e)
          | .interrupted why => breakOff key why

/-- Resolves a key of a graph with so many nodes, with calls nested to a depth at most. -/
def resolve (size depth : Nat) : Key → Thread σ ι (Outcome GraphError (Instance ι)) :=
  resolveWith size (build size depth [])

end Thread

/-! ### Threads that share a graph -/

/-- Threads at work in a graph. -/
structure Crew (σ ι : Type) where
  workshop : Workshop σ ι
  threads : List (Thread σ ι (Outcome GraphError (Instance ι)))

/-- An act of one of the threads, and what that thread learned by it. -/
structure Crew.Move (σ ι : Type) where
  thread : Nat
  act : Act σ ι
  answer : act.Answer

/-- A thread for each of the keys, to resolve it with calls nested to a depth at most. Several calls
of one thread are as good as several threads, each of which does nothing until the one before has
ended. -/
def Workshop.crewWithin (w : Workshop σ ι) (size depth : Nat) (keys : List Key) : Crew σ ι :=
  ⟨w, keys.map (Thread.resolve size depth)⟩

/-- A thread for each of the keys, to resolve it. -/
def Workshop.crew (w : Workshop σ ι) (keys : List Key) : Crew σ ι :=
  w.crewWithin w.graph.size (w.graph.size + 1) keys

namespace Crew

/-- The next act of a thread, and the crew after it, if there is one that need not be waited for. -/
def move? (note : Notice → σ → σ) (c : Crew σ ι) (i : Nat) : Option (Move σ ι × Crew σ ι) :=
  match c.threads[i]? with
  | some (.act a next) =>
    match a.perform note c.workshop with
    | some (answer, w) => some (⟨i, a, answer⟩, ⟨w, c.threads.set i (next answer)⟩)
    | none => none
  | _ => none

/-- A thread does its next act, or nothing where it has to wait. -/
def step (note : Notice → σ → σ) (c : Crew σ ι) (i : Nat) : Crew σ ι :=
  match c.move? note i with
  | some (_, c) => c
  | none => c

/-- The threads act in this order, or do nothing where they have to wait. -/
def run (note : Notice → σ → σ) (c : Crew σ ι) (schedule : List Nat) : Crew σ ι :=
  schedule.foldl (step note) c

/-- How the call of a thread has ended. -/
def result? (c : Crew σ ι) (i : Nat) : Option (Outcome GraphError (Instance ι)) :=
  match c.threads[i]? with
  | some (.done r) => some r
  | _ => none

end Crew

end

end ServiceHost
