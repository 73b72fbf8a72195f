import ServiceHost.Graph.Program

/-!
The graph: a list of nodes under distinct keys, in the order in which they were registered. A node
is a value, or a constructor with its inputs and a cache. The cache is locked while the constructor
runs and while its inputs are built, and a panic in that time marks it for good. Nodes are added and
never removed or replaced; only caches change.
-/

namespace ServiceHost

/-- The cache of a constructor. -/
structure Cache (ι : Type) where
  /-- What the constructor returned, once it did. -/
  made : Option (Instance ι)
  /-- The component is under construction. -/
  locked : Bool
  /-- A panic ended a construction. -/
  poisoned : Bool
deriving DecidableEq, Repr

/-- A cache before the first call. -/
def Cache.fresh {ι : Type} : Cache ι :=
  ⟨none, false, false⟩

/-- What is registered under a key. Reference: `Node`. -/
inductive Node (σ ι : Type) where
  | value (item : Instance ι)
  | recipe (inputs : Inputs) (construct : Args ι → Program σ ι) (cache : Cache ι)

namespace Node

variable {σ ι : Type}

/-- The node of a value, which has the type of its key. Reference: `Node::value`. -/
def ofValue (key : Key) (value : ι) : Node σ ι :=
  .value ⟨key.type, value⟩

/-- The node of a constructor that was not called yet. Reference: `Node::constructor`. -/
def ofRecipe (inputs : Inputs) (construct : Args ι → Program σ ι) : Node σ ι :=
  .recipe inputs construct .fresh

/-- The component, if it can be had at once. A mark left by a panic is no obstacle.
Reference: `Node::cached`. -/
def available : Node σ ι → Option (Instance ι)
  | .value item => some item
  | .recipe _ _ cache => if cache.locked then none else cache.made

/-- The component is there and nothing speaks against it. A cache marked by a panic, or locked, is
not trusted. Reference: `Node::is_cached`. -/
def isCached : Node σ ι → Bool
  | .value _ => true
  | .recipe _ _ cache => !cache.locked && !cache.poisoned && cache.made.isSome

/-- Changes the cache of a constructor. -/
def mapCache (f : Cache ι → Cache ι) : Node σ ι → Node σ ι
  | .value item => .value item
  | .recipe inputs construct cache => .recipe inputs construct (f cache)

/-- The declared inputs; a value has none. Reference: `Node::inputs`. -/
def inputs : Node σ ι → Inputs
  | .value _ => []
  | .recipe inputs _ _ => inputs

end Node

/-- Nodes under distinct keys. Reference: `Graph`. -/
structure Graph (σ ι : Type) where
  entries : List (Key × Node σ ι)

namespace Graph

variable {σ ι : Type}

/-- The graph without nodes. Reference: `Graph::new`. -/
def empty : Graph σ ι :=
  ⟨[]⟩

/-- The number of nodes. Reference: `Graph::len`. -/
def size (g : Graph σ ι) : Nat :=
  g.entries.length

/-- The keys, in the order of registration. -/
def keys (g : Graph σ ι) : List Key :=
  g.entries.map (·.1)

/-- What is registered under a key. Reference: `Graph::node`. -/
def node? (g : Graph σ ι) (key : Key) : Option (Node σ ι) :=
  g.entries.lookup key

/-- Something is registered under the key. Reference: `Graph::contains`. -/
def contains (g : Graph σ ι) (key : Key) : Bool :=
  (g.node? key).isSome

/-- Resolving the key would call no constructor. Reference: `Graph::is_cached`. -/
def isCached (g : Graph σ ι) (key : Key) : Bool :=
  match g.node? key with
  | some node => node.isCached
  | none => false

/-- Adds a node under a new key. Reference: `Graph::insert`. -/
def register (g : Graph σ ι) (key : Key) (node : Node σ ι) : Except GraphError (Graph σ ι) :=
  if g.contains key then .error (.duplicateRegistration key)
  else .ok ⟨g.entries ++ [(key, node)]⟩

/-- Changes the cache of a constructor. -/
def mapCache (g : Graph σ ι) (key : Key) (f : Cache ι → Cache ι) : Graph σ ι :=
  ⟨g.entries.map fun e => if e.1 = key then (e.1, e.2.mapCache f) else e⟩

/-- The construction of the component begins. -/
def lock (g : Graph σ ι) (key : Key) : Graph σ ι :=
  g.mapCache key fun c => { c with locked := true }

/-- The construction ends without a component. -/
def release (g : Graph σ ι) (key : Key) : Graph σ ι :=
  g.mapCache key fun c => { c with locked := false }

/-- The construction ends in a panic. -/
def poison (g : Graph σ ι) (key : Key) : Graph σ ι :=
  g.mapCache key fun c => { c with locked := false, poisoned := true }

/-- The construction ends with a component. -/
def store (g : Graph σ ι) (key : Key) (item : Instance ι) : Graph σ ι :=
  g.mapCache key fun c => { c with locked := false, made := some item }

end Graph

end ServiceHost
