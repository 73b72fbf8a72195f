import ServiceHost.Proofs.Graph.Trace

/-!
# What is seen of a graph at work

What is seen of a call is a list of deeds (`Deed`): a value is registered, a key is checked before
its component is built, a constructor is called and returns, a component is handed out. They are
drawn from the trace of the call (`Deed.of`). A chronicle (`Chronicle`) is everything that was seen
and answered from a new graph on, for any requests in any order.
-/

namespace ServiceHost

variable {σ ι : Type}

/-- What can be seen of a graph at work. -/
inductive Deed (σ ι : Type) where
  /-- A value was registered under the key. -/
  | supplied (key : Key) (item : Instance ι)
  /-- The key is checked before its component is built, as the graph is then. -/
  | checked (key : Key) (graph : Graph σ ι)
  /-- The constructor of the key is called. -/
  | called (key : Key) (entries : Entries ι)
  /-- The constructor of the key has returned. -/
  | made (key : Key) (item : Instance ι)
  /-- The key was resolved. -/
  | resolved (key : Key) (item : Instance ι)
  /-- A function is called. -/
  | invoked (owner : Key) (entries : Entries ι)

/-- What is seen of a call. -/
def Callee.call (entries : Entries ι) : Callee → Deed σ ι
  | constructorOf key => .called key entries
  | function name => .invoked (invocationKey name) entries

/-- What is seen of a thing that happens. -/
def Deed.of : Happening σ ι → List (Deed σ ι)
  | .registering key (.value item) w =>
    if w.graph.contains key then [] else [.supplied key item]
  | .registering _ (.recipe _ _ _) _ => []
  | .checked key graph => [.checked key graph]
  | .called G entries => [G.callee.call entries]
  | .made key item => [.made key item]
  | .resolved key item => [.resolved key item]

/-- A way to tell what is seen while a key is resolved. -/
abbrev Witness (σ ι : Type) : Type :=
  Key → Workshop σ ι → List (Deed σ ι)

/-- What is seen when a value is registered. -/
def Workshop.supplyDeeds (w : Workshop σ ι) (key : Key) (value : ι) : List (Deed σ ι) :=
  if w.graph.contains key then [] else [.supplied key ⟨key.type, value⟩]

/-- What is seen while a key is resolved, with calls nested to a depth at most. -/
abbrev resolveWithinDeeds (note : Notice → σ → σ) (depth : Nat) : Witness σ ι :=
  resolveWithinTrace Deed.of note depth

/-- What is seen of an invocation. -/
abbrev invokeDeeds (note : Notice → σ → σ) (depth : Nat) (name : String) (inputs : Inputs)
    (function : Args ι → Program σ ι) (w : Workshop σ ι) : List (Deed σ ι) :=
  invokeTrace Deed.of note depth name inputs function w

/-- What is seen of a request. -/
abbrev Request.deeds (note : Notice → σ → σ) (request : Request σ ι) (w : Workshop σ ι) :
    List (Deed σ ι) :=
  request.trace Deed.of note w

section
variable (key : Key) (w : Workshop σ ι)

@[simp] theorem Deed.of_supply (value : ι) :
    of (.registering key (.ofValue key value) w) = w.supplyDeeds key value := rfl

@[simp] theorem Deed.of_provide (inputs : Inputs) (construct : Args ι → Program σ ι) :
    of (.registering key (.ofRecipe inputs construct) w) = [] := rfl

@[simp] theorem Deed.of_checked (graph : Graph σ ι) :
    of (.checked key graph) = [.checked key graph] := rfl

@[simp] theorem Deed.of_called (G : Gathering σ ι) (entries : Entries ι) :
    of (.called G entries) = [G.callee.call entries] := rfl

@[simp] theorem Deed.of_made (item : Instance ι) :
    of (.made key item : Happening σ ι) = [.made key item] := rfl

@[simp] theorem Deed.of_resolved (item : Instance ι) :
    of (.resolved key item : Happening σ ι) = [.resolved key item] := rfl

end

/-! ## Constructors -/

/-- What a construction comes to when its constructor has come to an end. -/
def constructed (key : Key) :
    Outcome Failure ι × Workshop σ ι → Outcome GraphError (Instance ι) × Workshop σ ι
  | (.ok value, w) =>
    (.ok ⟨key.type, value⟩, { w with graph := w.graph.store key ⟨key.type, value⟩ })
  | (.error failure, w) => (.error (.constructor key failure), w.giveUp key none)
  | (.interrupted why, w) => (.interrupted why, w.giveUp key (some why))

/-- What is seen of it. -/
def constructedDeeds (key : Key) : Outcome Failure ι × Workshop σ ι → List (Deed σ ι)
  | (.ok value, _) => [.made key ⟨key.type, value⟩]
  | _ => []

/-! ## Chronicles -/

/-- Everything that was seen of a graph, the answers that were given, and what has become of it. -/
structure Chronicle (σ ι : Type) where
  deeds : List (Deed σ ι)
  replies : List (Reply ι)
  workshop : Workshop σ ι

namespace Chronicle

/-- Nothing was seen of a new graph. -/
def new (world : σ) : Chronicle σ ι :=
  ⟨[], [], ⟨.empty, none, world⟩⟩

/-- The chronicle after one more request. -/
def next (note : Notice → σ → σ) (c : Chronicle σ ι) (request : Request σ ι) : Chronicle σ ι :=
  ⟨c.deeds ++ request.deeds note c.workshop, c.replies ++ [(request.reply note c.workshop).1],
    (request.reply note c.workshop).2⟩

/-- The chronicle of requests to a new graph. -/
def of (note : Notice → σ → σ) (world : σ) (requests : List (Request σ ι)) : Chronicle σ ι :=
  requests.foldl (next note) (new world)

end Chronicle

end ServiceHost
