import ServiceHost.Lifecycle.Pass

/-!
Passes of one lifecycle wait for each other at a gate. Those that asked for it stand in a line, in
the order in which they asked; the first holds the gate until it is over, gives up or panics, and
the next holds it from that moment on. Giving up, in the line or in the middle of a callback, leaves
the lifecycle as it is.
-/

namespace ServiceHost

/-- The number of a pass, in the order of asking. -/
abbrev PassId := Nat

/-- A lifecycle, the passes that stand at its gate, and how far the first of them has come. -/
structure Coordinator (κ : Type) where
  lifecycle : Lifecycle κ
  /-- The passes in order; the first holds the gate. -/
  line : List (PassId × Phase)
  /-- What the first waits for, once it has begun. -/
  current : Option (Progress κ)
  /-- The number of passes that ever asked. -/
  asked : Nat

namespace Coordinator

variable {κ : Type}

/-- A lifecycle that no pass was asked for. -/
def ofLifecycle (l : Lifecycle κ) : Coordinator κ :=
  ⟨l, [], none, 0⟩

/-- A new lifecycle. -/
def empty : Coordinator κ :=
  ofLifecycle .empty

/-- Appends a hook, which needs no gate. -/
def append (c : Coordinator κ) (callSite : String) (hook : Hook κ) :
    Except LifecycleError (Coordinator κ) :=
  match c.lifecycle.append callSite hook with
  | .ok lifecycle => .ok { c with lifecycle }
  | .error e => .error e

/-- A pass steps up to the gate. -/
def ask (c : Coordinator κ) (phase : Phase) : PassId × Coordinator κ :=
  (c.asked, { c with line := c.line ++ [(c.asked, phase)], asked := c.asked + 1 })

/-- The phase of the pass, if it holds the gate and has not begun. -/
def turn? (c : Coordinator κ) (id : PassId) : Option Phase :=
  match c.line, c.current with
  | (first, phase) :: _, none => if first = id then some phase else none
  | _, _ => none

/-- What the pass waits for, if it holds the gate and has begun. -/
def progress? (c : Coordinator κ) (id : PassId) : Option (Progress κ) :=
  match c.line, c.current with
  | (first, _) :: _, some progress => if first = id then some progress else none
  | _, _ => none

/-- Takes over how far the first pass has come. One that is over leaves the gate to the next. -/
def settle (c : Coordinator κ) : PassStep κ × Lifecycle κ → PassStep κ × Coordinator κ
  | (.call callback progress, lifecycle) =>
    (.call callback progress, { c with lifecycle, current := some progress })
  | (step, lifecycle) => (step, { c with lifecycle, line := c.line.drop 1, current := none })

/-- The pass begins, if it is its turn. -/
def enter (c : Coordinator κ) (id : PassId) (reading : Reading) :
    Option (PassStep κ × Coordinator κ) :=
  (c.turn? id).map fun phase => c.settle (c.lifecycle.begin phase reading)

/-- The callback that the pass waits for has returned. -/
def returned (c : Coordinator κ) (id : PassId) (result : Except Failure Unit) (reading : Reading) :
    Option (PassStep κ × Coordinator κ) :=
  (c.progress? id).map fun progress => c.settle (c.lifecycle.resume progress result reading)

/-- The pass is given up, or its callback panicked. -/
def leave (c : Coordinator κ) (id : PassId) : Coordinator κ :=
  { c with
    line := c.line.filter fun p => p.1 != id
    current := if (c.progress? id).isSome then none else c.current }

end Coordinator

/-- What can happen to a lifecycle and its passes, one thing at a time. -/
inductive Move (κ : Type) where
  | append (callSite : String) (hook : Hook κ)
  | ask (phase : Phase)
  | enter (id : PassId) (reading : Reading)
  | returned (id : PassId) (result : Except Failure Unit) (reading : Reading)
  | leave (id : PassId)

/-- The lifecycle and its passes after a move. A move that is not possible changes nothing. -/
def Coordinator.apply {κ : Type} (c : Coordinator κ) : Move κ → Coordinator κ
  | .append callSite hook =>
    match c.append callSite hook with
    | .ok c => c
    | .error _ => c
  | .ask phase => (c.ask phase).2
  | .enter id reading =>
    match c.enter id reading with
    | some (_, c) => c
    | none => c
  | .returned id result reading =>
    match c.returned id result reading with
    | some (_, c) => c
    | none => c
  | .leave id => c.leave id

end ServiceHost
