import ServiceHost.Rehearsal.Frame

/-!
What an activity waits for, as its frames tell, and the order in which an event wakes those who have
waited for it: at a gate the order of the line, under a cancellation the order in which scopes are
told, at a broadcaster that of the subscribers, and otherwise those who have waited longer come
first.
-/

namespace ServiceHost.Rehearsal

/-- What a frame waits for. -/
inductive Want where
  | time (time : Nat)
  /-- That a scope of that lineage is cancelled. -/
  | cancelled (lineage : List ScopeId)
  /-- Its turn at the gate of a lifecycle. -/
  | turn (lifecycle : Nat) (id : PassId)
  /-- A signal, which may have come from the operating system. -/
  | signal (receiver : Subscription) (heard : Option Signal)

/-- Something that is waited for, and the number of the poll in which the wait began. -/
structure Wait where
  want : Want
  since : Nat

/-- What is waited for has come. -/
def Wait.isOver (w : World) (wait : Wait) : Bool :=
  match wait.want with
  | .time time => time ≤ w.now
  | .cancelled lineage => lineage.any fun scope => w.scopes.cancelled.contains scope
  | .turn lifecycle id => ((w.coordinator lifecycle).turn? id).isSome
  | .signal receiver heard => heard.isSome || (w.pending? receiver).isSome

/-- A wait for the end of a context. -/
def contextWaits (ctx : Context) (since : Nat) : List Wait :=
  ⟨.cancelled ctx.lineage, since⟩ ::
    ctx.deadline.toList.map fun time => ⟨.time time, since⟩

/-- A wait for the end of a pause, if it has one. -/
def Pause.waits (pause : Pause) : List Wait :=
  pause.wake.toList.map fun time => ⟨.time time, pause.since⟩

/-- What a frame waits for. A callback and a pass wait only if nothing is inside. -/
def Frame.waits (innermost : Bool) : Frame → List Wait
  | .acting running (action :: _) (some pause) =>
    if innermost then
      match action with
      | .sleep _ => pause.waits
      | .race _ => pause.waits ++ contextWaits running.context pause.since
      | .waitContext => contextWaits running.context pause.since
      | _ => []
    else []
  | .pass lifecycle id _ => if innermost then [⟨.turn lifecycle id, 0⟩] else []
  | .calling _ call (some since) => contextWaits call.context since
  | .run _ receiver .waiting heard => [⟨.signal receiver heard, 0⟩]
  | .limit deadline => [⟨.time deadline, 0⟩]
  | _ => []

/-- What an activity waits for. -/
def waits : List Frame → List Wait
  | [] => []
  | frame :: rest => frame.waits true ++ rest.flatMap fun frame => frame.waits false

/-- An activity that waits may go on. -/
def mayProceed (w : World) (frames : List Frame) : Bool :=
  (waits frames).any fun wait => wait.isOver w

/-- The times at which an activity may go on. -/
def timers (frames : List Frame) : List Nat :=
  (waits frames).filterMap fun wait => match wait.want with
    | .time time => some time
    | _ => none

/-- The place of a wait among those that an event ends, if it ends it; lower places come first. -/
def Wait.place (w : World) (event : Event) (wait : Wait) : Option (Nat × Nat) :=
  if wait.isOver w then
    match event, wait.want with
    | .clock, .time _ => some (0, wait.since)
    | .cancelled told, .cancelled (scope :: _) =>
      (told.findIdx? fun other => other == scope).map fun place => (place, wait.since)
    | .left lifecycle, .turn other _ => if lifecycle = other then some (0, 0) else none
    | .sent broadcaster, .signal receiver _ =>
      if broadcaster = receiver.broadcaster then some (receiver.subscriber, 0) else none
    | .interrupted, .signal _ _ => some (0, 0)
    | _, _ => none
  else none

/-- One place comes no later than another one. -/
def placeLe (a b : Nat × Nat) : Bool :=
  a.1 < b.1 || (a.1 == b.1 && a.2 ≤ b.2)

/-- The first place of an activity among those that an event wakes, if it wakes it. -/
def place (w : World) (event : Event) (frames : List Frame) : Option (Nat × Nat) :=
  (((waits frames).filterMap fun wait => wait.place w event).mergeSort placeLe).head?

end ServiceHost.Rehearsal
