import ServiceHost.App.Builder
import ServiceHost.Context
import ServiceHost.Lifecycle.Coordinator
import ServiceHost.Rehearsal.Forest
import ServiceHost.Rehearsal.Script
import ServiceHost.Shutdown

/-!
The world of a rehearsal: a clock that the rehearsal itself sets, a log, counters, named contexts
and receivers, and every lifecycle and every shutdown broadcaster that was made, of which one each
is the current one.

Whoever is polled may take so many things out of waits that are over: an allowance, which is made up
again for the next poll. Once it is used up, nothing more can be taken and no new wait begins, and
the poll is put off.
-/

namespace ServiceHost.Rehearsal

/-- A component that is a thing of the world. -/
inductive Handle where
  | lifecycle (id : Nat)
  | shutdowner (id : Nat)
deriving DecidableEq, Repr

/-- A component of a rehearsal. -/
structure Part where
  /-- The number in the order of making. A thing of the world has none. -/
  serial : Option Nat
  /-- What made it. -/
  maker : String
  /-- The numbers that its constructor collected. -/
  deps : List (Option Nat)
  handle : Option Handle
deriving DecidableEq, Repr

/-- What calls are counted by: a place, or a type wherever it is constructed. -/
inductive Counter where
  | place (id : Nat)
  | type (type : ComponentType)
deriving DecidableEq, Repr

/-- A callback of a hook: its actions, and the name under which it appears in the log. -/
structure Callback where
  phase : Phase
  label : String
  actions : List HookAction
  counter : Counter

/-- The receiving end of a channel: a broadcaster and a subscriber of it. -/
structure Subscription where
  broadcaster : Nat
  subscriber : Nat
deriving DecidableEq, Repr

/-- Something that others may have waited for. -/
inductive Event where
  /-- The clock has moved. -/
  | clock
  /-- A pass has left the gate of a lifecycle. -/
  | left (lifecycle : Nat)
  /-- Scopes were cancelled, and were told in that order. -/
  | cancelled (told : List ScopeId)
  /-- A signal was sent to the subscribers of a broadcaster. -/
  | sent (broadcaster : Nat)
  /-- A signal of the operating system has arrived. -/
  | interrupted
deriving DecidableEq, Repr

/-- The world of a rehearsal. -/
structure World where
  /-- Milliseconds on the clock. -/
  now : Nat
  /-- The lines written since the last step, the newest first. -/
  log : List String
  /-- What has happened since someone looked, the newest first. -/
  events : List Event
  /-- The number of times that a task was polled. -/
  polls : Nat
  /-- The number of things that the poll at hand may still take. -/
  allowance : Nat
  /-- The poll at hand was put off, so that another one has to follow. -/
  putOff : Bool
  /-- The number of components made. -/
  serials : Nat
  /-- The number of places that calls are counted by. -/
  places : Nat
  calls : List (Counter × Nat)
  scopes : Scopes
  forest : Forest
  contexts : List (String × Context)
  lifecycles : Array (Coordinator Callback)
  /-- The current lifecycle. -/
  lifecycle : Nat
  broadcasters : Array Broadcaster
  /-- The current broadcaster. -/
  broadcaster : Nat
  receivers : List (String × Subscription)
  /-- A run has waited for a signal. -/
  runWaited : Bool

/-- The value of a name in a list without repeated names, with another one put in its place. -/
def putNamed {α : Type} (entries : List (String × α)) (name : String) (value : α) :
    List (String × α) :=
  (name, value) :: entries.filter fun e => e.1 != name

/-- The number of things that one poll may take. -/
def fullAllowance : Nat := 128

/-- The most milliseconds that anyone sleeps at a time or that a limit leaves: thirty years of 365
days. -/
def longestWait : Nat := 946080000000

namespace World

/-- The world at the beginning of a script. -/
def initial : World where
  now := 0
  log := []
  events := []
  polls := 0
  allowance := fullAllowance
  putOff := false
  serials := 0
  places := 0
  calls := []
  scopes := .initial
  forest := .empty
  contexts := []
  lifecycles := #[.empty]
  lifecycle := 0
  broadcasters := #[.empty]
  broadcaster := 0
  receivers := []
  runWaited := false

/-- Writes a line into the log. -/
def say (w : World) (line : String) : World :=
  { w with log := line :: w.log }

/-- Writes a line that begins with the time. -/
def sayAt (w : World) (line : String) : World :=
  w.say (toString w.now ++ " " ++ line)

/-- Something happens. -/
def happen (w : World) (event : Event) : World :=
  { w with events := event :: w.events }

/-- Another poll begins. -/
def beginPoll (w : World) : World :=
  { w with allowance := fullAllowance, putOff := false }

/-- Something is taken out of a wait. -/
def spend (w : World) : World :=
  { w with allowance := w.allowance - 1 }

/-- The poll at hand is put off. -/
def postpone (w : World) : World :=
  { w with putOff := true }

/-- The time after so many milliseconds of waiting. -/
def after (w : World) (millis : Nat) : Nat :=
  w.now + min millis longestWait

/-- Looks whether a time has come after a wait for something else. If that wait has used up the
allowance, the time may still be looked at; if there was none in the first place, it may not. -/
def reached (w : World) (hadAllowance : Bool) (time : Nat) : Bool × World :=
  if w.allowance = 0 && !hadAllowance then (false, w.postpone)
  else if time ≤ w.now then (true, w.spend)
  else (false, w)

/-- The next serial number. -/
def takeSerial (w : World) : Nat × World :=
  (w.serials + 1, { w with serials := w.serials + 1 })

/-- A place to count calls by. -/
def newCounter (w : World) : Counter × World :=
  (.place w.places, { w with places := w.places + 1 })

/-- The number of this call. -/
def count (w : World) (counter : Counter) : Nat × World :=
  let call := ((w.calls.lookup counter).getD 0) + 1
  (call, { w with calls := (counter, call) :: w.calls.filter fun e => e.1 != counter })

/-- A new lifecycle. -/
def newLifecycle (w : World) : Nat × World :=
  (w.lifecycles.size, { w with lifecycles := w.lifecycles.push .empty })

/-- A new shutdown broadcaster. -/
def newBroadcaster (w : World) : Nat × World :=
  (w.broadcasters.size, { w with broadcasters := w.broadcasters.push .empty })

/-- A lifecycle with its passes. -/
def coordinator (w : World) (id : Nat) : Coordinator Callback :=
  w.lifecycles.getD id .empty

/-- Replaces a lifecycle with its passes. -/
def setCoordinator (w : World) (id : Nat) (c : Coordinator Callback) : World :=
  { w with lifecycles := w.lifecycles.setIfInBounds id c }

/-- Replaces a lifecycle at whose gate a pass has left the line. -/
def leaveGate (w : World) (id : Nat) (c : Coordinator Callback) : World :=
  (w.setCoordinator id c).happen (.left id)

/-- The current lifecycle with its passes. -/
def current (w : World) : Coordinator Callback :=
  w.coordinator w.lifecycle

/-- A broadcaster. -/
def broadcasterOf (w : World) (id : Nat) : Broadcaster :=
  w.broadcasters.getD id .empty

/-- Replaces a broadcaster. -/
def setBroadcaster (w : World) (id : Nat) (b : Broadcaster) : World :=
  { w with broadcasters := w.broadcasters.setIfInBounds id b }

/-- A new background context. -/
def background (w : World) : Context × World :=
  let (ctx, scopes) := w.scopes.background
  (ctx, { w with scopes })

/-- A new context that is done after so many milliseconds. -/
def timeoutContext (w : World) (millis : Nat) : Context × World :=
  let (parent, w) := w.background
  let (ctx, scopes) := w.scopes.withTimeout parent w.now millis
  (ctx, { w with scopes })

/-- The context of that name, or a new background one. -/
def contextOr (w : World) (name : Option String) : Context × World :=
  match name.bind fun name => w.contexts.lookup name with
  | some ctx => (ctx, w)
  | none => w.background

/-- Why a context is done, if it is. -/
def contextError (w : World) (ctx : Context) : Option ContextError :=
  w.scopes.error? w.now ctx

/-- Keeps a context that was made from another one. Its scope hangs from the scope of that one, by
which it is told of a cancellation later. -/
def derive (w : World) (parent : Context) (made : Context × Scopes) : Context × World :=
  let (ctx, scopes) := made
  let forest := if w.scopes.isCancelled parent then w.forest
    else match parent.lineage, ctx.lineage with
      | above :: _, scope :: _ => w.forest.hang above scope
      | _, _ => w.forest
  (ctx, { w with scopes, forest })

/-- Cancels a context, if it was not cancelled before. -/
def cancel (w : World) (ctx : Context) : World :=
  if w.scopes.isCancelled ctx then w
  else ctx.lineage.head?.elim w fun scope =>
    let (told, forest) := w.forest.cancel scope
    { w with scopes := w.scopes.cancel ctx, forest }.happen (.cancelled told)

/-- Whether the end of a context can be waited for: if it has a deadline, some allowance must be
left. -/
def canWatch (w : World) (ctx : Context) : Bool :=
  ctx.deadline.isNone || w.allowance != 0

/-- Why a context is done, for someone who waits for that. A deadline is taken out of a wait, a
cancellation is not. -/
def lookAt (w : World) (ctx : Context) : Option ContextError × World :=
  match w.scopes.done? w.now ctx with
  | some .deadlineExceeded => (some .deadlineExceeded, w.spend)
  | reason => (reason, w)

/-- What a pass under that context is told. -/
def reading (w : World) (ctx : Context) : Reading :=
  ⟨w.now, w.contextError ctx⟩

/-- Subscribes to a broadcaster. -/
def subscribe (w : World) (id : Nat) : Subscription × World :=
  let (subscriber, b) := (w.broadcasterOf id).register
  (⟨id, subscriber⟩, w.setBroadcaster id b)

/-- Gives up a subscription. -/
def unsubscribe (w : World) (s : Subscription) : World :=
  w.setBroadcaster s.broadcaster ((w.broadcasterOf s.broadcaster).close s.subscriber)

/-- The signal that waits for a subscription. -/
def pending? (w : World) (s : Subscription) : Option Signal :=
  (w.broadcasterOf s.broadcaster).pending? s.subscriber

/-- Takes the signal that waits for a subscription. -/
def take (w : World) (s : Subscription) : Option Signal × World :=
  let (signal, b) := (w.broadcasterOf s.broadcaster).take s.subscriber
  (signal, w.setBroadcaster s.broadcaster b)

/-- Gives up the receiver of that name, if there is one. -/
def dropReceiver (w : World) (name : String) : World :=
  match w.receivers.lookup name with
  | none => w
  | some s =>
    { w.unsubscribe s with receivers := w.receivers.filter fun e => e.1 != name }

/-- Keeps a subscription as the receiver of that name, in place of any that had it. -/
def keepReceiver (w : World) (name : String) (s : Subscription) : World :=
  let w := w.dropReceiver name
  { w with receivers := (name, s) :: w.receivers }

/-- Sends a signal to the subscribers of a broadcaster. -/
def broadcast (w : World) (id : Nat) (signal : Signal) : Except ShutdownError Unit × World :=
  let (result, b) := (w.broadcasterOf id).broadcast signal
  (result, (w.setBroadcaster id b).happen (.sent id))

/-- A component of a type. A lifecycle and a shutdown broadcaster are made anew. -/
def makePart (w : World) (type : ComponentType) (maker : String) (deps : List (Option Nat)) :
    Part × World :=
  let (serial, w) := w.takeSerial
  if type = lifecycleType then
    let (id, w) := w.newLifecycle
    (⟨none, maker, deps, some (.lifecycle id)⟩, w)
  else if type = shutdownerType then
    let (id, w) := w.newBroadcaster
    (⟨none, maker, deps, some (.shutdowner id)⟩, w)
  else (⟨some serial, maker, deps, none⟩, w)

/-- A callback with a counter of its own. -/
def newCallback (w : World) (phase : Phase) (label : String) (actions : List HookAction) :
    Callback × World :=
  let (counter, w) := w.newCounter
  (⟨phase, label, actions, counter⟩, w)

/-- The hook of a script. -/
def newHook (w : World) (script : HookScript HookAction) : Hook Callback × World :=
  let label := (script.label <|> script.caller).getD "anon"
  let (start, w) := w.newCallback .start label (script.start.getD [])
  let (stop, w) := w.newCallback .stop label (script.stop.getD [])
  let hook : Hook Callback := match script.kind with
    | .plain => ⟨script.start.map fun _ => start, script.stop.map fun _ => stop, none⟩
    | .service type => .service type start stop
    | .starting type => .starting type start
    | .stopping type => .stopping type stop
  match script.caller with
  | some caller => (hook.withCaller caller, w)
  | none => (hook, w)

/-- The place that a hook without a name is known by. -/
def callSite : String :=
  "<call-site>"

/-- Appends a hook to a lifecycle. -/
def append (w : World) (id : Nat) (script : HookScript HookAction) :
    Except LifecycleError Unit × World :=
  let (hook, w) := w.newHook script
  match (w.coordinator id).append callSite hook with
  | .ok c => (.ok (), w.setCoordinator id c)
  | .error e => (.error e, w)

end World

/-- What everyone may know of the current lifecycle, and the time. -/
structure Snapshot where
  state : LifecycleState
  started : Nat
  hooks : Nat
  running : Option String
  now : Nat
deriving DecidableEq, Repr

/-- What everyone may know of the current lifecycle. -/
def World.snapshot (w : World) : Snapshot :=
  let l := w.current.lifecycle
  ⟨l.state, l.started, l.hooks.length, l.running, w.now⟩

end ServiceHost.Rehearsal
