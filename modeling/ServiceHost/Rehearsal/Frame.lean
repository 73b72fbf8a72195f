import ServiceHost.App.Call
import ServiceHost.App.Require
import ServiceHost.Rehearsal.World
import ServiceHost.Settings.Timeouts

/-!
An activity is a call that may have to wait, as a stack of frames with the innermost first: the
actions of a callback, the pass that waits for it, the call of the application that watches the
pass, a run of the application, a requirement, a limit. This module says what frames there are, how
calls begin and what is undone when frames are dropped.
-/

namespace ServiceHost.Rehearsal

/-- An application that was built. -/
structure App where
  lifecycle : Nat
  broadcaster : Nat
  graph : Nat
  timeouts : Timeouts

/-- How an activity ends. -/
inductive Ending where
  | done (result : Except LifecycleError Unit)
  | signalled (signal : Signal)
  | abandoned
  | panicked (text : String)

/-- What a frame hands to the one around it. -/
inductive Delivery where
  | callback (result : Except Failure Unit)
  | pass (result : Except LifecycleError Unit)
  | run (result : Except LifecycleError Signal)

/-- A call that has not begun. What it needs from a step is settled, what it does is not done
yet. -/
inductive Launch where
  | pass (lifecycle : Nat) (phase : Phase) (context : Context)
  /-- Under the timeout for requirements. -/
  | timedPass (lifecycle : Nat) (phase : Phase)
  | call (app : App) (stage : CallStage) (context : Context)
  /-- Under the timeout of the settings. -/
  | timedCall (app : App) (stage : CallStage)
  | run (app : App)

/-- A callback that was called. -/
structure Running where
  callback : Callback
  context : Context
  /-- The number of the call. -/
  call : Nat
  /-- The lifecycle that was the current one when the call began, on which its actions work. -/
  lifecycle : Nat

/-- A wait in the middle of an action. -/
structure Pause where
  /-- The number of the poll in which it began. -/
  since : Nat
  /-- The time at which it is over, if nothing else ends it. -/
  wake : Option Nat
deriving DecidableEq, Repr

/-- A level of an activity. -/
inductive Frame where
  /-- A call that begins when it is polled. -/
  | launch (what : Launch)
  /-- A callback with actions to come. The first of them may have begun to wait. -/
  | acting (running : Running) (actions : List HookAction) (pause : Option Pause)
  /-- A pass over a lifecycle. -/
  | pass (lifecycle : Nat) (id : PassId) (context : Context)
  /-- A call of an application, which watches a pass and, since the poll of that number, a
  context. -/
  | calling (app : App) (call : AppCall) (since : Option Nat)
  /-- A run of an application, and the signal of the operating system that reached it. -/
  | run (app : App) (receiver : Subscription) (stage : RunStage) (heard : Option Signal)
  /-- What is inside is required to succeed. -/
  | require (requirement : Requirement)
  /-- The context of what is inside is held on to until that is over. -/
  | holding (context : Context)
  /-- What is inside is given up at that time. -/
  | limit (deadline : Nat)

/-- The contexts that a frame holds on to. -/
def Frame.contexts : Frame → List Context
  | .launch (.pass _ _ ctx) => [ctx]
  | .launch (.call _ _ ctx) => [ctx]
  | .acting running _ _ => [running.context]
  | .pass _ _ ctx => [ctx]
  | .calling _ call _ => [call.context]
  | .holding ctx => [ctx]
  | _ => []

/-- The application that a frame belongs to. -/
def Frame.app? : Frame → Option App
  | .launch (.call app _ _) => some app
  | .launch (.timedCall app _) => some app
  | .launch (.run app) => some app
  | .calling app _ _ => some app
  | .run app _ _ _ => some app
  | _ => none

/-- A callback begins. -/
def beginCallback (w : World) (callback : Callback) (ctx : Context) : Frame × World :=
  let (call, w) := w.count callback.counter
  (.acting ⟨callback, ctx, call, w.lifecycle⟩ callback.actions none,
    w.sayAt (callback.phase.text ++ " " ++ callback.label))

/-- A pass steps up to the gate of a lifecycle. -/
def askPass (w : World) (lifecycle : Nat) (phase : Phase) (ctx : Context) : Frame × World :=
  let (id, c) := (w.coordinator lifecycle).ask phase
  (.pass lifecycle id ctx, w.setCoordinator lifecycle c)

/-- A call of an application begins: the frames of the call and of its pass. -/
def askCall (w : World) (app : App) (stage : CallStage) (ctx : Context) : List Frame × World :=
  let (call, c) := AppCall.ask stage ctx (w.coordinator app.lifecycle)
  ([.pass app.lifecycle call.pass ctx, .calling app call none], w.setCoordinator app.lifecycle c)

/-- The milliseconds that an application allows for a phase. -/
def App.allowed (app : App) : Phase → Nat
  | .start => app.timeouts.startMs.toNat
  | .stop => app.timeouts.stopMs.toNat

/-- The frames of a call that begins now. -/
def Launch.frames (w : World) : Launch → List Frame × World
  | .pass lifecycle phase ctx =>
    let (frame, w) := askPass w lifecycle phase ctx
    ([frame], w)
  | .timedPass lifecycle phase =>
    let (ctx, w) := w.timeoutContext requirementMs
    let (frame, w) := askPass w lifecycle phase ctx
    ([frame], w)
  | .call app stage ctx => askCall w app stage ctx
  | .timedCall app stage =>
    let (ctx, w) := w.timeoutContext (app.allowed stage.phase)
    askCall w app stage ctx
  | .run app =>
    let (receiver, w) := w.subscribe app.broadcaster
    ([.launch (.timedCall app .starting), .run app receiver .starting none], w)

/-- A call that steps up to a gate takes something out of a wait, and cannot begin without. -/
def Launch.needsAllowance : Launch → Bool
  | .run _ => false
  | _ => true

/-- What has to be undone when a frame is dropped: a pass leaves the gate, a run its channel. -/
def dropFrame (w : World) : Frame → World
  | .pass lifecycle id _ => w.leaveGate lifecycle ((w.coordinator lifecycle).leave id)
  | .run _ receiver _ _ => w.unsubscribe receiver
  | _ => w

/-- Drops frames, the innermost first. -/
def dropFrames (w : World) (frames : List Frame) : World :=
  frames.foldl dropFrame w

end ServiceHost.Rehearsal
