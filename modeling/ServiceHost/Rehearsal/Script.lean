import ServiceHost.Graph.Inputs
import ServiceHost.Failure
import ServiceHost.Lifecycle.Error
import ServiceHost.Settings.Reader
import ServiceHost.Shutdown

/-!
Scripts for a rehearsal: what constructors and callbacks do, written down as lists of actions, and
the steps that register, resolve, start and stop them.
-/

namespace ServiceHost.Rehearsal

/-- The calls in which an action is taken, by their number from one on. -/
structure Window where
  /-- Not in later calls. -/
  last : Option Nat
  /-- Not in this call and those before it. -/
  after : Option Nat

/-- The action is taken in that call. -/
def Window.covers (w : Window) (call : Nat) : Bool :=
  (w.last.all fun n => call ≤ n) && (w.after.all fun n => n < call)

/-- How a hook is made. -/
inductive HookKind where
  /-- From the callbacks that are given. -/
  | plain
  /-- From a service of a type, which starts and stops. -/
  | service (type : ComponentType)
  /-- From a service that is only started. -/
  | starting (type : ComponentType)
  /-- From a service that is only stopped. -/
  | stopping (type : ComponentType)

/-- A hook whose callbacks are lists of actions `α`. -/
structure HookScript (α : Type) where
  kind : HookKind
  caller : Option String
  /-- The name under which its callbacks appear in the log. -/
  label : Option String
  start : Option (List α)
  stop : Option (List α)

/-- What a callback does. -/
inductive HookAction where
  /-- Takes another action in some calls only. -/
  | during (window : Window) (action : HookAction)
  /-- Sleeps for so many milliseconds. -/
  | sleep (millis : Nat)
  /-- Sleeps for so many milliseconds, or fails as soon as the context is done. -/
  | race (millis : Nat)
  /-- Waits until the context is done and fails. -/
  | waitContext
  /-- Waits for ever. -/
  | pending
  | fail (failure : Failure)
  | panic (text : String)
  | log (text : String)
  /-- Cancels the context of that name, or the callback's own. -/
  | cancel (name : Option String)
  /-- Logs the state of the lifecycle. -/
  | probe
  /-- Logs whether the context is done. -/
  | contextError
  /-- Appends another hook. -/
  | append (hook : HookScript HookAction)
  /-- Runs a pass from within. -/
  | reenter (phase : Phase)
  /-- Broadcasts a signal and logs the outcome. -/
  | broadcast (signal : Signal)

/-- A registration whose constructors are lists of actions `α`. -/
inductive Registration (α : Type) where
  | value (key : Key)
  /-- A value that others hold as well, which has no name. -/
  | shared (type : ComponentType)
  | constructor (key : Key) (inputs : Inputs) (body : List α)
  /-- The constructor that belongs to a type, without a name. Its calls are counted together,
  wherever it is registered. -/
  | injectable (type : ComponentType) (inputs : Inputs) (body : List α)
  /-- Several registrations, up to the first that fails. -/
  | bundle (steps : List (Registration α))

/-- What a constructor or an invoked function does. -/
inductive BodyAction where
  /-- Takes another action in some calls only. -/
  | during (window : Window) (action : BodyAction)
  /-- Takes an argument by field and type. A tolerant action logs an error that it meets. -/
  | get (field : String) (type : ComponentType) (tolerant : Bool)
  /-- Takes an argument that may be missing. -/
  | optional (field : String) (type : ComponentType) (tolerant : Bool)
  /-- Resolves a key in the graph of the script. -/
  | resolve (key : Key) (tolerant : Bool)
  /-- Registers in the graph of the script. -/
  | register (step : Registration BodyAction) (tolerant : Bool)
  | fail (failure : Failure)
  | panic (text : String)
  | log (text : String)
  /-- Takes its time, which has no effect. -/
  | block
  /-- Logs the owner and the number of the arguments. -/
  | describeArgs
  /-- Logs whether a key is cached. -/
  | isCached (key : Key)
  /-- Appends a hook to the lifecycle among the arguments. -/
  | append (hook : HookScript HookAction)
  /-- Subscribes to the shutdown broadcaster among the arguments. -/
  | subscribe (name : String)

/-- How a named context is made. -/
inductive ContextOrigin where
  | background
  | child
  | same
  /-- With a deadline so many milliseconds from now. -/
  | timeout (millis : Nat)
  /-- With a deadline at so many milliseconds on the clock. -/
  | deadline (millis : Nat)

/-- A call that may have to wait for passes. -/
inductive PassKind where
  /-- Under a named context, or a new one. -/
  | lifecycle (phase : Phase) (context : Option String)
  /-- Under a context with the timeout for requirements. -/
  | timed (phase : Phase)
  /-- The same, and required to succeed. -/
  | required (phase : Phase)
  /-- By the application, under a named context or the timeout of its settings. -/
  | app (phase : Phase) (context : Option String)
  | appRequired (phase : Phase)
  | appRun

/-- The settings of an application: a text to read, and timeouts to set after that. -/
structure SettingsScript where
  json : Option String
  start : Option Duration
  stop : Option Duration

/-- The settings that come out of it. -/
def SettingsScript.timeouts (s : SettingsScript) : Except SettingsFault Timeouts :=
  match s.json.elim (.ok .standard) Timeouts.parse with
  | .error fault => .error fault
  | .ok timeouts =>
    let timeouts := s.start.elim timeouts timeouts.withStart
    .ok (s.stop.elim timeouts timeouts.withStop)

/-- A call on the builder of an application. -/
inductive BuildOption where
  | supply (key : Key)
  | provide (registration : Registration BodyAction)
  | invoke (name : String) (inputs : Inputs) (body : List BodyAction)

/-- A step of a script. -/
inductive Step where
  | register (registration : Registration BodyAction)
  | resolve (key : Key)
  | resolveKey (key : Key)
  /-- So many resolutions of one key, by callers that do not wait for each other. -/
  | parallel (key : Key) (callers : Nat)
  | invoke (name : String) (inputs : Inputs) (body : List BodyAction)
  | contains (key : Key)
  | isCached (key : Key)
  | graphSize
  | describeGraph
  | freshGraph
  | append (hook : HookScript HookAction)
  | requireAppend (hook : HookScript HookAction)
  | freshLifecycle
  /-- A call that may wait: within a limit, or without one as a task of that name. -/
  | pass (kind : PassKind) (limit : Nat) (task : Option String)
  | describeHook (hook : HookScript HookAction)
  | describeLifecycle
  | records
  | sleep (millis : Nat)
  | yield
  | join (task : String) (limit : Nat)
  | abort (task : String)
  | context (name : String) (origin : ContextOrigin) (parent : Option String)
  | cancel (context : String)
  | contextDone (context : String) (limit : Nat)
  | subscribe (name : String)
  | unsubscribe (name : String)
  | tryReceive (name : String)
  | receive (name : String) (limit : Nat)
  | broadcast (signal : Signal)
  | shutdown
  | freshShutdowner
  | describeShutdowner
  | build (settings : Option SettingsScript) (options : List BuildOption)
  | appSubscribe (name : String)
  | graphShutdown
  | osSignal (signal : Signal)

mutual

/-- The number of nodes that a registration may add, now or by its constructors later. -/
def Registration.bound : Registration BodyAction → Nat
  | .value _ => 1
  | .shared _ => 1
  | .constructor _ _ body => 1 + BodyAction.boundAll body
  | .injectable _ _ body => 1 + BodyAction.boundAll body
  | .bundle steps => Registration.boundAll steps

/-- The number of nodes that registrations may add. -/
def Registration.boundAll : List (Registration BodyAction) → Nat
  | [] => 0
  | step :: rest => step.bound + Registration.boundAll rest

/-- The number of nodes that an action may add. -/
def BodyAction.bound : BodyAction → Nat
  | .during _ action => action.bound
  | .register step _ => step.bound
  | _ => 0

/-- The number of nodes that actions may add. -/
def BodyAction.boundAll : List BodyAction → Nat
  | [] => 0
  | action :: rest => action.bound + BodyAction.boundAll rest

end

end ServiceHost.Rehearsal
