import ServiceHost.Context
import ServiceHost.Lifecycle.Coordinator
import ServiceHost.Shutdown

/-!
Starting, stopping and running an application, cut where they wait. Each of these calls asks for one
pass after another and watches the pass together with a context: a pass that is over counts first,
and one that is still waiting when its context is done is given up. What is then reported is read
off the lifecycle, after the pass has left the gate. A start that fails is followed by a stop of
what had started, unless the lifecycle was in no state to be started.
-/

namespace ServiceHost

/-- What a call is about. -/
inductive CallStage where
  | starting
  /-- The start failed with an error, and what had started is being stopped. -/
  | rollingBack (start : LifecycleError)
  | stopping
deriving DecidableEq, Repr

/-- The phase of the pass that a call waits for. -/
def CallStage.phase : CallStage → Phase
  | .starting => .start
  | .rollingBack _ => .stop
  | .stopping => .stop

/-- The call that starts or stops an application. -/
def CallStage.ofPhase : Phase → CallStage
  | .start => .starting
  | .stop => .stopping

/-- A call that waits for a pass, which it watches together with a context.
Reference: `App::watch`. -/
structure AppCall where
  stage : CallStage
  pass : PassId
  context : Context
deriving DecidableEq, Repr

/-- What follows when the pass of a call is over. -/
inductive AfterPass where
  /-- The call is over. -/
  | finish (result : Except LifecycleError Unit)
  /-- What had started has to be stopped. -/
  | rollBack (start : LifecycleError)

/-- What follows when the pass of a call is over. Reference: `App::start_with` and
`App::stop_with`. -/
def CallStage.after : CallStage → Except LifecycleError Unit → AfterPass
  | .starting, .ok () => .finish (.ok ())
  | .starting, .error (.invalidTransition state action) =>
    .finish (.error (.invalidTransition state action))
  | .starting, .error e => .rollBack e
  | .rollingBack start, .ok () => .finish (.error start)
  | .rollingBack start, .error undo => .finish (.error (.rollback start undo))
  | .stopping, result => .finish result

namespace AppCall

variable {κ : Type}

/-- Asks for the pass of a stage. Reference: `App::watch`. -/
def ask (stage : CallStage) (context : Context) (c : Coordinator κ) : AppCall × Coordinator κ :=
  let (pass, c) := c.ask stage.phase
  (⟨stage, pass, context⟩, c)

/-- Gives up the pass because the context is done. The gate is free before anything is read of the
lifecycle. Reference: `App::watch`. -/
def giveUp (call : AppCall) (c : Coordinator κ) : Coordinator κ :=
  c.leave call.pass

/-- The error of a call that was given up for that reason, with the hook that was running and the
records of the phase, which are read one after the other. Reference: `App::watch`. -/
def report (call : AppCall) (reason : ContextError) (running : Option String)
    (records : HookRecords) : LifecycleError :=
  .timeout call.stage.phase running reason records

end AppCall

/-- What running an application is about: it starts, waits for a signal and stops. -/
inductive RunStage where
  | starting
  | waiting
  | stopping (signal : Signal)
deriving DecidableEq, Repr

/-- What follows when a call made by a run is over. -/
inductive AfterCall where
  /-- The run waits for a signal. -/
  | wait
  /-- The run is over. -/
  | finish (result : Except LifecycleError Signal)

/-- What follows when the call that a run waits for is over. While it waits for a signal there is no
such call. Reference: `App::run`. -/
def RunStage.after : RunStage → Except LifecycleError Unit → AfterCall
  | .starting, .ok () => .wait
  | .starting, .error e => .finish (.error e)
  | .waiting, _ => .wait
  | .stopping signal, .ok () => .finish (.ok signal)
  | .stopping _, .error e => .finish (.error e)

end ServiceHost
