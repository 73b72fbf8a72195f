import ServiceHost.Context
import ServiceHost.Failure
import ServiceHost.Lifecycle.Record

/-!
The states of a lifecycle, and why a pass over its hooks fails.
-/

namespace ServiceHost

/-- Where a lifecycle is between start and stop. Reference: `LifecycleState`. -/
inductive LifecycleState where
  | notStarted
  | starting
  | started
  | startFailed
  | stopping
  | stopped
deriving DecidableEq, Repr

/-- The words for a state. -/
def LifecycleState.text : LifecycleState → String
  | .notStarted => "not started"
  | .starting => "starting"
  | .started => "started"
  | .startFailed => "start failed"
  | .stopping => "stopping"
  | .stopped => "stopped"

/-- The name of a state in a description. -/
def LifecycleState.name : LifecycleState → String
  | .notStarted => "NotStarted"
  | .starting => "Starting"
  | .started => "Started"
  | .startFailed => "StartFailed"
  | .stopping => "Stopping"
  | .stopped => "Stopped"

/-- The pass that a callback, a record or an error belongs to. Reference: `Phase`. -/
inductive Phase where
  | start
  | stop
deriving DecidableEq, Repr

/-- The word for a phase. -/
def Phase.text : Phase → String
  | .start => "start"
  | .stop => "stop"

/-- A stop callback that failed. Reference: `StopFailure`. -/
structure StopFailure where
  caller : String
  error : Failure
deriving DecidableEq, Repr

/-- The stop callbacks that failed in one pass, in the order in which they ran.
Reference: `StopFailures`. -/
abbrev StopFailures := List StopFailure

/-- The number of failures and the outermost message of each. -/
def StopFailures.text (fs : StopFailures) : String :=
  toString fs.length ++ " stop hook(s) failed: " ++
    "; ".intercalate (fs.map fun f => f.caller ++ ": " ++ f.error.message)

/-- The cause of a failed pass. Reference: `LifecycleError`. -/
inductive LifecycleError where
  /-- A start callback failed. -/
  | hookFailed (phase : Phase) (caller : String) (source : Failure)
  /-- The context was done before the callback of that hook could run. -/
  | cancelled (phase : Phase) (caller : String) (reason : ContextError) (failures : StopFailures)
  /-- The context ran out while a callback was running. -/
  | timeout (phase : Phase) (caller : Option String) (reason : ContextError) (records : HookRecords)
  /-- Stop callbacks failed; all others still ran. -/
  | stopFailed (failures : StopFailures)
  /-- The start failed, and so did stopping what had started. -/
  | rollback (start undo : LifecycleError)
  /-- The action is not possible in that state. -/
  | invalidTransition (state : LifecycleState) (action : String)
  /-- The name given to a hook is blank. -/
  | blankCaller
deriving DecidableEq, Repr

namespace LifecycleError

/-- The name of the cause. -/
def kind : LifecycleError → String
  | hookFailed .. => "HookFailed"
  | cancelled .. => "Cancelled"
  | timeout .. => "Timeout"
  | stopFailed .. => "StopFailed"
  | rollback .. => "Rollback"
  | invalidTransition .. => "InvalidTransition"
  | blankCaller => "BlankCaller"

/-- What a reader is told. -/
def message : LifecycleError → String
  | hookFailed phase caller _ => phase.text ++ " hook from " ++ caller ++ " failed"
  | cancelled phase caller reason failures =>
    phase.text ++ " aborted before running hook from " ++ caller ++ ": " ++ reason.message ++
      (if failures.isEmpty then "" else "; " ++ failures.text)
  | timeout phase caller reason _ =>
    phase.text ++ " timed out" ++
      (match caller with
      | none => ""
      | some caller => " while running hook from " ++ caller) ++ ": " ++ reason.message
  | stopFailed failures => failures.text
  | rollback start undo =>
    "start failed: " ++ start.message ++ "; rollback failed: " ++ undo.message
  | invalidTransition state action => "cannot " ++ action ++ " a lifecycle that is " ++ state.text
  | blankCaller => "hook caller attribution must not be blank"

/-- The messages below the error's own, the nearest first. -/
def causes : LifecycleError → List String
  | hookFailed _ _ source => source.messages
  | _ => []

/-- The hook that was running or about to run, if it is known.
Reference: `LifecycleError::caller`. -/
def caller? : LifecycleError → Option String
  | hookFailed _ caller _ => some caller
  | cancelled _ caller _ _ => some caller
  | timeout _ caller _ _ => caller
  | rollback start _ => start.caller?
  | _ => none

/-- The error as the failure of a callback that passes it on. -/
def toFailure (e : LifecycleError) : Failure :=
  ⟨e.message, e.causes⟩

/-- The error with everything below it, on one line. -/
def report (e : LifecycleError) : String :=
  e.toFailure.report

end LifecycleError

end ServiceHost
