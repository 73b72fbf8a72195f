import ServiceHost.Lifecycle.Error

/-!
Calls that are required to succeed, for checks that read as a list of steps. If one fails, the
caller panics with the whole error on one line.
-/

namespace ServiceHost

/-- What is required to succeed. -/
inductive Requirement where
  | append
  | lifecycle (phase : Phase)
  | app (phase : Phase)
deriving DecidableEq, Repr

/-- What a panic says before the error. -/
def Requirement.text : Requirement → String
  | .append => "append failed: "
  | .lifecycle phase => "lifecycle did not " ++ phase.text ++ " cleanly: "
  | .app phase => "app did not " ++ phase.text ++ " cleanly: "

/-- The text of the panic if what was required failed. Reference: `TestLifecycle::require_start` and
`TestApp::require_start`. -/
def Requirement.panic (r : Requirement) (e : LifecycleError) : String :=
  r.text ++ e.report

/-- The milliseconds that a required start or stop of a lifecycle may take. -/
def requirementMs : Nat := 15000

end ServiceHost
