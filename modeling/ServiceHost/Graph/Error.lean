import ServiceHost.Failure
import ServiceHost.Graph.Key
import ServiceHost.Text.Quoted

/-!
Why a registration, a resolution or an invocation fails.
-/

namespace ServiceHost

/-- The cause of a failure of the graph. Reference: `Error`. -/
inductive GraphError where
  /-- The key was registered before. -/
  | duplicateRegistration (key : Key)
  /-- Nothing is registered under the key, which `requiredBy`, if given, requires. -/
  | missingDependency (key : Key) (requiredBy : Option Key)
  /-- The constructor of the key failed. -/
  | constructor (key : Key) (source : Failure)
  /-- The declared inputs lead back to where they started. -/
  | circularDependency (cycle : String)
  /-- The component is not of the type that was asked for. -/
  | downcastFailed (typeName : String)
  /-- The owner declares no input of that field name. -/
  | unknownField (owner : Key) (field : String)
  /-- The invoked function failed. -/
  | invokeFailed (function : String) (source : Failure)
deriving DecidableEq, Repr

namespace GraphError

/-- The name of the cause. -/
def kind : GraphError → String
  | duplicateRegistration _ => "DuplicateRegistration"
  | missingDependency _ _ => "MissingDependency"
  | constructor _ _ => "Constructor"
  | circularDependency _ => "CircularDependency"
  | downcastFailed _ => "DowncastFailed"
  | unknownField _ _ => "UnknownField"
  | invokeFailed _ _ => "InvokeFailed"

/-- What a reader is told. -/
def message : GraphError → String
  | duplicateRegistration key => key.text ++ " is already registered"
  | missingDependency key (some parent) =>
    parent.text ++ " dependency of type " ++ key.text ++ " is not registered"
  | missingDependency key none => "type " ++ key.text ++ " is not registered"
  | constructor key _ => "constructor for " ++ key.text ++ " failed"
  | circularDependency cycle => "circular dependency detected: " ++ cycle
  | downcastFailed typeName => "failed to downcast type: " ++ typeName
  | unknownField owner field =>
    owner.text ++ " declares no input named " ++ Text.quote field
  | invokeFailed function _ => "invoke " ++ function ++ " failed"

/-- The messages below the error's own, the nearest first. -/
def causes : GraphError → List String
  | constructor _ source => source.messages
  | invokeFailed _ source => source.messages
  | _ => []

/-- The error lies in how the graph was put together, so that trying again cannot help.
Reference: `Error::is_configuration`. -/
def isConfiguration : GraphError → Bool
  | duplicateRegistration _ => true
  | missingDependency _ _ => true
  | circularDependency _ => true
  | unknownField _ _ => true
  | _ => false

/-- The error as the failure of a callback that passes it on. -/
def toFailure (e : GraphError) : Failure :=
  ⟨e.message, e.causes⟩

end GraphError

/-- The keys of a cycle, the first of them once more at the end. -/
def cycleText (cycle : List Key) : String :=
  Text.join " -> " (cycle.map Key.text)

end ServiceHost
