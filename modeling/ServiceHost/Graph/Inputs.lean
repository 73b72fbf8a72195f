import ServiceHost.Graph.Key
import ServiceHost.Text.Quoted

/-!
The inputs that a constructor declares: in order, a field name and the key of a component. An
optional input may be left out of the graph.
-/

namespace ServiceHost

/-- One declared input. Reference: `Param`. -/
structure Param where
  field : String
  key : Key
  optional : Bool
deriving DecidableEq, Repr

namespace Param

/-- A required input of a type. Reference: `Param::of`. -/
def of (field : String) (type : ComponentType) : Param :=
  ⟨field, Key.of type, false⟩

/-- A required input of a type and a name. Reference: `Param::named`. -/
def named (field : String) (type : ComponentType) (name : String) : Param :=
  ⟨field, Key.named type name, false⟩

/-- The same input, which may be left out. Reference: `Param::optional`. -/
def asOptional (p : Param) : Param :=
  { p with optional := true }

/-- The form in which an input stands inside a description. -/
def describe (p : Param) : String :=
  "Param \x7b field: " ++ Text.quote p.field ++ ", key: " ++ p.key.describe ++
    ", optional: " ++ toString p.optional ++ " \x7d"

end Param

/-- The inputs of one constructor, in declared order. Reference: `In`. -/
abbrev Inputs := List Param

namespace Inputs

/-- One more required input without a name. Reference: `In::with`. -/
def require (inputs : Inputs) (field : String) (type : ComponentType) : Inputs :=
  inputs ++ [Param.of field type]

/-- The first input of that field name. -/
def find (inputs : Inputs) (field : String) : Option Param :=
  List.find? (fun p => p.field == field) inputs

/-- The description of a list of inputs. -/
def describe (inputs : Inputs) : String :=
  "In \x7b params: [" ++ Text.join ", " (inputs.map Param.describe) ++ "] \x7d"

end Inputs

end ServiceHost
