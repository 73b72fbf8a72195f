import ServiceHost.Graph.Error
import ServiceHost.Graph.Inputs

/-!
Components as the graph hands them out, and the arguments of one call: each declared input with the
component found for it, or with none if the input is optional and was left out. A component carries
its type, and access by a type is checked against it.
-/

namespace ServiceHost

/-- A component of the graph: a value and the type it was made as. Reference: `Instance`. -/
structure Instance (ι : Type) where
  type : ComponentType
  value : ι
deriving DecidableEq, Repr

/-- The value of a component, if it has that type. Reference: `downcast`. -/
def Instance.as {ι : Type} (i : Instance ι) (type : ComponentType) : Except GraphError ι :=
  if i.type = type then .ok i.value else .error (.downcastFailed type.name)

/-- The resolved inputs of one call, in declared order, and the key they were resolved for.
Reference: `Args`. -/
structure Args (ι : Type) where
  owner : Key
  entries : List (Param × Option (Instance ι))

namespace Args

variable {ι : Type}

/-- The number of declared inputs. Reference: `Args::len`. -/
def size (args : Args ι) : Nat :=
  args.entries.length

/-- The first input of that field name. -/
def entry? (args : Args ι) (field : String) : Option (Param × Option (Instance ι)) :=
  args.entries.find? fun e => e.1.field == field

/-- The component of an input that may have been left out. Reference: `Args::optional`. -/
def optional (args : Args ι) (field : String) (type : ComponentType) :
    Except GraphError (Option ι) :=
  match args.entry? field with
  | none => .error (.unknownField args.owner field)
  | some (_, none) => .ok none
  | some (_, some found) =>
    match found.as type with
    | .ok value => .ok (some value)
    | .error e => .error e

/-- The component of an input that has to be there. Reference: `Args::get`. -/
def get (args : Args ι) (field : String) (type : ComponentType) : Except GraphError ι :=
  match args.entry? field with
  | none => .error (.unknownField args.owner field)
  | some (param, none) => .error (.missingDependency param.key (some args.owner))
  | some (_, some found) => found.as type

end Args

end ServiceHost
