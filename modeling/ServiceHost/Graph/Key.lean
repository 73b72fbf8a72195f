/-!
Keys, under which components are registered and resolved. A key is a type and perhaps a name, so
that two components of one type can stand side by side.
-/

namespace ServiceHost

/-- A type of component, known by its full name. -/
structure ComponentType where
  name : String
deriving DecidableEq, Repr

/-- A type, and a name if it is one of several of that type. Reference: `Key`. -/
structure Key where
  type : ComponentType
  name : Option String
deriving DecidableEq, Repr

namespace Key

/-- The key of the one component of a type. Reference: `Key::of`. -/
def of (type : ComponentType) : Key :=
  ⟨type, none⟩

/-- The key of a named component. Reference: `Key::named`. -/
def named (type : ComponentType) (name : String) : Key :=
  ⟨type, some name⟩

/-- Components under this key have that type, whatever their name. Reference: `Key::is`. -/
def is (k : Key) (type : ComponentType) : Bool :=
  k.type == type

/-- The type, and the name in brackets as it stands. -/
def text (k : Key) : String :=
  match k.name with
  | none => k.type.name
  | some name => k.type.name ++ "[name=\"" ++ name ++ "\"]"

/-- The form in which a key stands inside a description. -/
def describe (k : Key) : String :=
  "Key(" ++ k.text ++ ")"

end Key

end ServiceHost
