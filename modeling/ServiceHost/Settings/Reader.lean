import ServiceHost.Decimal.Layout
import ServiceHost.Settings.Number
import ServiceHost.Settings.Timeouts

/-!
Reads the settings from the text of a file: an object with the two settings as members, in any
order, either of which may be missing, or a list with the start timeout and the stop timeout. The
text is read from left to right and the first fault wins, be it text that is no JSON or JSON of the
wrong shape.
-/

namespace ServiceHost

/-- A value of the wrong kind. -/
inductive Unexpected where
  | integer (value : Int)
  | floating (value : Float)
  | boolean (value : Bool)
  | string (value : String)
  | null
  | sequence
  | map

/-- The words for a value of the wrong kind. -/
def Unexpected.text : Unexpected → String
  | .integer value => "integer `" ++ toString value ++ "`"
  | .floating value => "floating point `" ++ Decimal.Layout.settings.text value ++ "`"
  | .boolean value => "boolean `" ++ toString value ++ "`"
  | .string value => "string " ++ Text.quote value
  | .null => "null"
  | .sequence => "sequence"
  | .map => "map"

/-- What stands where another kind of value was found. -/
inductive Expected where
  | milliseconds
  | settings

/-- The words for what was expected. -/
def Expected.text : Expected → String
  | .milliseconds => "u64"
  | .settings => "struct RuntimeConfig"

/-- Why JSON is not of the right shape. -/
inductive ShapeError where
  | unknownField (name : String)
  | duplicateField (field : TimeoutField)
  | outOfRange (value : Int)
  | wrongType (found : Unexpected) (expected : Expected)

/-- What a reader is told. -/
def ShapeError.message : ShapeError → String
  | .unknownField name =>
    "unknown field `" ++ name ++ "`, expected `" ++ TimeoutField.start.name ++ "` or `" ++
      TimeoutField.stop.name ++ "`"
  | .duplicateField field => "duplicate field `" ++ field.name ++ "`"
  | .outOfRange value => "invalid value: " ++ (Unexpected.integer value).text ++ ", expected u64"
  | .wrongType found expected => "invalid type: " ++ found.text ++ ", expected " ++ expected.text

/-- Why a text holds no settings. -/
inductive SettingsFault where
  /-- The text is not JSON, has too many elements, or a number in it is out of reach. -/
  | malformed
  /-- The JSON has the wrong shape. -/
  | shape (error : ShapeError)

namespace SettingsReader

open ServiceHost.Json

/-- What was read so far. -/
structure Draft where
  start : Option UInt64
  stop : Option UInt64
deriving DecidableEq, Repr

/-- Nothing was read yet. -/
def Draft.empty : Draft :=
  ⟨none, none⟩

/-- The value of a setting, if it was read. -/
def Draft.get (d : Draft) : TimeoutField → Option UInt64
  | .start => d.start
  | .stop => d.stop

/-- The draft with one setting more. -/
def Draft.set (d : Draft) (value : UInt64) : TimeoutField → Draft
  | .start => { d with start := some value }
  | .stop => { d with stop := some value }

/-- The settings, those that were not read by default. -/
def Draft.complete (d : Draft) : Timeouts :=
  ⟨d.start.getD Timeouts.defaultMs, d.stop.getD Timeouts.defaultMs⟩

/-- A result with the characters after it. -/
abbrev Read (α : Type) : Type :=
  Except SettingsFault (α × List Char)

/-- The fault of a value that stands where another kind of value was expected. Numbers, strings and
words are read to their end first, lists and objects are not. -/
def unexpected (expected : Expected) (cs : List Char) : SettingsFault :=
  let wrong := fun found => SettingsFault.shape (.wrongType found expected)
  match cs with
  | 'n' :: rest => if (readWord "ull".toList rest).isSome then wrong .null else .malformed
  | 't' :: rest => if (readWord "rue".toList rest).isSome then wrong (.boolean true) else .malformed
  | 'f' :: rest =>
    if (readWord "alse".toList rest).isSome then wrong (.boolean false) else .malformed
  | '"' :: rest =>
    match readString rest with
    | some (text, _) => wrong (.string (String.ofList text))
    | none => .malformed
  | '[' :: _ => wrong .sequence
  | '\x7b' :: _ => wrong .map
  | cs =>
    match (readNumber cs).bind fun (literal, _) => literal.value? with
    | some (.unsigned n) => wrong (.integer n)
    | some (.negative n) => wrong (.integer n)
    | some (.floating x) => wrong (.floating x)
    | none => .malformed

/-- A number of milliseconds. -/
def readMilliseconds (cs : List Char) : Read UInt64 :=
  match skip cs with
  | [] => .error .malformed
  | c :: rest =>
    if c = '-' ∨ isDigit c then
      match readNumber (c :: rest) with
      | none => .error .malformed
      | some (literal, after) =>
        match literal.value? with
        | none => .error .malformed
        | some (.unsigned n) => .ok (.ofNat n, after)
        | some (.negative n) => .error (.shape (.outOfRange n))
        | some (.floating x) => .error (.shape (.wrongType (.floating x) .milliseconds))
    else .error (unexpected .milliseconds (c :: rest))

/-- The setting of that name. -/
def fieldOf (name : List Char) : Option TimeoutField :=
  if name = TimeoutField.start.name.toList then some .start
  else if name = TimeoutField.stop.name.toList then some .stop
  else none

/-- The rest of a member from after the opening quote of its name on. -/
def readMember (draft : Draft) (cs : List Char) : Read Draft :=
  match readString cs with
  | none => .error .malformed
  | some (name, rest) =>
    match fieldOf name with
    | none => .error (.shape (.unknownField (String.ofList name)))
    | some field =>
      if (draft.get field).isSome then .error (.shape (.duplicateField field))
      else match skip rest with
        | ':' :: rest =>
          match readMilliseconds rest with
          | .ok (value, rest) => .ok (draft.set value field, rest)
          | .error fault => .error fault
        | _ => .error .malformed

/-- The members that follow another one. There are two names and none may be repeated, so that two
more members settle the matter. -/
def readMembers : Nat → Draft → List Char → Read Draft
  | tries, draft, cs =>
    match skip cs, tries with
    | '\x7d' :: rest, _ => .ok (draft, rest)
    | ',' :: rest, tries + 1 =>
      match skip rest with
      | '"' :: rest =>
        match readMember draft rest with
        | .ok (draft, rest) => readMembers tries draft rest
        | .error fault => .error fault
      | _ => .error .malformed
    | _, _ => .error .malformed

/-- An object from after its opening brace on. -/
def readObject (cs : List Char) : Read Draft :=
  match skip cs with
  | '\x7d' :: rest => .ok (.empty, rest)
  | '"' :: rest =>
    match readMember .empty rest with
    | .ok (draft, rest) => readMembers 2 draft rest
    | .error fault => .error fault
  | _ => .error .malformed

/-- The end of a list. -/
def readListEnd (draft : Draft) (cs : List Char) : Read Draft :=
  match skip cs with
  | ']' :: rest => .ok (draft, rest)
  | _ => .error .malformed

/-- The second element of a list and what follows, from after the first on. -/
def readSecond (start : UInt64) (cs : List Char) : Read Draft :=
  match skip cs with
  | ']' :: rest => .ok (⟨some start, none⟩, rest)
  | ',' :: rest =>
    match skip rest with
    | ']' :: _ => .error .malformed
    | rest =>
      match readMilliseconds rest with
      | .ok (stop, rest) => readListEnd ⟨some start, some stop⟩ rest
      | .error fault => .error fault
  | _ => .error .malformed

/-- A list from after its opening bracket on. -/
def readList (cs : List Char) : Read Draft :=
  match skip cs with
  | ']' :: rest => .ok (.empty, rest)
  | rest =>
    match readMilliseconds rest with
    | .ok (start, rest) => readSecond start rest
    | .error fault => .error fault

/-- A list or an object. -/
def readDraft (cs : List Char) : Read Draft :=
  match skip cs with
  | '[' :: rest => readList rest
  | '\x7b' :: rest => readObject rest
  | [] => .error .malformed
  | rest => .error (unexpected .settings rest)

end SettingsReader

/-- The settings that a text holds. Reference: `RuntimeConfig::from_json`. -/
def Timeouts.parse (text : String) : Except SettingsFault Timeouts :=
  match SettingsReader.readDraft text.toList with
  | .error fault => .error fault
  | .ok (draft, rest) =>
    match Json.skip rest with
    | [] => .ok draft.complete
    | _ => .error .malformed

end ServiceHost
