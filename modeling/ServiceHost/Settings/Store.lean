import ServiceHost.Decimal.Layout
import ServiceHost.Decimal.Reader
import ServiceHost.Settings.Timeouts
import ServiceHost.Text.Blank

/-!
A store of settings as texts under names, filled from an environment of variables, and readings of
its values. A value is stripped of blanks at its ends and read as one of a few kinds; the two
timeouts are read from it under fixed names.
-/

namespace ServiceHost

/-- Texts under distinct names. Reference: `ConfigService`. -/
structure Store where
  entries : List (String × String)
deriving DecidableEq, Repr

namespace Store

/-- The store without values. Reference: `ConfigService::new`. -/
def empty : Store :=
  ⟨[]⟩

/-- The value of a name. Reference: `ConfigService::get`. -/
def get (s : Store) (key : String) : Option String :=
  s.entries.lookup key

/-- The store with a value for a name, in place of any that it had.
Reference: `ConfigService::set`. -/
def set (s : Store) (key value : String) : Store :=
  ⟨(key, value) :: s.entries.filter fun e => e.1 != key⟩

/-- A store with the variables of an environment whose names begin with `start`. Of two values of
one name the later counts. Reference: `ConfigService::from_env`. -/
def ofEnvironment (environment : List (String × String)) (start : String) : Store :=
  (environment.filter fun e => start.toList.isPrefixOf e.1.toList).foldl
    (fun s e => s.set e.1 e.2) empty

end Store

/-- A value that cannot be read. Reference: `ConfigError`. -/
structure InvalidSetting where
  key : String
  value : String
deriving DecidableEq, Repr

/-- What a reader is told. -/
def InvalidSetting.message (e : InvalidSetting) : String :=
  "invalid value " ++ Text.quote e.value ++ " for " ++ e.key

/-- The value of a name as `read` understands it, without blanks at its ends.
Reference: `ConfigService::get_parsed`. -/
def Store.parse {α : Type} (s : Store) (read : List Char → Option α) (key : String) :
    Except InvalidSetting (Option α) :=
  match s.get key with
  | none => .ok none
  | some value =>
    match read (Text.trimChars value.toList) with
    | some result => .ok (some result)
    | none => .error ⟨key, value⟩

/-- The kinds of values that can be read. -/
inductive SettingKind where
  | integer (range : Text.IntRange)
  | boolean
  | character
  | text
  | number

/-- Reads a value of a kind, and returns its text. -/
def SettingKind.read (kind : SettingKind) (cs : List Char) : Option String :=
  match kind with
  | .integer range => (range.read cs).map toString
  | .boolean =>
    let word := String.ofList cs
    if word = "true" ∨ word = "false" then some word else none
  | .character => if cs.length = 1 then some (String.ofList cs) else none
  | .text => some (String.ofList cs)
  | .number => (Decimal.read cs).map Decimal.Layout.reading.text

namespace Timeouts

/-- What the names of all settings begin with. -/
def keyStart : String := "KEYSTONE_"

/-- The name under which a setting is stored. -/
def storeKey : TimeoutField → String
  | .start => keyStart ++ "START_TIMEOUT_MS"
  | .stop => keyStart ++ "STOP_TIMEOUT_MS"

/-- Reads a number of milliseconds. -/
def readMs (cs : List Char) : Option UInt64 :=
  ((Text.IntRange.unsigned 64).read cs).map fun n => .ofNat n.toNat

/-- The settings in a store, those that are not set by default. The start timeout is read first.
Reference: `RuntimeConfig::from_service`. -/
def ofStore (s : Store) : Except InvalidSetting Timeouts :=
  match s.parse readMs (storeKey .start) with
  | .error e => .error e
  | .ok start =>
    match s.parse readMs (storeKey .stop) with
    | .error e => .error e
    | .ok stop => .ok ⟨start.getD defaultMs, stop.getD defaultMs⟩

/-- The settings in an environment of variables. Reference: `RuntimeConfig::from_env`. -/
def ofEnvironment (environment : List (String × String)) : Except InvalidSetting Timeouts :=
  ofStore (Store.ofEnvironment environment keyStart)

end Timeouts

end ServiceHost
