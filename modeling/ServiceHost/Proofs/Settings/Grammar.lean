import Mathlib.Data.List.Forall2
import ServiceHost.Settings.Reader

/-!
# The grammar of JSON, and settings in it

A JSON text is a value with blanks around it (`SpellsText`). How values are spelled is said by
relations between a value and its characters, one constructor for each production of RFC 8259:
numbers by the parts of their literals (`SpellsNumber`), strings by the units of sixteen bits that
they stand for (`SpellsChars`), so that an escaped pair is two units like any others, lists and
objects by what stands in them. Nothing is said of what is to be done with a text.

Which values hold settings is said apart (`Value.Gives`).
-/

namespace ServiceHost

namespace Json

/-! ## Tokens -/

/-- The characters may stand between tokens. -/
def Blank (cs : List Char) : Prop :=
  ∀ c ∈ cs, c = ' ' ∨ c = '\t' ∨ c = '\n' ∨ c = '\r'

/-- There are digits, and nothing else. -/
def Digits (cs : List Char) : Prop :=
  cs ≠ [] ∧ ∀ c ∈ cs, c.isDigit = true

/-- The digits before the point. -/
inductive SpellsWhole : List Char → Prop
  | zero : SpellsWhole ['0']
  | digits {c : Char} {cs : List Char} (hall : Digits (c :: cs)) (hzero : c ≠ '0') :
      SpellsWhole (c :: cs)

/-- The point and the digits after it, if there is one. -/
inductive SpellsFraction : Option (List Char) → List Char → Prop
  | absent : SpellsFraction none []
  | digits {cs : List Char} (h : Digits cs) : SpellsFraction (some cs) ('.' :: cs)

/-- The power of ten and its sign, if there is one. -/
inductive SpellsPower : Option (Bool × List Char) → List Char → Prop
  | absent : SpellsPower none []
  | bare {mark : Char} {cs : List Char} (hmark : mark = 'e' ∨ mark = 'E') (h : Digits cs) :
      SpellsPower (some (false, cs)) (mark :: cs)
  | plus {mark : Char} {cs : List Char} (hmark : mark = 'e' ∨ mark = 'E') (h : Digits cs) :
      SpellsPower (some (false, cs)) (mark :: '+' :: cs)
  | minus {mark : Char} {cs : List Char} (hmark : mark = 'e' ∨ mark = 'E') (h : Digits cs) :
      SpellsPower (some (true, cs)) (mark :: '-' :: cs)

/-- A number. -/
inductive SpellsNumber : NumberLiteral → List Char → Prop
  | intro (negative : Bool) {whole cs ds : List Char} {fraction : Option (List Char)}
      {power : Option (Bool × List Char)} (hwhole : SpellsWhole whole)
      (hfraction : SpellsFraction fraction cs) (hpower : SpellsPower power ds) :
      SpellsNumber ⟨negative, whole, fraction, power⟩
        ((if negative then ['-'] else []) ++ whole ++ cs ++ ds)

/-- The value of a hexadecimal digit. -/
inductive HexDigit (c : Char) : Nat → Prop
  | decimal (h : '0' ≤ c ∧ c ≤ '9') : HexDigit c (c.toNat - 48)
  | lower (h : 'a' ≤ c ∧ c ≤ 'f') : HexDigit c (c.toNat - 97 + 10)
  | upper (h : 'A' ≤ c ∧ c ≤ 'F') : HexDigit c (c.toNat - 65 + 10)

/-- What a character after a backslash stands for. -/
def escapes : List (Char × Char) :=
  [('"', '"'), ('\\', '\\'), ('/', '/'), ('b', '\x08'), ('f', '\x0c'), ('n', '\n'), ('r', '\r'),
    ('t', '\t')]

/-- The units of sixteen bits that a character stands for. -/
def units (c : Char) : List Nat :=
  if c.toNat < 0x10000 then [c.toNat]
  else [0xd800 + (c.toNat - 0x10000) / 0x400, 0xdc00 + (c.toNat - 0x10000) % 0x400]

/-- The characters between the quotes of a string. -/
inductive SpellsChars : List Nat → List Char → Prop
  | nil : SpellsChars [] []
  | plain {c : Char} {us : List Nat} {cs : List Char} (hcontrol : 0x20 ≤ c.toNat) (hquote : c ≠ '"')
      (hescape : c ≠ '\\') (hrest : SpellsChars us cs) : SpellsChars (units c ++ us) (c :: cs)
  | escape {c d : Char} {us : List Nat} {cs : List Char} (h : (c, d) ∈ escapes)
      (hrest : SpellsChars us cs) : SpellsChars (units d ++ us) ('\\' :: c :: cs)
  | unit {a b c d : Char} {i j k l : Nat} {us : List Nat} {cs : List Char} (ha : HexDigit a i)
      (hb : HexDigit b j) (hc : HexDigit c k) (hd : HexDigit d l) (hrest : SpellsChars us cs) :
      SpellsChars ((((i * 16 + j) * 16 + k) * 16 + l) :: us) ('\\' :: 'u' :: a :: b :: c :: d :: cs)

/-! ## Values -/

inductive Value where
  | null
  | boolean (value : Bool)
  | number (literal : NumberLiteral)
  | string (units : List Nat)
  | array (items : List Value)
  | object (members : List (List Nat × Value))

mutual

/-- A value. -/
inductive Spells : Value → List Char → Prop
  | null : Spells .null "null".toList
  | yes : Spells (.boolean true) "true".toList
  | no : Spells (.boolean false) "false".toList
  | number {literal : NumberLiteral} {cs : List Char} (h : SpellsNumber literal cs) :
      Spells (.number literal) cs
  | string {us : List Nat} {cs : List Char} (h : SpellsChars us cs) :
      Spells (.string us) ('"' :: (cs ++ ['"']))
  | emptyArray {blanks : List Char} (h : Blank blanks) :
      Spells (.array []) ('[' :: (blanks ++ [']']))
  | array {items : List Value} {cs : List Char} (h : SpellsItems items cs) :
      Spells (.array items) ('[' :: (cs ++ [']']))
  | emptyObject {blanks : List Char} (h : Blank blanks) :
      Spells (.object []) ('\x7b' :: (blanks ++ ['\x7d']))
  | object {members : List (List Nat × Value)} {cs : List Char} (h : SpellsMembers members cs) :
      Spells (.object members) ('\x7b' :: (cs ++ ['\x7d']))

/-- A value with blanks around it. -/
inductive SpellsItem : Value → List Char → Prop
  | intro {value : Value} {before cs after : List Char} (hbefore : Blank before)
      (hvalue : Spells value cs) (hafter : Blank after) : SpellsItem value (before ++ cs ++ after)

/-- The items of a list, at least one. -/
inductive SpellsItems : List Value → List Char → Prop
  | intro {value : Value} {more : List Value} {cs ds : List Char} (hitem : SpellsItem value cs)
      (hmore : MoreItems more ds) : SpellsItems (value :: more) (cs ++ ds)

/-- The items after another one. -/
inductive MoreItems : List Value → List Char → Prop
  | nil : MoreItems [] []
  | cons {items : List Value} {cs : List Char} (h : SpellsItems items cs) :
      MoreItems items (',' :: cs)

/-- A member of an object. -/
inductive SpellsMember : List Nat × Value → List Char → Prop
  | intro {us : List Nat} {value : Value} {before name after cs : List Char}
      (hbefore : Blank before) (hname : SpellsChars us name) (hafter : Blank after)
      (hvalue : SpellsItem value cs) :
      SpellsMember (us, value) (before ++ '"' :: name ++ '"' :: after ++ ':' :: cs)

/-- The members of an object, at least one. -/
inductive SpellsMembers : List (List Nat × Value) → List Char → Prop
  | intro {member : List Nat × Value} {more : List (List Nat × Value)} {cs ds : List Char}
      (hmember : SpellsMember member cs) (hmore : MoreMembers more ds) :
      SpellsMembers (member :: more) (cs ++ ds)

/-- The members after another one. -/
inductive MoreMembers : List (List Nat × Value) → List Char → Prop
  | nil : MoreMembers [] []
  | cons {members : List (List Nat × Value)} {cs : List Char} (h : SpellsMembers members cs) :
      MoreMembers members (',' :: cs)

end

/-- A whole text. -/
def SpellsText (value : Value) (text : String) : Prop :=
  SpellsItem value text.toList

/-! ## Settings -/

/-- The value is a whole number without a sign, which fits 64 bits. -/
inductive Value.Milliseconds : Value → UInt64 → Prop
  | intro {whole : List Char} {ms : UInt64} (h : Nat.ofDigitChars 10 whole 0 = ms.toNat) :
      Milliseconds (.number ⟨false, whole, none, none⟩) ms

/-- The member is a setting by its name, with its milliseconds. -/
inductive IsSetting : List Nat × Value → TimeoutField × UInt64 → Prop
  | start {value : Value} {ms : UInt64} (h : value.Milliseconds ms) :
      IsSetting ("start_timeout_ms".toList.flatMap units, value) (.start, ms)
  | stop {value : Value} {ms : UInt64} (h : value.Milliseconds ms) :
      IsSetting ("stop_timeout_ms".toList.flatMap units, value) (.stop, ms)

/-- The value holds settings: an object of some of them, none twice, or a list of the first or of
both. Those that are missing have fifteen seconds. -/
inductive Value.Gives : Value → Timeouts → Prop
  | object {members : List (List Nat × Value)} {settings : List (TimeoutField × UInt64)}
      (hmembers : List.Forall₂ IsSetting members settings)
      (hnodup : (settings.map Prod.fst).Nodup) :
      Gives (.object members)
        ⟨(settings.lookup .start).getD 15000, (settings.lookup .stop).getD 15000⟩
  | array {items : List Value} {settings : List UInt64}
      (hitems : List.Forall₂ Value.Milliseconds items settings) (hlength : settings.length ≤ 2) :
      Gives (.array items) ⟨settings[0]?.getD 15000, settings[1]?.getD 15000⟩

end Json

end ServiceHost
