/-!
Decimal numerals of whole numbers, and the fixed ranges they are read into. A numeral is a sign, if
the range has one to spare, and at least one digit; nothing else may stand beside them.
-/

namespace ServiceHost.Text

/-- The value of an ASCII digit. -/
def digit? (c : Char) : Option Nat :=
  if '0' ≤ c ∧ c ≤ '9' then some (c.toNat - '0'.toNat) else none

/-- Reads on from the value `n` of the digits so far. -/
def readDigitsFrom (n : Nat) : List Char → Option Nat
  | [] => some n
  | c :: rest =>
    match digit? c with
    | some d => readDigitsFrom (10 * n + d) rest
    | none => none

/-- The value of a list of digits; there must be at least one. -/
def readDigits : List Char → Option Nat
  | [] => none
  | cs => readDigitsFrom 0 cs

/-- A closed range of whole numbers. -/
structure IntRange where
  least : Int
  greatest : Int
deriving DecidableEq, Repr

namespace IntRange

/-- The numbers of `bits` binary digits. -/
def unsigned (bits : Nat) : IntRange :=
  ⟨0, Nat.pow 2 bits - 1⟩

/-- The numbers of `bits` binary digits in two's complement. -/
def signed (bits : Nat) : IntRange :=
  ⟨-Nat.pow 2 (bits - 1), Nat.pow 2 (bits - 1) - 1⟩

/-- The number lies in the range. -/
def contains (r : IntRange) (n : Int) : Bool :=
  r.least ≤ n && n ≤ r.greatest

/-- The number, if it lies in the range. -/
def check (r : IntRange) (n : Int) : Option Int :=
  if r.contains n then some n else none

/-- Reads a numeral. A plus sign is always allowed, a minus sign if the range has negative
numbers. -/
def read (r : IntRange) : List Char → Option Int
  | '+' :: cs => (readDigits cs).bind fun n => r.check n
  | '-' :: cs => if r.least < 0 then (readDigits cs).bind fun n => r.check (-n) else none
  | cs => (readDigits cs).bind fun n => r.check n

end IntRange

end ServiceHost.Text
