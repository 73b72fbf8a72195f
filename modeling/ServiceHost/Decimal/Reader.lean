import ServiceHost.Decimal.Binary
import ServiceHost.Text.Numeral

/-!
Reads a decimal fraction: a sign, digits with a point among them or beside them, and a power of ten,
or one of the words for the numbers that have no digits. At least one digit is required before the
power, and at least one in it.
-/

namespace ServiceHost.Decimal

open ServiceHost.Text

/-- The ASCII letters of the text in lower case. -/
def lowerAscii (cs : List Char) : List Char :=
  cs.map Char.toLower

/-- The digits at the front, and what follows them. -/
def spanDigits (cs : List Char) : List Char × List Char :=
  (cs.takeWhile fun c => (digit? c).isSome, cs.dropWhile fun c => (digit? c).isSome)

/-- The power of ten at the end of a decimal fraction. -/
def readPower : List Char → Option Int
  | [] => some 0
  | c :: rest =>
    if c = 'e' ∨ c = 'E' then
      match rest with
      | '+' :: ds => (readDigits ds).map fun n => (n : Int)
      | '-' :: ds => (readDigits ds).map fun n => -(n : Int)
      | ds => (readDigits ds).map fun n => (n : Int)
    else none

/-- The digits and the power of a decimal fraction without a sign. -/
def readScaled (cs : List Char) : Option (Nat × Int) :=
  let (whole, rest) := spanDigits cs
  let (fraction, rest) := match rest with
    | '.' :: rest => spanDigits rest
    | rest => ([], rest)
  match readDigits (whole ++ fraction), readPower rest with
  | some n, some power => some (n, power - fraction.length)
  | _, _ => none

/-- A number without its sign. -/
def readUnsigned (cs : List Char) : Option Float :=
  let word := String.ofList (lowerAscii cs)
  if word = "inf" ∨ word = "infinity" then some (1 / 0)
  else if word = "nan" then some (0 / 0)
  else (readScaled cs).map fun (n, power) => toFloat n power

/-- The number that a text stands for. -/
def read (cs : List Char) : Option Float :=
  match cs with
  | '+' :: rest => readUnsigned rest
  | '-' :: rest => (readUnsigned rest).map fun x => -x
  | rest => readUnsigned rest

end ServiceHost.Decimal
