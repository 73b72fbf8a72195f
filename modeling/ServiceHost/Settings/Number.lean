import ServiceHost.Decimal.Binary
import ServiceHost.Settings.Json

/-!
What a number in a settings file is read as. A whole number without fraction and power is read
exactly if it fits 64 bits; every other number is read in floating-point arithmetic, from as many of
its digits as fit 64 bits and a power of ten, and one that would be infinite is refused.
-/

namespace ServiceHost.Json

open ServiceHost.Text ServiceHost.Decimal

/-- The value of a number. -/
inductive Number where
  /-- A whole number without a sign. -/
  | unsigned (value : Nat)
  /-- A whole number below zero. -/
  | negative (value : Int)
  /-- Any other number. -/
  | floating (value : Float)

/-- The greatest number of 64 bits. -/
def greatest : Nat := Nat.pow 2 64 - 1

/-- The digits that fit in front of a power of ten, and that power. -/
structure Significand where
  value : Nat
  exponent : Int
  /-- The last digit did not fit, and no later one is tried. -/
  full : Bool

/-- Takes in a digit before the point. One that does not fit raises the power. -/
def Significand.addWhole (s : Significand) (c : Char) : Significand :=
  let next := s.value * 10 + (digit? c).getD 0
  if s.full || greatest < next then { s with exponent := s.exponent + 1, full := true }
  else { s with value := next }

/-- Takes in a digit after the point. One that does not fit is dropped. -/
def Significand.addFraction (s : Significand) (c : Char) : Significand :=
  let next := s.value * 10 + (digit? c).getD 0
  if s.full || greatest < next then { s with full := true }
  else { s with value := next, exponent := s.exponent - 1 }

/-- The digits of a literal, taken in from the first on. After the point digits are tried anew. -/
def NumberLiteral.significand (l : NumberLiteral) : Significand :=
  let whole := l.whole.foldl Significand.addWhole ⟨0, 0, false⟩
  (l.fraction.getD []).foldl Significand.addFraction { whole with full := false }

/-- A power of ten as a floating-point number. -/
def powerOfTen (n : Nat) : Float :=
  Float.ofScientific 1 false n

/-- Multiplies by a power of ten. Large powers are applied in parts, a product that is too large is
refused, and a quotient stops at zero. -/
def scale (x : Float) (exponent : Int) : Nat → Option Float
  | 0 => some 0
  | parts + 1 =>
    if exponent.natAbs ≤ 308 then
      if 0 ≤ exponent then
        let product := x * powerOfTen exponent.natAbs
        if product.isInf then none else some product
      else some (x / powerOfTen exponent.natAbs)
    else if x == 0 then some x
    else if 0 ≤ exponent then none
    else scale (x / powerOfTen 308) (exponent + 308) parts

/-- The power of ten of a literal. -/
def NumberLiteral.powerValue (l : NumberLiteral) : Int :=
  match l.power with
  | none => 0
  | some (negative, digits) =>
    let n := (readDigits digits).getD 0
    if negative then -(n : Int) else n

/-- The number as a floating-point number, if there is one. -/
def NumberLiteral.floating? (l : NumberLiteral) : Option Float :=
  let s := l.significand
  let size := if s.value = 0 then some 0
    else scale (toFloat s.value 0) (s.exponent + l.powerValue) 4
  size.map fun x => if l.negative then -x else x

/-- The value of a literal, if its number is in reach. -/
def NumberLiteral.value? (l : NumberLiteral) : Option Number :=
  let n := (readDigits l.whole).getD 0
  match l.fraction, l.power with
  | none, none =>
    if greatest < n then l.floating?.map .floating
    else if !l.negative then some (.unsigned n)
    else if n = 0 ∨ Nat.pow 2 63 < n then some (.floating (-(toFloat n 0)))
    else some (.negative (-(n : Int)))
  | _, _ => l.floating?.map .floating

end ServiceHost.Json
