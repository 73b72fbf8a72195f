/-!
Floating-point numbers taken apart: a finite one is a whole significand times a power of two. The
functions below work on those whole numbers, so that nothing rests on floating-point arithmetic.
-/

namespace ServiceHost.Decimal

/-- The size of a finite number other than zero, `significand * 2 ^ exponent`. The gap below it is
half as wide as the one above exactly when `narrowBelow` is set. -/
structure Magnitude where
  significand : Nat
  exponent : Int
  narrowBelow : Bool
deriving DecidableEq, Repr

/-- What a floating-point number is, its sign apart. -/
inductive Size where
  | zero
  | finite (magnitude : Magnitude)
  | infinite
  | notANumber
deriving DecidableEq, Repr

/-- The sign and the size in the 64 bits of a number: one bit of sign, eleven of exponent and
fifty-two of fraction. -/
def decode (bits : UInt64) : Bool × Size :=
  let n := bits.toNat
  let negative := n / Nat.pow 2 63 == 1
  let exponent : Nat := n / Nat.pow 2 52 % Nat.pow 2 11
  let fraction := n % Nat.pow 2 52
  if exponent = Nat.pow 2 11 - 1 then
    (negative, if fraction = 0 then .infinite else .notANumber)
  else if exponent = 0 then
    (negative, if fraction = 0 then .zero else .finite ⟨fraction, -1074, false⟩)
  else
    let significand := Nat.pow 2 52 + fraction
    (negative, .finite ⟨significand, (exponent : Int) - 1075, fraction == 0 && exponent != 1⟩)

/-- The sign and the size of a number. -/
def ofFloat (x : Float) : Bool × Size :=
  decode x.toBits

/-- The number nearest to `significand * 10 ^ exponent`. The powers of ten that are out of reach of
every finite number are settled first, so that no large power is computed. -/
def toFloat (significand : Nat) (exponent : Int) : Float :=
  let places := (Nat.toDigits 10 significand).length + exponent
  if significand = 0 ∨ places < -330 then 0
  else if places > 310 then 1 / 0
  else Float.ofScientific significand (exponent < 0) exponent.natAbs

end ServiceHost.Decimal
