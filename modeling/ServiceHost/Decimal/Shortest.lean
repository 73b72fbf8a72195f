import ServiceHost.Decimal.Binary

/-!
The shortest decimal that reads back as a given number. Every real strictly between the midpoints to
the two neighbouring numbers reads back as it, and so do the midpoints themselves if the significand
is even. For one digit, two digits and so on, the decimals next to the number are tried, and the
first count of digits with one that reads back wins.
-/

namespace ServiceHost.Decimal

/-- A positive real as a quotient of whole numbers. -/
structure Quotient where
  num : Nat
  den : Nat

/-- `digits * 10 ^ exponent`. -/
structure Scaled where
  digits : Nat
  exponent : Int
deriving DecidableEq, Repr

/-- Which of two equally near decimals is taken. -/
inductive Tie where
  | toEven
  | up
deriving DecidableEq, Repr

/-- The reals that read back as one number, all over one denominator. -/
structure Neighbourhood where
  least : Nat
  value : Nat
  greatest : Nat
  den : Nat
  closed : Bool

/-- The reals between the midpoints around a magnitude. -/
def Magnitude.neighbourhood (m : Magnitude) : Neighbourhood :=
  let scale := Nat.pow 2 (m.exponent - 2).toNat
  { least := (4 * m.significand - if m.narrowBelow then 1 else 2) * scale
    value := 4 * m.significand * scale
    greatest := (4 * m.significand + 2) * scale
    den := Nat.pow 2 (2 - m.exponent).toNat
    closed := m.significand % 2 == 0 }

/-- The exponent of the first digit of a quotient: the `e` with `10 ^ e ≤ num / den < 10 ^ (e +
1)`. -/
def Quotient.leadingExponent (q : Quotient) : Int :=
  if q.den ≤ q.num then
    ((Nat.toDigits 10 (q.num / q.den)).length : Int) - 1
  else
    let places := (Nat.toDigits 10 (q.den / q.num)).length
    if q.den ≤ q.num * Nat.pow 10 (places - 1) then 1 - (places : Int) else -(places : Int)

/-- The whole part of `num / den * 10 ^ places`, with the denominator it is a part of. -/
def Quotient.shift (q : Quotient) (places : Int) : Quotient :=
  ⟨q.num * Nat.pow 10 places.toNat, q.den * Nat.pow 10 (-places).toNat⟩

/-- The decimal `digits * 10 ^ exponent` reads back. -/
def Neighbourhood.holds (n : Neighbourhood) (s : Scaled) : Bool :=
  let x := s.digits * Nat.pow 10 s.exponent.toNat * n.den
  let unit := Nat.pow 10 (-s.exponent).toNat
  if n.closed then n.least * unit ≤ x && x ≤ n.greatest * unit
  else n.least * unit < x && x < n.greatest * unit

/-- The one of the two decimals next to the value, with last place `10 ^ exponent`, that reads back,
and the nearer one if both do. -/
def Neighbourhood.onGrid (n : Neighbourhood) (tie : Tie) (exponent : Int) : Option Scaled :=
  let q := (Quotient.mk n.value n.den).shift (-exponent)
  let below : Scaled := ⟨q.num / q.den, exponent⟩
  let above : Scaled := ⟨q.num / q.den + 1, exponent⟩
  let rest := q.num % q.den
  match n.holds below, n.holds above with
  | true, false => some below
  | false, true => some above
  | false, false => none
  | true, true =>
    if 2 * rest < q.den then some below
    else if q.den < 2 * rest then some above
    else match tie with
      | .up => some above
      | .toEven => if below.digits % 2 = 0 then some below else some above

/-- Tries grids of `count` digits and more. -/
def Neighbourhood.search (n : Neighbourhood) (tie : Tie) (leading : Int) (count : Nat) :
    Nat → Option Scaled
  | 0 => none
  | tries + 1 =>
    match n.onGrid tie (leading + 1 - count) with
    | some s => some s
    | none => n.search tie leading (count + 1) tries

/-- Drops the zeros at the end of the digits. -/
def Scaled.normalizeWithin (s : Scaled) : Nat → Scaled
  | 0 => s
  | fuel + 1 =>
    if s.digits ≠ 0 ∧ s.digits % 10 = 0 then
      Scaled.normalizeWithin ⟨s.digits / 10, s.exponent + 1⟩ fuel
    else s

/-- The fewest digits that read back as the magnitude. Seventeen always do. -/
def Magnitude.shortest (m : Magnitude) (tie : Tie) : Scaled :=
  let n := m.neighbourhood
  let found := n.search tie (Quotient.mk n.value n.den).leadingExponent 1 17
  (found.getD ⟨m.significand, 0⟩).normalizeWithin 20

end ServiceHost.Decimal
