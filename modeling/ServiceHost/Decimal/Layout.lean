import ServiceHost.Decimal.Shortest

/-!
How the digits of a number are laid out: with the point in its place, or as a first digit, a
fraction and a power of ten. The two layouts in use differ in a few choices, which a record holds.
-/

namespace ServiceHost.Decimal

/-- The choices of a layout. -/
structure Layout where
  /-- The exponents of a first digit for which the point is put in its place. -/
  leastPlain : Int
  greatestPlain : Int
  /-- A power of ten that is not negative gets a plus sign. -/
  plusSign : Bool
  tie : Tie

/-- The layout in which a reading of a setting is shown. -/
def Layout.reading : Layout :=
  ⟨-4, 15, false, .up⟩

/-- The layout in which a number of a settings file is shown. -/
def Layout.settings : Layout :=
  ⟨-5, 15, true, .toEven⟩

/-- Digits with the point in its place, and `.0` after a whole number. -/
def plainText (digits : List Char) (exponent : Int) : List Char :=
  if 0 ≤ exponent then digits ++ List.replicate exponent.toNat '0' ++ ['.', '0']
  else
    let places := (-exponent).toNat
    if places < digits.length then
      digits.take (digits.length - places) ++ '.' :: digits.drop (digits.length - places)
    else '0' :: '.' :: List.replicate (places - digits.length) '0' ++ digits

/-- A first digit, a fraction if there are more digits, and a power of ten. -/
def powerText (plusSign : Bool) (digits : List Char) (leading : Int) : List Char :=
  let fraction := match digits.drop 1 with
    | [] => []
    | rest => '.' :: rest
  let sign := if leading < 0 then ['-'] else if plusSign then ['+'] else []
  digits.take 1 ++ fraction ++ 'e' :: sign ++ Nat.toDigits 10 leading.natAbs

/-- The text of a decimal. -/
def Layout.scaledText (l : Layout) (s : Scaled) : List Char :=
  let digits := Nat.toDigits 10 s.digits
  let leading := s.exponent + digits.length - 1
  if l.leastPlain ≤ leading ∧ leading ≤ l.greatestPlain then plainText digits s.exponent
  else powerText l.plusSign digits leading

/-- The text of a number. -/
def Layout.text (l : Layout) (x : Float) : String :=
  let (negative, size) := ofFloat x
  let unsigned := match size with
    | .zero => ['0', '.', '0']
    | .finite m => l.scaledText (m.shortest l.tie)
    | .infinite => ['i', 'n', 'f']
    | .notANumber => ['N', 'a', 'N']
  String.ofList (if negative && size != .notANumber then '-' :: unsigned else unsigned)

end ServiceHost.Decimal
