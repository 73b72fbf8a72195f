/-!
Lengths of time in whole nanoseconds. A length is shown in the largest of four units of which it
holds at least one, with every digit of its fraction that is not a zero at the end. Lengths are
bounded, so a sum can fail: seconds and nanoseconds are counted apart, in words of 64 bits, and
nanoseconds are carried over to the seconds when there is no more room for them, and at the end.
-/

namespace ServiceHost

/-- A length of time. -/
structure Duration where
  nanos : Nat
deriving DecidableEq, Repr

namespace Duration

/-- The nanoseconds of a second. -/
def second : Nat := 1000000000

/-- No time at all. -/
def zero : Duration := ⟨0⟩

/-- So many seconds and nanoseconds. -/
def ofParts (seconds nanos : Nat) : Duration :=
  ⟨seconds * second + nanos⟩

/-- So many milliseconds. -/
def ofMillis (millis : Nat) : Duration :=
  ⟨millis * 1000000⟩

/-- The whole seconds. -/
def seconds (d : Duration) : Nat :=
  d.nanos / second

/-- The nanoseconds beyond the whole seconds. -/
def subsecond (d : Duration) : Nat :=
  d.nanos % second

/-- The whole milliseconds. -/
def millis (d : Duration) : Nat :=
  d.nanos / 1000000

/-- The greatest length of time: a second short of `2 ^ 64` seconds, and all but one nanosecond of
that. -/
def greatest : Duration :=
  ofParts (Nat.pow 2 64 - 1) (second - 1)

/-- The sum of two numbers, if it fits 64 bits. -/
def addWord? (a b : Nat) : Option Nat :=
  if a + b < Nat.pow 2 64 then some (a + b) else none

/-- Seconds and nanoseconds that were counted apart. -/
structure Tally where
  seconds : Nat
  nanos : Nat
deriving DecidableEq, Repr

namespace Tally

/-- Counts one more length of time. -/
def add? (t : Tally) (d : Duration) : Option Tally :=
  match addWord? t.seconds d.seconds with
  | none => none
  | some seconds =>
    match addWord? t.nanos d.subsecond with
    | some nanos => some ⟨seconds, nanos⟩
    | none =>
      match addWord? seconds (t.nanos / second) with
      | some seconds => some ⟨seconds, t.nanos % second + d.subsecond⟩
      | none => none

/-- The length of time that was counted. -/
def total? (t : Tally) : Option Duration :=
  match addWord? t.seconds (t.nanos / second) with
  | some seconds => some (.ofParts seconds (t.nanos % second))
  | none => none

end Tally

/-- The sum of lengths of time, if there is such a length. -/
def sum? (ds : List Duration) : Option Duration :=
  match ds.foldlM Tally.add? ⟨0, 0⟩ with
  | some t => t.total?
  | none => none

/-- What a sum that is too great is reported as. -/
def sumOverflow : String :=
  "overflow in iter::sum over durations"

/-- The digits of `n`, with zeros in front up to `width` digits. -/
def padded (width n : Nat) : List Char :=
  let digits := Nat.toDigits 10 n
  List.replicate (width - digits.length) '0' ++ digits

/-- The fraction `n / 10 ^ width` after its point, without zeros at the end. -/
def fractionText (width n : Nat) : List Char :=
  match ((padded width n).reverse.dropWhile (· == '0')).reverse with
  | [] => []
  | digits => '.' :: digits

/-- The length in a unit of `10 ^ places` nanoseconds. -/
def inUnit (d : Duration) (places : Nat) (unit : String) : String :=
  let scale := Nat.pow 10 places
  let whole := Nat.toDigits 10 (d.nanos / scale)
  String.ofList (whole ++ fractionText places (d.nanos % scale)) ++ unit

/-- The text of a length of time. -/
def text (d : Duration) : String :=
  if Nat.pow 10 9 ≤ d.nanos then d.inUnit 9 "s"
  else if Nat.pow 10 6 ≤ d.nanos then d.inUnit 6 "ms"
  else if Nat.pow 10 3 ≤ d.nanos then d.inUnit 3 "µs"
  else d.inUnit 0 "ns"

end Duration

end ServiceHost
