import Mathlib.Data.List.TakeWhile
import ServiceHost.Proofs.Settings.Grammar

/-!
# Tokens of settings, read and spelled

What the readers of tokens take from the front of a text is what the grammar spells there, and they
take all that the grammar spells if what follows cannot belong to the token: blanks (`skip_append`),
whole numbers without a sign (`readMilliseconds_ok`, `readMilliseconds_of_spelled`), and strings
(`readString_ok`, `readString_of_spelled`). That a spelled string is read is said only of the
characters below the pairs, which is all that the name of a setting has.
-/

namespace ServiceHost.Json

open ServiceHost.Text

/-! ## Blanks -/

theorem isSpace_iff {c : Char} :
    isSpace c = true ↔ c = ' ' ∨ c = '\t' ∨ c = '\n' ∨ c = '\r' := by
  simp [isSpace]
  tauto

theorem Blank.append {cs ds : List Char} (h : Blank cs) (h' : Blank ds) : Blank (cs ++ ds) :=
  List.forall_mem_append.2 ⟨h, h'⟩

theorem Blank.nil : Blank [] := by
  rintro c ⟨⟩

/-- Blanks are skipped, and nothing else. -/
theorem skip_spec (cs : List Char) : ∃ blanks, Blank blanks ∧ cs = blanks ++ skip cs := by
  refine ⟨cs.takeWhile isSpace, fun c hc => isSpace_iff.1 (List.mem_takeWhile_imp hc), ?_⟩
  exact List.takeWhile_append_dropWhile.symm

/-- Blanks in front do not matter to what is skipped. -/
@[simp] theorem skip_append {blanks : List Char} (h : Blank blanks) (cs : List Char) :
    skip (blanks ++ cs) = skip cs := by
  induction blanks with
  | nil => rfl
  | cons c rest ih =>
    obtain ⟨hc, hrest⟩ := List.forall_mem_cons.1 h
    rw [List.cons_append, skip, List.dropWhile_cons_of_pos (isSpace_iff.2 hc)]
    exact ih hrest

theorem skip_cons {c : Char} (h : isSpace c = false) (cs : List Char) : skip (c :: cs) = c :: cs :=
  List.dropWhile_cons_of_neg (Bool.eq_false_iff.1 h)

theorem skip_blank_cons {blanks : List Char} (h : Blank blanks) {c : Char}
    (hc : isSpace c = false) (cs : List Char) : skip (blanks ++ c :: cs) = c :: cs := by
  rw [skip_append h, skip_cons hc]

/-! ## Numbers -/

/-- The digits that are read are those of `Char.isDigit`. -/
theorem isDigit_eq (c : Char) : isDigit c = c.isDigit := by
  unfold isDigit digit? Char.isDigit
  by_cases h : '0' ≤ c ∧ c ≤ '9'
  · rw [if_pos h]
    simpa [Char.le_def] using h
  · rw [if_neg h]
    simpa [Char.le_def, UInt32.not_le] using h

theorem not_space_of_digit {c : Char} (h : c.isDigit = true) : isSpace c = false := by
  rw [Bool.eq_false_iff, Ne, isSpace_iff]
  rintro (rfl | rfl | rfl | rfl) <;> cases h

/-- Digits are read from left to right, after what was read before. -/
theorem readDigitsFrom_eq {cs : List Char} (h : ∀ c ∈ cs, c.isDigit = true) (n : Nat) :
    readDigitsFrom n cs = some (Nat.ofDigitChars 10 cs n) := by
  induction cs generalizing n with
  | nil => rfl
  | cons c rest ih =>
    obtain ⟨hc, hrest⟩ := List.forall_mem_cons.1 h
    have hdigit : digit? c = some (c.toNat - '0'.toNat) := by
      rw [← isDigit_eq, isDigit] at hc
      unfold digit? at hc ⊢
      split at hc
      · next hrange => exact if_pos hrange
      · cases hc
    rw [readDigitsFrom, hdigit, Nat.ofDigitChars_cons]
    exact ih hrest _

theorem readDigits_eq {cs : List Char} (h : Digits cs) :
    readDigits cs = some (Nat.ofDigitChars 10 cs 0) := by
  cases cs with
  | nil => exact absurd rfl h.1
  | cons c rest => exact readDigitsFrom_eq h.2 0

theorem SpellsWhole.all_digits {whole : List Char} (h : SpellsWhole whole) : Digits whole := by
  cases h with
  | zero => exact ⟨List.cons_ne_nil _ _, by simp⟩
  | digits hall hzero => exact hall

/-- A number does not begin with anything but a digit. -/
theorem SpellsWhole.append_ne_cons {whole rest cs : List Char} {c : Char} (h : SpellsWhole whole)
    (hc : c.isDigit = false) : whole ++ rest ≠ c :: cs := by
  obtain ⟨hne, hall⟩ := h.all_digits
  cases whole with
  | nil => exact absurd rfl hne
  | cons d digits =>
    intro heq
    cases heq
    rw [hall _ List.mem_cons_self] at hc
    cases hc

/-- A number is found after blanks. -/
theorem skip_whole {blanks whole : List Char} (hblanks : Blank blanks) (h : SpellsWhole whole)
    (rest : List Char) : skip (blanks ++ (whole ++ rest)) = whole ++ rest := by
  obtain ⟨hne, hall⟩ := h.all_digits
  cases whole with
  | nil => exact absurd rfl hne
  | cons c digits =>
    exact skip_blank_cons hblanks (not_space_of_digit (hall c List.mem_cons_self)) _

/-- The text does not go on with a digit. -/
def NoDigit (cs : List Char) : Prop :=
  ∀ c ∈ cs.head?, c.isDigit = false

/-- The text does not go on with anything that belongs to a number. -/
def EndsNumber (cs : List Char) : Prop :=
  ∀ c ∈ cs.head?, c.isDigit = false ∧ c ≠ '.' ∧ c ≠ 'e' ∧ c ≠ 'E'

/-- A number ends before blanks. -/
theorem EndsNumber.blank {blanks cs : List Char} (hblanks : Blank blanks) (h : EndsNumber cs) :
    EndsNumber (blanks ++ cs) := by
  cases blanks with
  | nil => exact h
  | cons c blanks =>
    rintro d ⟨⟩
    obtain rfl | rfl | rfl | rfl := hblanks c List.mem_cons_self <;> decide

/-- A number ends before a comma or the end of a list or an object, with any blanks before them. -/
theorem EndsNumber.close {blanks text rest : List Char} {close : Char} (hblanks : Blank blanks)
    (htext : ∀ c ∈ text.head?, c = ',') (hclose : close = ']' ∨ close = '\x7d') :
    EndsNumber (blanks ++ (text ++ close :: rest)) := by
  refine EndsNumber.blank hblanks ?_
  cases text with
  | nil =>
    rintro c ⟨⟩
    obtain rfl | rfl := hclose <;> decide
  | cons d text =>
    rintro c ⟨⟩
    obtain rfl := htext d rfl
    decide

/-- The digits in front are those of the number, where no digit follows it. -/
theorem takeWhile_digits {cs rest : List Char} (h : ∀ c ∈ cs, c.isDigit = true)
    (hrest : NoDigit rest) :
    (cs ++ rest).takeWhile isDigit = cs ∧ (cs ++ rest).dropWhile isDigit = rest := by
  have hall : ∀ c ∈ cs, isDigit c = true := fun c hc => (isDigit_eq c).trans (h c hc)
  rw [List.takeWhile_append_of_pos hall, List.dropWhile_append_of_pos hall]
  cases rest with
  | nil => simp
  | cons c rest =>
    have hc : isDigit c = false := (isDigit_eq c).trans (hrest c rfl)
    simp [hc]

/-- What is read as a whole number spells one, and nothing is lost. -/
theorem readWhole_ok {cs whole rest : List Char} (h : readWhole cs = some (whole, rest)) :
    cs = whole ++ rest ∧ SpellsWhole whole := by
  unfold readWhole at h
  split at h
  · next after =>
    cases after with
    | nil =>
      cases h
      exact ⟨rfl, .zero⟩
    | cons c after =>
      simp only at h
      split at h
      · cases h
      · cases h
        exact ⟨rfl, .zero⟩
  · next hzero =>
    cases hdigits : cs.takeWhile isDigit with
    | nil =>
      rw [hdigits] at h
      cases h
    | cons c digits =>
      simp only [hdigits] at h
      cases h
      have hcs : cs = (c :: digits) ++ cs.dropWhile isDigit := by
        rw [← hdigits]
        exact List.takeWhile_append_dropWhile.symm
      refine ⟨hcs, .digits ⟨List.cons_ne_nil _ _, fun d hd => ?_⟩ ?_⟩
      · rw [← hdigits] at hd
        rw [← isDigit_eq]
        exact List.mem_takeWhile_imp hd
      · rintro rfl
        exact hzero _ hcs

/-- A whole number is read to its last digit. -/
theorem readWhole_of_spelled {whole rest : List Char} (h : SpellsWhole whole)
    (hrest : NoDigit rest) : readWhole (whole ++ rest) = some (whole, rest) := by
  cases h with
  | zero =>
    cases rest with
    | nil => rfl
    | cons c rest =>
      have hc : isDigit c = false := (isDigit_eq c).trans (hrest c rfl)
      simp [readWhole, hc]
  | @digits c cs hall hzero =>
    obtain ⟨htake, hdrop⟩ := takeWhile_digits hall.2 hrest
    unfold readWhole
    split
    · next heq =>
      cases heq
      exact absurd rfl hzero
    · rw [htake, hdrop]

/-- Nothing is taken from the text where there is no fraction. -/
theorem readFraction_none {cs rest : List Char} (h : readFraction cs = some (none, rest)) :
    cs = rest := by
  unfold readFraction at h
  split at h
  · split at h <;> cases h
  · cases h
    rfl

/-- Nothing is taken from the text where there is no power. -/
theorem readPower_none {cs rest : List Char} (h : readPower cs = some (none, rest)) :
    cs = rest := by
  unfold readPower at h
  split at h
  · cases h
    rfl
  · split at h
    · simp only at h
      split at h <;> cases h
    · cases h
      rfl

/-- A number without sign, fraction and power is read as it is spelled. -/
theorem readNumber_ok {cs whole rest : List Char}
    (h : readNumber cs = some (⟨false, whole, none, none⟩, rest)) :
    cs = whole ++ rest ∧ SpellsWhole whole := by
  simp only [readNumber, Option.bind_eq_bind, Option.bind_eq_some_iff, Option.pure_def,
    Option.some.injEq, Prod.mk.injEq, NumberLiteral.mk.injEq, Prod.exists] at h
  obtain ⟨whole', cs₁, hwhole, fraction, cs₂, hfraction, power, cs₃, hpower,
    ⟨hsign, rfl, rfl, rfl⟩, rfl⟩ := h
  obtain rfl : cs₁ = cs₂ := readFraction_none hfraction
  obtain rfl : cs₁ = cs₃ := readPower_none hpower
  revert hwhole hsign
  split
  · rintro - ⟨⟩
  · exact fun hwhole _ => readWhole_ok hwhole

/-- A whole number is read as such, without a sign, a fraction or a power. -/
theorem readNumber_of_spelled {whole rest : List Char} (h : SpellsWhole whole)
    (hrest : EndsNumber rest) :
    readNumber (whole ++ rest) = some (⟨false, whole, none, none⟩, rest) := by
  have hwhole := readWhole_of_spelled h fun c hc => (hrest c hc).1
  have hfraction : readFraction rest = some (none, rest) := by
    unfold readFraction
    split
    · exact absurd rfl (hrest '.' rfl).2.1
    · rfl
  have hpower : readPower rest = some (none, rest) := by
    unfold readPower
    split
    · rfl
    · next c rest =>
      obtain ⟨-, -, he, hE⟩ := hrest c rfl
      exact if_neg fun hmark => hmark.elim he hE
  have hsign : ∀ cs, whole ++ rest ≠ '-' :: cs := fun cs => h.append_ne_cons (by decide)
  unfold readNumber
  simp [hwhole, hfraction, hpower]

/-! ## Milliseconds -/

theorem SpellsNumber.of_whole {whole : List Char} (h : SpellsWhole whole) :
    SpellsNumber ⟨false, whole, none, none⟩ whole := by
  simpa using SpellsNumber.intro false h .absent .absent

/-- A number without sign, fraction and power is spelled by its digits. -/
theorem SpellsNumber.whole {whole cs : List Char}
    (h : SpellsNumber ⟨false, whole, none, none⟩ cs) : SpellsWhole whole ∧ cs = whole := by
  cases h with
  | intro _ hwhole hfraction hpower =>
    cases hfraction
    cases hpower
    exact ⟨hwhole, by simp⟩

/-- The value of a literal is a whole number without a sign exactly if nothing but digits was
written and the number fits 64 bits. -/
theorem value?_unsigned_iff {literal : NumberLiteral} {n : Nat} :
    literal.value? = some (.unsigned n) ↔
      literal = ⟨false, literal.whole, none, none⟩ ∧ (readDigits literal.whole).getD 0 = n ∧
        n ≤ greatest := by
  obtain ⟨negative, whole, fraction, power⟩ := literal
  have hfloat {x : Option Float} : x.map Number.floating ≠ some (.unsigned n) := by
    cases x <;> rintro ⟨⟩
  simp only [NumberLiteral.mk.injEq, true_and]
  constructor
  · intro h
    unfold NumberLiteral.value? at h
    cases fraction with
    | some digits => exact absurd h hfloat
    | none =>
    cases power with
    | some digits => exact absurd h hfloat
    | none =>
    simp only at h
    split at h
    · exact absurd h hfloat
    · next hfits =>
      cases negative with
      | false =>
        cases h
        exact ⟨⟨rfl, rfl, rfl⟩, rfl, Nat.not_lt.1 hfits⟩
      | true =>
        simp only [Bool.not_true, Bool.false_eq_true, if_false] at h
        split at h <;> cases h
  · rintro ⟨⟨rfl, rfl, rfl⟩, rfl, hfits⟩
    simp [NumberLiteral.value?, Nat.not_lt.2 hfits]

/-- What is read as milliseconds is spelled as a whole number without a sign. -/
theorem readMilliseconds_ok {cs rest : List Char} {ms : UInt64}
    (h : SettingsReader.readMilliseconds cs = .ok (ms, rest)) :
    ∃ blanks whole, Blank blanks ∧ SpellsWhole whole ∧ Nat.ofDigitChars 10 whole 0 = ms.toNat ∧
      cs = blanks ++ whole ++ rest := by
  obtain ⟨blanks, hblanks, hcs⟩ := skip_spec cs
  unfold SettingsReader.readMilliseconds at h
  split at h
  · cases h
  next c after hskip =>
  split at h
  · cases hnumber : readNumber (c :: after) with
    | none =>
      rw [hnumber] at h
      cases h
    | some read =>
      obtain ⟨literal, rest'⟩ := read
      simp only [hnumber] at h
      cases hvalue : literal.value? with
      | none =>
        rw [hvalue] at h
        cases h
      | some number =>
        rw [hvalue] at h
        cases number with
        | negative n => cases h
        | floating x => cases h
        | unsigned n =>
          cases h
          obtain ⟨hliteral, hdigits, hfits⟩ := value?_unsigned_iff.1 hvalue
          rw [hliteral] at hnumber
          obtain ⟨htext, hwhole⟩ := readNumber_ok hnumber
          rw [readDigits_eq hwhole.all_digits, Option.getD_some] at hdigits
          refine ⟨blanks, literal.whole, hblanks, hwhole, ?_, ?_⟩
          · rw [hdigits, UInt64.toNat_ofNat']
            exact (Nat.mod_eq_of_lt (Nat.lt_of_le_of_lt hfits (by decide))).symm
          · rw [hcs, hskip, htext, List.append_assoc]
  · cases h

/-- A whole number without a sign that fits 64 bits is read as milliseconds, with any blanks before
it. -/
theorem readMilliseconds_of_spelled {blanks whole rest : List Char} {ms : UInt64}
    (hblanks : Blank blanks) (hwhole : SpellsWhole whole)
    (hms : Nat.ofDigitChars 10 whole 0 = ms.toNat) (hrest : EndsNumber rest) :
    SettingsReader.readMilliseconds (blanks ++ whole ++ rest) = .ok (ms, rest) := by
  have hread := readNumber_of_spelled hwhole hrest
  have hdigits : (readDigits whole).getD 0 = ms.toNat := by
    rw [readDigits_eq hwhole.all_digits, Option.getD_some, hms]
  have hvalue : NumberLiteral.value? ⟨false, whole, none, none⟩ = some (.unsigned ms.toNat) :=
    value?_unsigned_iff.2 ⟨rfl, hdigits, Nat.le_of_lt_succ ms.toNat_lt⟩
  have hskip := skip_whole hblanks hwhole rest
  obtain ⟨hne, hall⟩ := hwhole.all_digits
  cases whole with
  | nil => exact absurd rfl hne
  | cons c digits =>
    have hc : isDigit c = true := (isDigit_eq c).trans (hall c List.mem_cons_self)
    unfold SettingsReader.readMilliseconds
    rw [List.append_assoc, hskip]
    simp only [List.cons_append] at hread ⊢
    simp [hc, hread, hvalue]

/-! ## Strings -/

/-- A character has the value of the digit that it is. -/
theorem hexValue?_iff {c : Char} {n : Nat} : hexValue? c = some n ↔ HexDigit c n := by
  unfold hexValue?
  constructor
  · intro h
    split at h
    · next hrange =>
      cases h
      exact .decimal hrange
    split at h
    · next hrange =>
      cases h
      exact .lower hrange
    split at h
    · next hrange =>
      cases h
      exact .upper hrange
    · cases h
  · rintro (h | h | h)
    · rw [if_pos h]
      rfl
    · rw [if_neg fun h' => absurd (Char.le_trans h.1 h'.2) (by decide), if_pos h]
      rfl
    · rw [if_neg fun h' => absurd (Char.le_trans h.1 h'.2) (by decide),
        if_neg fun h' => absurd (Char.le_trans h'.1 h.2) (by decide), if_pos h]
      rfl

/-- Each digit is less than the base. -/
theorem HexDigit.lt {c : Char} {n : Nat} (h : HexDigit c n) : n < 16 := by
  cases h with
  | decimal h =>
    have hle : c.toNat ≤ '9'.toNat := h.2
    simp at hle
    omega
  | lower h =>
    have hle : c.toNat ≤ 'f'.toNat := h.2
    simp at hle
    omega
  | upper h =>
    have hle : c.toNat ≤ 'F'.toNat := h.2
    simp at hle
    omega

theorem hexUnit?_iff {a b c d : Char} {unit : Nat} :
    hexUnit? a b c d = some unit ↔
      ∃ i j k l, HexDigit a i ∧ HexDigit b j ∧ HexDigit c k ∧ HexDigit d l ∧
        ((i * 16 + j) * 16 + k) * 16 + l = unit := by
  simp [hexUnit?, Option.bind_eq_some_iff, hexValue?_iff]

/-- Four digits are one unit. -/
theorem hexUnit?_lt {a b c d : Char} {unit : Nat} (h : hexUnit? a b c d = some unit) :
    unit < 0x10000 := by
  obtain ⟨i, j, k, l, ha, hb, hc, hd, rfl⟩ := hexUnit?_iff.1 h
  have hi := ha.lt
  have hj := hb.lt
  have hk := hc.lt
  have hl := hd.lt
  omega

theorem SpellsChars.unit_of_read {a b c d : Char} {unit : Nat} {us : List Nat} {cs : List Char}
    (h : hexUnit? a b c d = some unit) (hrest : SpellsChars us cs) :
    SpellsChars (unit :: us) ('\\' :: 'u' :: a :: b :: c :: d :: cs) := by
  obtain ⟨i, j, k, l, ha, hb, hc, hd, rfl⟩ := hexUnit?_iff.1 h
  exact .unit ha hb hc hd hrest

theorem simpleEscape?_iff {c d : Char} : simpleEscape? c = some d ↔ (c, d) ∈ escapes := by
  unfold simpleEscape?
  split <;> simp_all [escapes, eq_comm]

theorem toNat_ofNat {n : Nat} (h : n.isValidChar) : (Char.ofNat n).toNat = n := by
  rw [Char.ofNat, dif_pos h]
  rfl

/-- A unit that is no surrogate is that of its character. -/
theorem units_ofNat {unit : Nat} (h : unit < 0xd800 ∨ 0xdfff < unit ∧ unit < 0x10000) :
    units (Char.ofNat unit) = [unit] := by
  have hvalid : unit.isValidChar := by
    unfold Nat.isValidChar
    omega
  rw [units, toNat_ofNat hvalid]
  exact if_pos (by omega)

/-- A pair is the two units of its character. -/
theorem units_of_pair {first second : Nat} {c : Char} (h : pair? first second = some c) :
    units c = [first, second] := by
  unfold pair? at h
  split at h
  · next hrange =>
    rw [← Option.some.inj h]
    have hvalid : (0x10000 + (first - 0xd800) * 0x400 + (second - 0xdc00)).isValidChar := by
      unfold Nat.isValidChar
      omega
    rw [units, toNat_ofNat hvalid, if_neg (by omega)]
    simp only [List.cons.injEq, and_true]
    omega
  · cases h

/-- The text begins with the rest of a string, up to its closing quote. -/
def StringEnds (cs name rest : List Char) : Prop :=
  ∃ body, cs = body ++ '"' :: rest ∧ SpellsChars (name.flatMap units) body

/-- One more character is read from what is spelled for it. -/
theorem StringEnds.cons (front : List Char) {char : Char} {cs name rest : List Char}
    (hfront : ∀ {us body}, SpellsChars us body → SpellsChars (units char ++ us) (front ++ body))
    (ih : ∀ name rest, readString cs = some (name, rest) → StringEnds cs name rest)
    (h : (readString cs).map (fun read => (char :: read.1, read.2)) = some (name, rest)) :
    StringEnds (front ++ cs) name rest := by
  obtain ⟨⟨name', rest'⟩, hread, heq⟩ := Option.map_eq_some_iff.1 h
  cases heq
  obtain ⟨body, hcs, hbody⟩ := ih name' rest' hread
  refine ⟨front ++ body, ?_, ?_⟩
  · rw [hcs, List.append_assoc]
  · rw [List.flatMap_cons]
    exact hfront hbody

/-- What is read as a string is spelled as its characters. -/
theorem readString_ok {cs name rest : List Char} (h : readString cs = some (name, rest)) :
    StringEnds cs name rest := by
  fun_induction readString cs generalizing name rest with
  | case1 => cases h
  | case2 after =>
    cases h
    exact ⟨[], rfl, .nil⟩
  | case5 a b c d e f g h' after unit hunit hopen char hpair ih =>
    obtain ⟨second, hsecond, hchar⟩ := Option.bind_eq_some_iff.1 hpair
    refine StringEnds.cons ['\\', 'u', a, b, c, d, '\\', 'u', e, f, g, h']
      (fun hbody => ?_) (fun _ _ => ih) h
    rw [units_of_pair hchar]
    exact .unit_of_read hunit (.unit_of_read hsecond hbody)
  | case7 a b c d e f g h' after unit hunit hopen hclose ih =>
    refine StringEnds.cons ['\\', 'u', a, b, c, d] (fun hbody => ?_) (fun _ _ => ih) h
    have hlt := hexUnit?_lt hunit
    rw [units_ofNat (by omega)]
    exact .unit_of_read hunit hbody
  | case10 a b c d after hnext unit hunit hlone ih =>
    refine StringEnds.cons ['\\', 'u', a, b, c, d] (fun hbody => ?_) (fun _ _ => ih) h
    have hlt := hexUnit?_lt hunit
    rw [units_ofNat (by omega)]
    exact .unit_of_read hunit hbody
  | case12 c after hnext hnext' char hescape ih =>
    exact StringEnds.cons ['\\', c]
      (fun hbody => .escape (simpleEscape?_iff.1 hescape) hbody) (fun _ _ => ih) h
  | case14 c after hquote hnext hnext' hnext'' hplain ih =>
    obtain ⟨hcontrol, hescape⟩ := not_or.1 hplain
    exact StringEnds.cons [c]
      (fun hbody => .plain (Nat.not_lt.1 hcontrol) hquote hescape hbody) (fun _ _ => ih) h
  | _ => cases h

theorem readString_quote (rest : List Char) : readString ('"' :: rest) = some ([], rest) := by
  rw [readString]

/-- A simple escape stands for its character. -/
theorem readString_escape {c d : Char} (h : simpleEscape? c = some d) (cs : List Char) :
    readString ('\\' :: c :: cs) =
      (readString cs).map fun read => (d :: read.1, read.2) := by
  have hc : c ≠ 'u' := by
    rintro rfl
    cases h
  rw [readString]
  · rw [h]
  · exact fun _ _ _ _ _ _ _ _ _ hu _ => hc hu
  · exact fun _ _ _ _ _ hu _ => hc hu

/-- An escaped unit below the surrogates stands for its character. -/
theorem readString_unit {a b c d : Char} {unit : Nat} (h : hexUnit? a b c d = some unit)
    (hunit : unit < 0xd800) (cs : List Char) :
    readString ('\\' :: 'u' :: a :: b :: c :: d :: cs) =
      (readString cs).map fun read => (Char.ofNat unit :: read.1, read.2) := by
  by_cases hnext : ∃ e f g i rest, cs = '\\' :: 'u' :: e :: f :: g :: i :: rest
  · obtain ⟨e, f, g, i, rest, rfl⟩ := hnext
    rw [readString, h]
    simp only
    rw [if_neg (by omega), if_neg (by omega)]
  · rw [readString]
    · rw [h]
      exact if_neg (by omega)
    · exact fun e f g i rest hcs => hnext ⟨e, f, g, i, rest, hcs⟩

/-- A plain character stands for itself. -/
theorem readString_plain {c : Char} (hcontrol : 0x20 ≤ c.toNat) (hquote : c ≠ '"')
    (hescape : c ≠ '\\') (cs : List Char) :
    readString (c :: cs) = (readString cs).map fun read => (c :: read.1, read.2) := by
  rw [readString]
  · exact if_neg fun h => h.elim (Nat.not_lt.2 hcontrol) hescape
  · exact hquote
  · exact fun _ _ _ _ _ _ _ _ _ hc _ => hescape hc
  · exact fun _ _ _ _ _ hc _ => hescape hc
  · exact fun _ _ hc _ => hescape hc

/-- The characters are below those that take two units and the units of those. -/
def OneUnitEach (name : List Char) : Prop :=
  ∀ c ∈ name, c.toNat < 0xd800

/-- The first unit of a name is that of its first character, where each character is one unit. -/
theorem flatMap_units_eq_cons {name : List Char} {unit : Nat} {us : List Nat}
    (hname : OneUnitEach name) (h : unit :: us = name.flatMap units) :
    unit < 0xd800 ∧ ∃ name', name = Char.ofNat unit :: name' ∧ us = name'.flatMap units := by
  cases name with
  | nil => cases h
  | cons c name' =>
    have hc := hname c List.mem_cons_self
    rw [List.flatMap_cons, units, if_pos (by omega)] at h
    cases h
    exact ⟨hc, name', by rw [Char.ofNat_toNat], rfl⟩

/-- The first units of a name are those of its first character. -/
theorem flatMap_units_eq_append {name : List Char} {c : Char} {us : List Nat}
    (hname : OneUnitEach name) (h : units c ++ us = name.flatMap units) :
    ∃ name', name = c :: name' ∧ us = name'.flatMap units := by
  by_cases hc : c.toNat < 0x10000
  · rw [units, if_pos hc] at h
    obtain ⟨-, name', hname', hus⟩ := flatMap_units_eq_cons hname h
    exact ⟨name', by rw [hname', Char.ofNat_toNat], hus⟩
  · rw [units, if_neg hc] at h
    have hfirst := (flatMap_units_eq_cons hname h).1
    omega

/-- A string of such characters is read, however they are spelled. -/
theorem readString_of_spelled {us : List Nat} {body name rest : List Char}
    (h : SpellsChars us body) (hus : us = name.flatMap units) (hname : OneUnitEach name) :
    readString (body ++ '"' :: rest) = some (name, rest) := by
  induction h generalizing name with
  | nil =>
    cases name with
    | nil => exact readString_quote rest
    | cons c name' =>
      rw [List.flatMap_cons, units] at hus
      split at hus <;> cases hus
  | plain hcontrol hquote hescape hrest ih =>
    obtain ⟨name', rfl, hus'⟩ := flatMap_units_eq_append hname hus
    rw [List.cons_append, readString_plain hcontrol hquote hescape,
      ih hus' (List.forall_mem_cons.1 hname).2]
    rfl
  | escape hmem hrest ih =>
    obtain ⟨name', rfl, hus'⟩ := flatMap_units_eq_append hname hus
    rw [List.cons_append, List.cons_append, readString_escape (simpleEscape?_iff.2 hmem),
      ih hus' (List.forall_mem_cons.1 hname).2]
    rfl
  | unit ha hb hc hd hrest ih =>
    obtain ⟨hunit, name', rfl, hus'⟩ := flatMap_units_eq_cons hname hus
    have hread := hexUnit?_iff.2 ⟨_, _, _, _, ha, hb, hc, hd, rfl⟩
    simp only [List.cons_append]
    rw [readString_unit hread hunit, ih hus' (List.forall_mem_cons.1 hname).2]
    rfl

end ServiceHost.Json
