import ServiceHost.Proofs.Settings.Tokens
import ServiceHost.Settings.Store

/-!
# Settings from a store

A setting in a store is a text, and what it spells is said without the reader: digits, perhaps after
a plus sign, with blanks around them (`SpellsMilliseconds`). The reader takes the blanks away first
and accepts exactly these texts (`readMs_iff`). So the settings of a store are its numbers and the
default for what is not there (`Store.Settles`), unless there is a text that spells none; then the
first of the two settings for which this is so is reported, with its text as it stands
(`Store.FirstFault`).

An environment may name a variable more than once, and the last value counts
(`Store.get_ofEnvironment`). Since the settings are read under two names only, and both begin alike,
it does not matter whether a store was filled with all variables or with those that begin so.
-/

namespace ServiceHost

/-! ## Blanks at the ends -/

namespace Text

/-- The characters with the Unicode property `White_Space`, by their numbers. -/
def whiteSpace : List Nat :=
  [0x9, 0xa, 0xb, 0xc, 0xd, 0x20, 0x85, 0xa0, 0x1680, 0x2000, 0x2001, 0x2002, 0x2003, 0x2004,
    0x2005, 0x2006, 0x2007, 0x2008, 0x2009, 0x200a, 0x2028, 0x2029, 0x202f, 0x205f, 0x3000]

/-- There is nothing but white space. -/
def White (cs : List Char) : Prop :=
  ∀ c ∈ cs, c.toNat ∈ whiteSpace

theorem isBlank_iff {c : Char} : isBlank c = true ↔ c.toNat ∈ whiteSpace := by
  simp only [isBlank, whiteSpace, Bool.or_eq_true, Bool.and_eq_true, decide_eq_true_eq, beq_iff_eq,
    List.mem_cons, List.not_mem_nil, or_false]
  omega

/-- What is taken away is white space. -/
theorem trimChars_spec (cs : List Char) :
    ∃ before after, White before ∧ White after ∧ cs = before ++ trimChars cs ++ after := by
  have hwhite (l : List Char) : White (l.takeWhile isBlank) := fun c hc =>
    isBlank_iff.1 (List.mem_takeWhile_imp hc)
  refine ⟨cs.takeWhile isBlank, ((cs.dropWhile isBlank).reverse.takeWhile isBlank).reverse,
    hwhite cs, fun c hc => hwhite _ c (List.mem_reverse.1 hc), ?_⟩
  rw [trimChars, List.append_assoc, ← List.reverse_append, List.takeWhile_append_dropWhile,
    List.reverse_reverse, List.takeWhile_append_dropWhile]

/-- White space in front is dropped, up to the first other character. -/
theorem dropWhile_blank {blanks cs : List Char} (h : White blanks)
    (hhead : ∀ c ∈ cs.head?, isBlank c = false) : (blanks ++ cs).dropWhile isBlank = cs := by
  rw [List.dropWhile_append_of_pos fun c hc => isBlank_iff.2 (h c hc)]
  cases cs with
  | nil => rfl
  | cons c rest => exact List.dropWhile_cons_of_neg (Bool.eq_false_iff.1 (hhead c rfl))

/-- What is left begins and ends with what is not white space. -/
theorem trimChars_append {before cs after : List Char} (hbefore : White before)
    (hafter : White after) (hne : cs ≠ []) (hhead : ∀ c ∈ cs.head?, isBlank c = false)
    (hlast : ∀ c ∈ cs.getLast?, isBlank c = false) : trimChars (before ++ cs ++ after) = cs := by
  have hfirst : ∀ c ∈ (cs ++ after).head?, isBlank c = false := by
    rwa [List.head?_append_of_ne_nil _ hne]
  have hreverse : White after.reverse := fun c hc => hafter c (List.mem_reverse.1 hc)
  rw [trimChars, List.append_assoc, dropWhile_blank hbefore hfirst, List.reverse_append,
    dropWhile_blank hreverse (by rwa [List.head?_reverse]), List.reverse_reverse]

/-! ## Numbers -/

theorem digit?_isSome {c : Char} {n : Nat} (h : digit? c = some n) : c.isDigit = true := by
  rw [← Json.isDigit_eq, Json.isDigit, h]
  rfl

/-- What is read from digits on is digits. -/
theorem readDigitsFrom_digits {cs : List Char} {n m : Nat} (h : readDigitsFrom n cs = some m) :
    ∀ c ∈ cs, c.isDigit = true := by
  induction cs generalizing n with
  | nil => exact fun c hc => absurd hc List.not_mem_nil
  | cons c rest ih =>
    rw [readDigitsFrom] at h
    split at h
    · next d hdigit => exact List.forall_mem_cons.2 ⟨digit?_isSome hdigit, ih h⟩
    · cases h

/-- A number is read exactly from digits, which are its own. -/
theorem readDigits_iff {cs : List Char} {n : Nat} :
    readDigits cs = some n ↔ Json.Digits cs ∧ Nat.ofDigitChars 10 cs 0 = n := by
  constructor
  · intro h
    have hdigits : Json.Digits cs := by
      cases cs with
      | nil => cases h
      | cons c rest => exact ⟨List.cons_ne_nil _ _, readDigitsFrom_digits h⟩
    refine ⟨hdigits, ?_⟩
    rw [Json.readDigits_eq hdigits] at h
    exact Option.some.inj h
  · rintro ⟨hdigits, rfl⟩
    exact Json.readDigits_eq hdigits

end Text

open Text

/-- The text spells a number of milliseconds: digits, perhaps after a plus sign, with white space
around them. -/
inductive SpellsMilliseconds : List Char → UInt64 → Prop
  | intro {before sign digits after : List Char} {ms : UInt64} (hbefore : White before)
      (hsign : sign = [] ∨ sign = ['+']) (hdigits : Json.Digits digits) (hafter : White after)
      (hms : Nat.ofDigitChars 10 digits 0 = ms.toNat) :
      SpellsMilliseconds (before ++ (sign ++ digits) ++ after) ms

namespace Text.IntRange

/-- A number without a sign lies in the range exactly if it fits 64 bits. -/
theorem check_unsigned {n : Nat} {m : Int} :
    (unsigned 64).check n = some m ↔ m = n ∧ n < UInt64.size := by
  have hgreatest : (unsigned 64).greatest = UInt64.size - 1 := rfl
  have hleast : (unsigned 64).least = 0 := rfl
  have hsize : 0 < UInt64.size := by decide
  unfold check contains
  rw [hgreatest, hleast]
  split
  · next hin =>
    simp only [Bool.and_eq_true, decide_eq_true_eq] at hin
    rw [Option.some.injEq]
    omega
  · next hout =>
    simp only [Bool.and_eq_true, decide_eq_true_eq] at hout
    exact ⟨nofun, fun h => absurd ⟨Int.natCast_nonneg n, by omega⟩ hout⟩

/-- A number is read exactly from digits, perhaps after a plus sign, that fit 64 bits. -/
theorem read_unsigned_iff {cs : List Char} {m : Int} :
    (unsigned 64).read cs = some m ↔
      ∃ sign digits, (sign = [] ∨ sign = ['+']) ∧ Json.Digits digits ∧ cs = sign ++ digits ∧
        m = Nat.ofDigitChars 10 digits 0 ∧ Nat.ofDigitChars 10 digits 0 < UInt64.size := by
  have hcheck (ds : List Char) : ((readDigits ds).bind fun n => (unsigned 64).check n) = some m ↔
      Json.Digits ds ∧ m = Nat.ofDigitChars 10 ds 0 ∧ Nat.ofDigitChars 10 ds 0 < UInt64.size := by
    rw [Option.bind_eq_some_iff]
    constructor
    · rintro ⟨n, hread, hm⟩
      obtain ⟨hdigits, rfl⟩ := readDigits_iff.1 hread
      exact ⟨hdigits, check_unsigned.1 hm⟩
    · rintro ⟨hdigits, hm⟩
      exact ⟨_, readDigits_iff.2 ⟨hdigits, rfl⟩, check_unsigned.2 hm⟩
  have hnot {c : Char} {ds rest : List Char} (h : Json.Digits ds) (hc : c.isDigit = false) :
      c :: rest ≠ ds := by
    rintro rfl
    cases hc.symm.trans (h.2 c List.mem_cons_self)
  unfold read
  split
  · next ds =>
    rw [hcheck]
    constructor
    · rintro ⟨hdigits, hm⟩
      exact ⟨['+'], ds, .inr rfl, hdigits, rfl, hm⟩
    · rintro ⟨_, digits, rfl | rfl, hdigits, hcs, hm⟩
      · exact absurd hcs (hnot hdigits (by decide))
      · cases hcs
        exact ⟨hdigits, hm⟩
  · next ds =>
    rw [if_neg (by decide)]
    refine ⟨nofun, ?_⟩
    rintro ⟨_, digits, rfl | rfl, hdigits, hcs, -⟩
    · exact absurd hcs (hnot hdigits (by decide))
    · cases hcs
  · next hplus hminus =>
    rw [hcheck]
    constructor
    · rintro ⟨hdigits, hm⟩
      exact ⟨[], cs, .inl rfl, hdigits, rfl, hm⟩
    · rintro ⟨_, digits, rfl | rfl, hdigits, rfl, hm⟩
      · exact ⟨hdigits, hm⟩
      · exact absurd rfl (hplus digits)

end Text.IntRange

/-- A digit and a sign are no white space. -/
theorem Text.isBlank_eq_false {c : Char} (h : c = '+' ∨ c.isDigit = true) : isBlank c = false := by
  rcases h with rfl | hdigit
  · rfl
  · simp only [Char.isDigit, Bool.and_eq_true, decide_eq_true_eq, UInt32.le_iff_toNat_le] at hdigit
    have hrange : 0x30 ≤ c.toNat ∧ c.toNat ≤ 0x39 := hdigit
    rw [Bool.eq_false_iff, Ne, isBlank_iff]
    intro hmem
    simp only [whiteSpace, List.mem_cons, List.not_mem_nil, or_false] at hmem
    omega

/-- Milliseconds are read exactly from texts that spell them. -/
theorem Timeouts.readMs_iff {cs : List Char} {ms : UInt64} :
    readMs (trimChars cs) = some ms ↔ SpellsMilliseconds cs ms := by
  have hvalue {n : Nat} (h : n < UInt64.size) :
      UInt64.ofNat ((n : Int)).toNat = ms ↔ n = ms.toNat := by
    rw [← UInt64.toNat_inj, Int.toNat_natCast, UInt64.toNat_ofNat_of_lt' h]
  unfold readMs
  rw [Option.map_eq_some_iff]
  constructor
  · rintro ⟨_, hread, hms⟩
    obtain ⟨sign, digits, hsign, hdigits, hcs, rfl, hlt⟩ := IntRange.read_unsigned_iff.1 hread
    obtain ⟨before, after, hbefore, hafter, htext⟩ := trimChars_spec cs
    rw [htext, hcs]
    exact .intro hbefore hsign hdigits hafter ((hvalue hlt).1 hms)
  · rintro @⟨before, sign, digits, after, _, hbefore, hsign, hdigits, hafter, hms⟩
    have hlt : Nat.ofDigitChars 10 digits 0 < UInt64.size := hms ▸ ms.toNat_lt_size
    have hinner : ∀ c ∈ sign ++ digits, isBlank c = false := by
      intro c hc
      refine isBlank_eq_false ((List.mem_append.1 hc).imp (fun hsign' => ?_) (hdigits.2 c))
      rcases hsign with rfl | rfl
      · exact absurd hsign' List.not_mem_nil
      · exact List.mem_singleton.1 hsign'
    have hne : sign ++ digits ≠ [] := List.append_ne_nil_of_right_ne_nil _ hdigits.1
    rw [trimChars_append hbefore hafter hne (fun c hc => hinner c (List.mem_of_mem_head? hc))
      fun c hc => hinner c (List.mem_of_getLast? hc)]
    exact ⟨_, IntRange.read_unsigned_iff.2 ⟨sign, digits, hsign, hdigits, rfl, rfl, hlt⟩,
      (hvalue hlt).2 hms⟩

/-! ## Stores -/

namespace Store

variable {s s' : Store} {key : String}

/-- What was stored last under a key is read there. -/
theorem get_set (s : Store) (key value k : String) :
    (s.set key value).get k = if k = key then some value else s.get k := by
  obtain ⟨entries⟩ := s
  unfold set get
  rw [List.lookup_cons]
  split
  · next hk => rw [if_pos (eq_of_beq hk)]
  next hk =>
  have hne : k ≠ key := by
    rintro rfl
    rw [beq_self_eq_true] at hk
    cases hk
  rw [if_neg hne]
  induction entries with
  | nil => rfl
  | cons e rest ih =>
    rw [List.filter_cons]
    by_cases he : e.1 = key
    · have hoff : (k == e.1) = false := by simpa [he] using hne
      rw [if_neg (by simpa using he), ih, List.lookup_cons, hoff]
    · rw [if_pos (by simpa using he), List.lookup_cons, List.lookup_cons, ih]

/-- Of two values that are set for one name, the later counts. -/
theorem get_foldl_set (entries : List (String × String)) (s : Store) (key : String) :
    (entries.foldl (fun s e => s.set e.1 e.2) s).get key =
      (entries.reverse.lookup key).or (s.get key) := by
  induction entries generalizing s with
  | nil => rfl
  | cons e rest ih =>
    rw [List.foldl_cons, ih, get_set, List.reverse_cons, List.lookup_append, List.lookup_cons,
      List.lookup_nil, Option.or_assoc]
    congr 1
    by_cases he : key = e.1
    · simp [he]
    · have hoff : (key == e.1) = false := by simpa using he
      simp [he, hoff]

/-- What is looked up is not changed by leaving out other entries. -/
theorem lookup_filter {start : String} (entries : List (String × String))
    (h : start.toList <+: key.toList) :
    (entries.filter fun e => start.toList.isPrefixOf e.1.toList).lookup key =
      entries.lookup key := by
  induction entries with
  | nil => rfl
  | cons e rest ih =>
    rw [List.filter_cons, List.lookup_cons]
    by_cases he : key = e.1
    · rw [if_pos (List.isPrefixOf_iff_prefix.2 (he ▸ h)), List.lookup_cons]
      split
      · rfl
      · exact ih
    · have hoff : (key == e.1) = false := by simpa using he
      rw [hoff]
      split
      · rw [List.lookup_cons, hoff, ih]
      · exact ih

/-- A variable that a store was filled with has its last value there. -/
theorem get_ofEnvironment (environment : List (String × String)) {start : String}
    (h : start.toList <+: key.toList) :
    (ofEnvironment environment start).get key = environment.reverse.lookup key := by
  have hempty : empty.get key = none := rfl
  rw [ofEnvironment, get_foldl_set, hempty, Option.or_none, ← List.filter_reverse]
  exact lookup_filter _ h

end Store

/-! ## Settings -/

/-- The name under which a setting is stored. -/
def TimeoutField.variableName : TimeoutField → String
  | .start => "KEYSTONE_START_TIMEOUT_MS"
  | .stop => "KEYSTONE_STOP_TIMEOUT_MS"

theorem Timeouts.storeKey_eq (field : TimeoutField) : storeKey field = field.variableName := by
  cases field <;> rfl

namespace Store

/-- The setting has so many milliseconds: those of its text, or fifteen seconds if it is not there.
-/
inductive Settles (s : Store) (field : TimeoutField) : UInt64 → Prop
  | unset (h : s.get field.variableName = none) : Settles s field 15000
  | given {value : String} {ms : UInt64} (h : s.get field.variableName = some value)
      (hspelled : SpellsMilliseconds value.toList ms) : Settles s field ms

/-- The text of the setting spells no number. -/
def Faulty (s : Store) (field : TimeoutField) (value : String) : Prop :=
  s.get field.variableName = some value ∧ ¬∃ ms, SpellsMilliseconds value.toList ms

/-- What is reported: the first setting that is faulty, with its text as it stands. -/
inductive FirstFault (s : Store) : InvalidSetting → Prop
  | start {value : String} (h : s.Faulty .start value) :
      FirstFault s ⟨"KEYSTONE_START_TIMEOUT_MS", value⟩
  | stop {value : String} (hstart : ¬∃ value, s.Faulty .start value) (h : s.Faulty .stop value) :
      FirstFault s ⟨"KEYSTONE_STOP_TIMEOUT_MS", value⟩

variable {s : Store} {field : TimeoutField} {ms ms' : UInt64}

/-- A setting has one number only. -/
theorem Settles.unique (h : s.Settles field ms) (h' : s.Settles field ms') : ms = ms' := by
  cases h with
  | unset h =>
    cases h' with
    | unset => rfl
    | given h' => cases h.symm.trans h'
  | given h hspelled =>
    cases h' with
    | unset h' => cases h.symm.trans h'
    | given h' hspelled' =>
      cases h.symm.trans h'
      have hread := Timeouts.readMs_iff.2 hspelled
      exact Option.some.inj (hread.symm.trans (Timeouts.readMs_iff.2 hspelled'))

/-- A setting that has a number is not faulty. -/
theorem Settles.not_faulty (h : s.Settles field ms) (value : String) : ¬s.Faulty field value := by
  rintro ⟨hvalue, hnone⟩
  cases h with
  | unset h => cases h.symm.trans hvalue
  | given h hspelled =>
    cases h.symm.trans hvalue
    exact hnone ⟨ms, hspelled⟩

/-- A setting that is read has a number, and one that is refused is faulty. -/
theorem parse_spec (s : Store) (field : TimeoutField) :
    (∃ r, s.parse Timeouts.readMs (Timeouts.storeKey field) = .ok r ∧
      s.Settles field (r.getD Timeouts.defaultMs)) ∨
    ∃ value, s.parse Timeouts.readMs (Timeouts.storeKey field) =
      .error ⟨field.variableName, value⟩ ∧ s.Faulty field value := by
  rw [Timeouts.storeKey_eq, parse]
  cases hget : s.get field.variableName with
  | none => exact .inl ⟨none, rfl, .unset hget⟩
  | some value =>
    dsimp only
    cases hread : Timeouts.readMs (Text.trimChars value.toList) with
    | some ms => exact .inl ⟨some ms, rfl, .given hget (Timeouts.readMs_iff.1 hread)⟩
    | none =>
      refine .inr ⟨value, rfl, hget, ?_⟩
      rintro ⟨ms, hspelled⟩
      cases hread.symm.trans (Timeouts.readMs_iff.2 hspelled)

end Store

namespace Timeouts

variable {s s' : Store}

/-- A store is read as the settings in it, or refused for the first that is faulty. -/
theorem ofStore_spec (s : Store) :
    (∃ t, ofStore s = .ok t ∧ s.Settles .start t.startMs ∧ s.Settles .stop t.stopMs) ∨
      ∃ e, ofStore s = .error e ∧ s.FirstFault e := by
  unfold ofStore
  obtain ⟨start, hstart, hstarts⟩ | ⟨value, hstart, hfault⟩ := s.parse_spec .start
  · rw [hstart]
    obtain ⟨stop, hstop, hstops⟩ | ⟨value, hstop, hfault⟩ := s.parse_spec .stop
    · rw [hstop]
      exact .inl ⟨_, rfl, hstarts, hstops⟩
    · rw [hstop]
      exact .inr ⟨_, rfl, .stop (fun ⟨value, h⟩ => hstarts.not_faulty value h) hfault⟩
  · rw [hstart]
    exact .inr ⟨_, rfl, .start hfault⟩

/-- Settings that a store has and a fault in it exclude each other. -/
theorem not_firstFault {t : Timeouts} (hstart : s.Settles .start t.startMs)
    (hstop : s.Settles .stop t.stopMs) (e : InvalidSetting) : ¬s.FirstFault e := by
  rintro (h | ⟨-, h⟩)
  · exact hstart.not_faulty _ h
  · exact hstop.not_faulty _ h

/-- A store is accepted exactly if each of its settings is settled. -/
theorem ofStore_ok_iff {t : Timeouts} :
    ofStore s = .ok t ↔ s.Settles .start t.startMs ∧ s.Settles .stop t.stopMs := by
  constructor
  · intro h
    obtain ⟨t', hok, hsettled⟩ | ⟨e, herror, -⟩ := ofStore_spec s
    · cases hok.symm.trans h
      exact hsettled
    · cases herror.symm.trans h
  · rintro ⟨hstart, hstop⟩
    obtain ⟨t', hok, hstart', hstop'⟩ | ⟨e, -, hfault⟩ := ofStore_spec s
    · have hsame : t' = t :=
        congrArg₂ Timeouts.mk (hstart'.unique hstart) (hstop'.unique hstop)
      rw [hok, hsame]
    · exact absurd hfault (not_firstFault hstart hstop e)

/-- A store is refused for its first fault, and for nothing else. -/
theorem ofStore_error_iff {e : InvalidSetting} : ofStore s = .error e ↔ s.FirstFault e := by
  constructor
  · intro h
    obtain ⟨t, hok, -⟩ | ⟨e', herror, hfault⟩ := ofStore_spec s
    · cases hok.symm.trans h
    · cases herror.symm.trans h
      exact hfault
  · intro h
    obtain ⟨t, -, hstart, hstop⟩ | ⟨e', herror, hfault⟩ := ofStore_spec s
    · exact absurd h (not_firstFault hstart hstop e)
    · rw [herror]
      congr 1
      cases hfault with
      | start h₁ =>
        cases h with
        | start h₂ => cases h₁.1.symm.trans h₂.1; rfl
        | stop hnone => exact absurd ⟨_, h₁⟩ hnone
      | stop hnone h₁ =>
        cases h with
        | start h₂ => exact absurd ⟨_, h₂⟩ hnone
        | stop _ h₂ => cases h₁.1.symm.trans h₂.1; rfl

/-- Nothing matters but what is stored under the names of the settings. -/
theorem ofStore_congr (h : ∀ field : TimeoutField, s.get field.variableName =
    s'.get field.variableName) : ofStore s = ofStore s' := by
  have hparse (field : TimeoutField) :
      s.parse readMs (storeKey field) = s'.parse readMs (storeKey field) := by
    rw [storeKey_eq, Store.parse, Store.parse, h]
  rw [ofStore, ofStore, hparse, hparse]

/-- The names of all settings begin alike. -/
theorem prefix_variableName {start : String} (h : start.toList <+: "KEYSTONE_".toList)
    (field : TimeoutField) : start.toList <+: field.variableName.toList := by
  refine h.trans ?_
  cases field
  · exact ⟨"START_TIMEOUT_MS".toList, rfl⟩
  · exact ⟨"STOP_TIMEOUT_MS".toList, rfl⟩

/-- The settings of a store are read exactly if each of the two is not there, and then is fifteen
seconds, or has a text that spells its milliseconds; otherwise the first of them with another text
is reported, with this text as it stands. An environment gives the same settings, or the same
report, whichever variables a store is filled with, as long as all that begin like the settings are
among them; and nothing in it matters but the last values of the two variables. -/
theorem store_read_exactly :
    (∀ (s : Store) (t : Timeouts),
      ofStore s = .ok t ↔ s.Settles .start t.startMs ∧ s.Settles .stop t.stopMs) ∧
    (∀ (s : Store) (e : InvalidSetting), ofStore s = .error e ↔ s.FirstFault e) ∧
    (∀ (environment : List (String × String)) (start : String),
      start.toList <+: "KEYSTONE_".toList →
        ofEnvironment environment = ofStore (Store.ofEnvironment environment start)) ∧
    ∀ environment environment' : List (String × String),
      (∀ field : TimeoutField, environment.reverse.lookup field.variableName =
        environment'.reverse.lookup field.variableName) →
        ofEnvironment environment = ofEnvironment environment' := by
  have hstart : keyStart.toList <+: "KEYSTONE_".toList := ⟨[], rfl⟩
  refine ⟨fun s t => ofStore_ok_iff, fun s e => ofStore_error_iff, ?filled, ?others⟩
  case filled =>
    intro environment start h
    refine ofStore_congr fun field => ?_
    rw [Store.get_ofEnvironment environment (prefix_variableName hstart field),
      Store.get_ofEnvironment environment (prefix_variableName h field)]
  case others =>
    intro environment environment' h
    refine ofStore_congr fun field => ?_
    rw [Store.get_ofEnvironment environment (prefix_variableName hstart field),
      Store.get_ofEnvironment environment' (prefix_variableName hstart field), h]

/-- A start timeout that is set twice, the second time with a sign, zeros and white space of two
kinds, and a stop timeout that is one too many for 64 bits. -/
def untidyVariables : List (String × String) :=
  [("KEYSTONE_START_TIMEOUT_MS", "soon"), ("KEYSTONE_START_TIMEOUT_MS", "\u3000+0250\x0b"),
    ("HOME", "/root"), ("KEYSTONE_STOP_TIMEOUT_MS", " 18446744073709551616 ")]

/-- The stop timeout is reported as it stands, whether or not other variables are there. -/
theorem untidyVariables_refused :
    (Store.ofEnvironment untidyVariables "KEY").FirstFault
        ⟨"KEYSTONE_STOP_TIMEOUT_MS", " 18446744073709551616 "⟩ ∧
      ofEnvironment (untidyVariables.eraseIdx 2) =
        .error ⟨"KEYSTONE_STOP_TIMEOUT_MS", " 18446744073709551616 "⟩ ∧
      ofEnvironment (untidyVariables.take 2) = .ok ⟨250, 15000⟩ := by
  obtain ⟨-, hfault, hfilled, hothers⟩ := store_read_exactly
  have hrefused : ofEnvironment untidyVariables =
      .error ⟨"KEYSTONE_STOP_TIMEOUT_MS", " 18446744073709551616 "⟩ := by
    rfl
  have hsame : ofEnvironment (untidyVariables.eraseIdx 2) = ofEnvironment untidyVariables :=
    hothers _ _ fun field => by cases field <;> rfl
  rw [hsame]
  rw [hfilled untidyVariables "KEY" ⟨"STONE_".toList, rfl⟩] at hrefused ⊢
  exact ⟨(hfault _ _).1 hrefused, hrefused, rfl⟩

end Timeouts

end ServiceHost
