import ServiceHost.Proofs.Settings.Members

/-!
# Which texts hold settings

A text is accepted exactly if it is a value of JSON that gives settings, with blanks around it, and
then those settings are read from it (`Timeouts.parse_iff`). One direction follows the readers from
the text to a value; the other takes a value apart as the grammar spells it. Settings written as a
text are read back from it.
-/

namespace ServiceHost

namespace SettingsReader

open ServiceHost.Json

/-! ## Objects and lists -/

/-- What is read as an object is one, and it gives what the draft is completed to. -/
theorem readObject_ok {draft : Draft} {cs rest : List Char}
    (h : readObject cs = .ok (draft, rest)) :
    ∃ value text, Spells value ('\x7b' :: text) ∧ value.Gives draft.complete ∧
      cs = text ++ rest := by
  obtain ⟨blanks, hblanks, hcs⟩ := skip_spec cs
  unfold readObject at h
  split at h
  · next hskip =>
    cases h
    refine ⟨.object [], blanks ++ ['\x7d'], .emptyObject hblanks, .object .nil List.nodup_nil, ?_⟩
    rw [hcs, hskip, List.append_assoc]
    rfl
  · next after hskip =>
    split at h
    · next draft₁ rest₁ hread =>
      obtain ⟨field, ms, text, hmember, hnew, rfl, rfl⟩ := readMember_ok hread
      obtain ⟨settings, members, blanks', more, hblanks', hmore, hsettings, htakes, rfl, rfl⟩ :=
        readMembers_ok h
      obtain ⟨member, hsetting, hspelled⟩ := hmember.spelled hblanks hblanks'
      have hall := Draft.takes_empty.1 (Draft.takes_cons.2 ⟨hnew, htakes⟩)
      refine ⟨.object (member :: members), _, .object (.intro hspelled hmore), ?_, ?_⟩
      · rw [← Draft.fill_cons, Draft.complete_fill hall]
        exact .object (.cons hsetting hsettings) hall
      · rw [hcs, hskip]
        simp only [List.append_assoc, List.cons_append, List.nil_append]
    · cases h
  · cases h

/-- An object of settings is read. -/
theorem readObject_of_spelled {members : List (List Nat × Value)}
    {settings : List (TimeoutField × UInt64)} {text : List Char}
    (h : Spells (.object members) text) (hsettings : List.Forall₂ IsSetting members settings)
    (hnodup : (settings.map Prod.fst).Nodup) :
    ∃ body, text = '\x7b' :: body ∧
      ∀ rest, readObject (body ++ rest) = .ok (Draft.empty.fill settings, rest) := by
  cases h with
  | @emptyObject blanks hblanks =>
    cases hsettings
    refine ⟨blanks ++ ['\x7d'], rfl, fun rest => ?_⟩
    unfold readObject
    rw [List.append_assoc, List.singleton_append, skip_blank_cons hblanks (by decide)]
    rfl
  | object hspelled =>
  cases hspelled with
  | @intro member members cs ds hmember hmore =>
  cases hsettings with
  | @cons _ setting _ settings hsetting hsettings =>
  obtain ⟨field, ms⟩ := setting
  obtain ⟨before, text, after, hbefore, htext, hafter, rfl⟩ :=
    memberText_of_spelled hmember hsetting
  obtain ⟨hnew, htakes⟩ := Draft.takes_cons.1 (Draft.takes_empty.2 hnodup)
  have htries : settings.length ≤ 2 := by
    have hlength := length_le_two hnodup
    simp only [List.map_cons, List.length_cons, List.length_map] at hlength
    omega
  refine ⟨_, rfl, fun rest => ?_⟩
  have hrest : EndsNumber (after ++ (ds ++ '\x7d' :: rest)) :=
    .close hafter (head_moreMembers hmore) (.inr rfl)
  have hread := readMember_of_spelled htext hnew hrest
  simp only [List.append_assoc, List.cons_append, List.nil_append]
  unfold readObject
  rw [skip_blank_cons hbefore (by decide)]
  simp only [hread]
  exact readMembers_of_spelled hsettings hafter hmore htakes htries

theorem spellsItem_of_whole {before whole after : List Char} (hbefore : Blank before)
    (hwhole : SpellsWhole whole) (hafter : Blank after) :
    SpellsItem (.number ⟨false, whole, none, none⟩) (before ++ whole ++ after) :=
  .intro hbefore (.number (.of_whole hwhole)) hafter

theorem head_moreItems {items : List Value} {text : List Char} (h : MoreItems items text) :
    ∀ c ∈ text.head?, c = ',' := by
  cases h <;> simp

/-- What is read of a list after its first item is what is spelled there, and it is one number of
milliseconds at most. -/
theorem readSecond_ok {start : UInt64} {draft : Draft} {cs rest : List Char}
    (h : readSecond start cs = .ok (draft, rest)) :
    ∃ settings items blanks text, Blank blanks ∧ MoreItems items text ∧
      List.Forall₂ Value.Milliseconds items settings ∧ settings.length ≤ 1 ∧
      draft = ⟨some start, settings[0]?⟩ ∧ cs = blanks ++ text ++ ']' :: rest := by
  obtain ⟨blanks, hblanks, hcs⟩ := skip_spec cs
  unfold readSecond at h
  split at h
  · next hskip =>
    cases h
    refine ⟨[], [], blanks, [], hblanks, .nil, .nil, Nat.zero_le 1, rfl, ?_⟩
    rw [hcs, hskip, List.append_nil]
  · next after hskip =>
    obtain ⟨before, hbefore, hafter⟩ := skip_spec after
    split at h
    · cases h
    split at h
    · next stop rest₁ hread =>
      obtain ⟨before', whole, hbefore', hwhole, hms, hitem⟩ := readMilliseconds_ok hread
      obtain ⟨blanks', hblanks', hrest₁⟩ := skip_spec rest₁
      unfold readListEnd at h
      split at h
      · next hend =>
        cases h
        refine ⟨[stop], [_], blanks, _, hblanks,
          .cons (.intro (spellsItem_of_whole (hbefore.append hbefore') hwhole hblanks') .nil),
          .cons (.intro hms) .nil, Nat.le_refl 1, rfl, ?_⟩
        rw [hcs, hskip, hafter, hitem, hrest₁, hend]
        simp only [List.append_assoc, List.cons_append, List.nil_append]
      · cases h
    · cases h
  · cases h

/-- What is read as a list is one, and it gives what the draft is completed to. -/
theorem readList_ok {draft : Draft} {cs rest : List Char} (h : readList cs = .ok (draft, rest)) :
    ∃ value text, Spells value ('[' :: text) ∧ value.Gives draft.complete ∧ cs = text ++ rest := by
  obtain ⟨blanks, hblanks, hcs⟩ := skip_spec cs
  unfold readList at h
  split at h
  · next hskip =>
    cases h
    refine ⟨.array [], blanks ++ [']'], .emptyArray hblanks, .array .nil (Nat.zero_le 2), ?_⟩
    rw [hcs, hskip, List.append_assoc]
    rfl
  · split at h
    · next start rest₁ hread =>
      obtain ⟨before, whole, hbefore, hwhole, hms, hitem⟩ := readMilliseconds_ok hread
      obtain ⟨settings, items, after, more, hafter, hmore, hitems, hlength, rfl, rfl⟩ :=
        readSecond_ok h
      have hspelled := spellsItem_of_whole (hblanks.append hbefore) hwhole hafter
      refine ⟨.array (_ :: items), _, .array (.intro hspelled hmore),
        .array (.cons (.intro hms) hitems) (Nat.succ_le_succ hlength), ?_⟩
      rw [hcs, hitem]
      simp only [List.append_assoc, List.cons_append, List.nil_append]
    · cases h

/-- One more number of milliseconds, or none, is read after the first. -/
theorem readSecond_of_spelled {start : UInt64} {items : List Value} {settings : List UInt64}
    {blanks text rest : List Char} (hitems : List.Forall₂ Value.Milliseconds items settings)
    (hblanks : Blank blanks) (hmore : MoreItems items text) (hlength : settings.length ≤ 1) :
    readSecond start (blanks ++ (text ++ ']' :: rest)) =
      .ok (⟨some start, settings[0]?⟩, rest) := by
  cases hitems with
  | nil =>
    cases hmore with
    | nil =>
      unfold readSecond
      rw [List.nil_append, skip_blank_cons hblanks (by decide)]
      rfl
    | cons hspelled => cases hspelled
  | @cons _ stop _ settings hms hitems =>
  obtain rfl : settings = [] := List.eq_nil_of_length_eq_zero (by simpa using hlength)
  cases hitems
  cases hmore with
  | cons hspelled =>
  cases hspelled with
  | intro hitem hmore =>
  cases hmore with
  | cons hspelled => cases hspelled
  | nil =>
  obtain ⟨before, whole, after, hbefore, hwhole, hms, hafter, rfl⟩ := digits_of_spelled hitem hms
  have hrest : EndsNumber (after ++ ([] ++ ']' :: rest)) :=
    .close hafter (fun _ hc => by cases hc) (.inl rfl)
  have hread := readMilliseconds_of_spelled .nil hwhole hms hrest
  simp only [List.append_assoc, List.cons_append, List.nil_append] at hread ⊢
  unfold readSecond
  rw [skip_blank_cons hblanks (by decide)]
  simp only
  rw [skip_whole hbefore hwhole]
  split
  · next hclose => exact absurd hclose (hwhole.append_ne_cons (by decide))
  · rw [hread]
    simp only [readListEnd]
    rw [skip_blank_cons hafter (by decide)]
    rfl

/-- A list of two numbers of milliseconds at most is read. -/
theorem readList_of_spelled {items : List Value} {settings : List UInt64} {text : List Char}
    (h : Spells (.array items) text) (hitems : List.Forall₂ Value.Milliseconds items settings)
    (hlength : settings.length ≤ 2) :
    ∃ body, text = '[' :: body ∧
      ∀ rest, readList (body ++ rest) = .ok (⟨settings[0]?, settings[1]?⟩, rest) := by
  cases h with
  | @emptyArray blanks hblanks =>
    cases hitems
    refine ⟨blanks ++ [']'], rfl, fun rest => ?_⟩
    unfold readList
    rw [List.append_assoc, List.singleton_append, skip_blank_cons hblanks (by decide)]
    rfl
  | array hspelled =>
  cases hspelled with
  | @intro _ items cs ds hitem hmore =>
  cases hitems with
  | @cons _ start _ settings hms hitems =>
  obtain ⟨before, whole, after, hbefore, hwhole, hms, hafter, rfl⟩ := digits_of_spelled hitem hms
  refine ⟨_, rfl, fun rest => ?_⟩
  have hrest : EndsNumber (after ++ (ds ++ ']' :: rest)) :=
    .close hafter (head_moreItems hmore) (.inl rfl)
  have hread := readMilliseconds_of_spelled .nil hwhole hms hrest
  simp only [List.append_assoc, List.cons_append, List.nil_append] at hread ⊢
  unfold readList
  rw [skip_whole hbefore hwhole]
  split
  · next hclose => exact absurd hclose (hwhole.append_ne_cons (by decide))
  · rw [hread]
    exact readSecond_of_spelled hitems hafter hmore (Nat.le_of_succ_le_succ hlength)

/-! ## Texts -/

/-- What is read from a text is a value that gives what the draft is completed to. -/
theorem readDraft_ok {draft : Draft} {cs rest : List Char} (h : readDraft cs = .ok (draft, rest)) :
    ∃ value blanks text, Blank blanks ∧ Spells value text ∧ value.Gives draft.complete ∧
      cs = blanks ++ text ++ rest := by
  obtain ⟨blanks, hblanks, hcs⟩ := skip_spec cs
  unfold readDraft at h
  split at h
  · next after hskip =>
    obtain ⟨value, text, hspelled, hgives, rfl⟩ := readList_ok h
    refine ⟨value, blanks, _, hblanks, hspelled, hgives, ?_⟩
    rw [hcs, hskip]
    simp only [List.append_assoc, List.cons_append]
  · next after hskip =>
    obtain ⟨value, text, hspelled, hgives, rfl⟩ := readObject_ok h
    refine ⟨value, blanks, _, hblanks, hspelled, hgives, ?_⟩
    rw [hcs, hskip]
    simp only [List.append_assoc, List.cons_append]
  · cases h
  · cases h

/-- A value that gives settings is read. -/
theorem readDraft_of_spelled {value : Value} {c : Timeouts} {blanks text : List Char}
    (h : Spells value text) (hgives : value.Gives c) (hblanks : Blank blanks) :
    ∃ draft, draft.complete = c ∧
      ∀ rest, readDraft (blanks ++ text ++ rest) = .ok (draft, rest) := by
  cases hgives with
  | @object members settings hmembers hnodup =>
    obtain ⟨body, rfl, hread⟩ := readObject_of_spelled h hmembers hnodup
    refine ⟨_, Draft.complete_fill hnodup, fun rest => ?_⟩
    unfold readDraft
    rw [List.append_assoc, List.cons_append, skip_blank_cons hblanks (by decide)]
    exact hread rest
  | @array items settings hitems hlength =>
    obtain ⟨body, rfl, hread⟩ := readList_of_spelled h hitems hlength
    refine ⟨⟨settings[0]?, settings[1]?⟩, rfl, fun rest => ?_⟩
    unfold readDraft
    rw [List.append_assoc, List.cons_append, skip_blank_cons hblanks (by decide)]
    exact hread rest

/-! ## Settings written -/

/-- Plain characters are spelled by themselves. -/
theorem spellsChars_plain {name : List Char}
    (h : ∀ c ∈ name, 0x20 ≤ c.toNat ∧ c ≠ '"' ∧ c ≠ '\\') :
    SpellsChars (name.flatMap units) name := by
  induction name with
  | nil => exact .nil
  | cons c rest ih =>
    obtain ⟨⟨hcontrol, hquote, hescape⟩, hrest⟩ := List.forall_mem_cons.1 h
    exact .plain hcontrol hquote hescape (ih hrest)

/-- The name of a setting is spelled by its own letters. -/
theorem spellsChars_name (field : TimeoutField) :
    SpellsChars (field.name.toList.flatMap units) field.name.toList := by
  refine spellsChars_plain fun c hc => ?_
  obtain ⟨hletter, -⟩ := name_letters field c hc
  refine ⟨by omega, ?_, ?_⟩
  · rintro rfl
    exact absurd hletter (by decide)
  · rintro rfl
    exact absurd hletter (by decide)

/-- A numeral does not begin with a zero, unless it is zero. -/
theorem head_toDigits {n : Nat} (h : n ≠ 0) : ∀ c ∈ (Nat.toDigits 10 n).head?, c ≠ '0' := by
  induction n using Nat.strongRecOn with
  | ind n ih =>
    by_cases hlt : n < 10
    · have hdigit : ∀ m < 10, m ≠ 0 → Nat.digitChar m ≠ '0' := by decide
      rw [Nat.toDigits_of_lt_base hlt]
      rintro c ⟨⟩
      exact hdigit n hlt h
    · have hle : 10 ≤ n := Nat.not_lt.1 hlt
      rw [Nat.toDigits_of_base_le (by decide) hle,
        List.head?_append_of_ne_nil _ Nat.toDigits_ne_nil]
      exact ih (n / 10) (by omega) (by omega)

/-- The digits of a number spell it, without a zero too many in front. -/
theorem spellsWhole_toDigits (n : Nat) : SpellsWhole (Nat.toDigits 10 n) := by
  by_cases hzero : n = 0
  · subst hzero
    exact .zero
  · have hall : Digits (Nat.toDigits 10 n) :=
      ⟨Nat.toDigits_ne_nil, fun c hc => Nat.isDigit_of_mem_toDigits (by decide) (by decide) hc⟩
    have hhead := head_toDigits hzero
    cases hdigits : Nat.toDigits 10 n with
    | nil => exact absurd hdigits Nat.toDigits_ne_nil
    | cons c digits =>
      rw [hdigits] at hall hhead
      exact .digits hall (hhead c rfl)

/-- A setting as it is written is a member of the grammar. -/
theorem memberText_written (field : TimeoutField) (ms : UInt64) :
    MemberText (field, ms)
      (field.name.toList ++ '"' :: [] ++ ':' :: [] ++ Nat.toDigits 10 ms.toNat) :=
  .intro (spellsChars_name field) .nil .nil (spellsWhole_toDigits _) Nat.ofDigitChars_ten_toDigits

theorem toList_render (c : Timeouts) :
    c.render.toList =
      '\x7b' :: '"' :: (TimeoutField.start.name.toList ++ '"' :: ':' ::
        (Nat.toDigits 10 c.startMs.toNat ++ ',' :: '"' :: (TimeoutField.stop.name.toList ++
          '"' :: ':' :: (Nat.toDigits 10 c.stopMs.toNat ++ ['\x7d'])))) := by
  unfold Timeouts.render TimeoutField.name
  simp only [String.toList_append, Nat.toString_eq_repr, Nat.toList_repr, List.append_assoc]
  rfl

/-- Settings as they are written are a value that gives them. -/
theorem written_gives (c : Timeouts) : ∃ value, SpellsText value c.render ∧ value.Gives c := by
  obtain ⟨first, hfirst, hfirst'⟩ := (memberText_written .start c.startMs).spelled .nil .nil
  obtain ⟨second, hsecond, hsecond'⟩ := (memberText_written .stop c.stopMs).spelled .nil .nil
  refine ⟨.object [first, second], ?_,
    .object (.cons hfirst (.cons hsecond .nil)) (by simp)⟩
  have hmembers := Spells.object (.intro hfirst' (.cons (.intro hsecond' .nil)))
  have htext := SpellsItem.intro .nil hmembers .nil
  unfold SpellsText
  rw [toList_render]
  simpa only [List.append_assoc, List.cons_append, List.nil_append, List.append_nil] using htext

end SettingsReader

open ServiceHost.Json SettingsReader

/-- A text is accepted exactly if it is a value that gives the settings that are read. -/
theorem Timeouts.parse_iff {text : String} {c : Timeouts} :
    Timeouts.parse text = .ok c ↔ ∃ value, SpellsText value text ∧ value.Gives c := by
  constructor
  · intro h
    unfold Timeouts.parse at h
    split at h
    · cases h
    next draft rest hread =>
    split at h
    · next hskip =>
      cases h
      obtain ⟨value, blanks, cs, hblanks, hspelled, hgives, hcs⟩ := readDraft_ok hread
      obtain ⟨after, hafter, hrest⟩ := skip_spec rest
      refine ⟨value, ?_, hgives⟩
      rw [hskip, List.append_nil] at hrest
      unfold SpellsText
      rw [hcs, hrest]
      exact .intro hblanks hspelled hafter
    · cases h
  · rintro ⟨value, hspelled, hgives⟩
    unfold SpellsText at hspelled
    generalize hcs : text.toList = cs at hspelled
    obtain @⟨_, before, cs, after, hbefore, hvalue, hafter⟩ := hspelled
    obtain ⟨draft, rfl, hread⟩ := readDraft_of_spelled hvalue hgives hbefore
    have hskip : skip after = [] := by
      simpa [skip] using skip_append hafter []
    unfold Timeouts.parse
    rw [hcs, hread]
    simp only [hskip]

/-- A text is accepted exactly if it is a value that gives the settings that are read, every other
text is refused, and settings that were written are read back. -/
theorem Timeouts.parse_exactly :
    (∀ text c, Timeouts.parse text = .ok c ↔ ∃ value, SpellsText value text ∧ value.Gives c) ∧
      (∀ text, (∃ fault, Timeouts.parse text = .error fault) ↔
        ¬∃ value c, SpellsText value text ∧ value.Gives c) ∧
      ∀ c, Timeouts.parse c.render = .ok c := by
  refine ⟨fun _ _ => Timeouts.parse_iff, fun text => ?_, fun c => ?_⟩
  · constructor
    · rintro ⟨fault, hfault⟩ ⟨value, c, h⟩
      rw [Timeouts.parse_iff.2 ⟨value, h⟩] at hfault
      cases hfault
    · intro hnone
      cases hparse : Timeouts.parse text with
      | error fault => exact ⟨fault, rfl⟩
      | ok c =>
        obtain ⟨value, h⟩ := Timeouts.parse_iff.1 hparse
        exact absurd ⟨value, c, h⟩ hnone
  · exact Timeouts.parse_iff.2 (written_gives c)

example : Timeouts.parse " [ 20 ] " = .ok ⟨20, 15000⟩ := by
  rfl

end ServiceHost
