import Mathlib.Data.List.Perm.Subperm
import ServiceHost.Proofs.Settings.Tokens

/-!
# Members of an object of settings

A member that is a setting is read from after the opening quote of its name on, and its setting must
be new to what was read so far. What stands there is said once (`MemberText`), and both ways between
the reader and the grammar lead through it. The members after the first are taken one by one; each
is another setting, and there are two, so that the tries of the reader are enough
(`readMembers_ok`, `readMembers_of_spelled`).
-/

namespace ServiceHost

namespace SettingsReader

open ServiceHost.Json

/-! ## Names and drafts -/

theorem fieldOf_name (field : TimeoutField) : fieldOf field.name.toList = some field := by
  cases field <;> decide

/-- A name that is known is that of the setting. -/
theorem fieldOf_ok {name : List Char} {field : TimeoutField} (h : fieldOf name = some field) :
    name = field.name.toList := by
  unfold fieldOf at h
  split at h
  · next hname =>
    cases h
    exact hname
  split at h
  · next hname =>
    cases h
    exact hname
  · cases h

/-- The names are small letters and underscores. -/
theorem name_letters (field : TimeoutField) :
    ∀ c ∈ field.name.toList, 0x5f ≤ c.toNat ∧ c.toNat ≤ 0x7a := by
  have hall : field.name.toList.all (fun c => decide (0x5f ≤ c.toNat ∧ c.toNat ≤ 0x7a)) = true := by
    cases field <;> rfl
  intro c hc
  exact of_decide_eq_true (List.all_eq_true.1 hall c hc)

theorem oneUnitEach_name (field : TimeoutField) : OneUnitEach field.name.toList := by
  intro c hc
  have hletter := name_letters field c hc
  omega

theorem length_le_two {fields : List TimeoutField} (h : fields.Nodup) : fields.length ≤ 2 := by
  have hall : fields ⊆ [.start, .stop] := by
    rintro (_ | _) - <;> simp
  exact (List.Nodup.subperm h hall).length_le

theorem Draft.get_set (d : Draft) (value : UInt64) (field other : TimeoutField) :
    (d.set value field).get other = if other = field then some value else d.get other := by
  cases field <;> cases other <;> rfl

/-- The draft with more settings. -/
def Draft.fill (d : Draft) (settings : List (TimeoutField × UInt64)) : Draft :=
  settings.foldl (fun d setting => d.set setting.2 setting.1) d

theorem Draft.fill_cons (d : Draft) (field : TimeoutField) (ms : UInt64)
    (more : List (TimeoutField × UInt64)) :
    d.fill ((field, ms) :: more) = (d.set ms field).fill more :=
  rfl

/-- What was filled in is there, and all else is as before. -/
theorem Draft.get_fill {settings : List (TimeoutField × UInt64)}
    (h : (settings.map Prod.fst).Nodup) (d : Draft) (field : TimeoutField) :
    (d.fill settings).get field = (settings.lookup field).or (d.get field) := by
  induction settings generalizing d with
  | nil => rfl
  | cons setting more ih =>
    obtain ⟨first, ms⟩ := setting
    obtain ⟨hnew, hmore⟩ := List.nodup_cons.1 h
    rw [Draft.fill_cons, ih hmore, Draft.get_set, List.lookup_cons]
    by_cases hfield : field = first
    · subst hfield
      have hnone : more.lookup field = none := by
        rw [List.lookup_eq_none_iff]
        intro other hother
        rw [bne_iff_ne]
        rintro heq
        exact hnew (List.mem_map.2 ⟨other, hother, heq.symm⟩)
      simp [hnone]
    · have hbeq : (field == first) = false := beq_eq_false_iff_ne.2 hfield
      simp [hfield, hbeq]

/-- The settings that a draft was filled with, or those of the standard. -/
theorem Draft.complete_fill {settings : List (TimeoutField × UInt64)}
    (h : (settings.map Prod.fst).Nodup) :
    (Draft.empty.fill settings).complete =
      ⟨(settings.lookup .start).getD 15000, (settings.lookup .stop).getD 15000⟩ := by
  have hstart := Draft.get_fill h .empty .start
  have hstop := Draft.get_fill h .empty .stop
  simp only [Draft.get, Draft.empty, Option.or_none] at hstart hstop
  simp only [Draft.complete, Draft.empty, hstart, hstop]
  rfl

/-- The settings are new to the draft, and to each other. -/
structure Draft.Takes (d : Draft) (settings : List (TimeoutField × UInt64)) : Prop where
  nodup : (settings.map Prod.fst).Nodup
  free : ∀ field ∈ settings.map Prod.fst, d.get field = none

theorem Draft.takes_nil (d : Draft) : d.Takes [] :=
  ⟨List.nodup_nil, fun _ hfield => by cases hfield⟩

/-- A draft takes settings one after another, each that was not set before. -/
theorem Draft.takes_cons {d : Draft} {field : TimeoutField} {ms : UInt64}
    {more : List (TimeoutField × UInt64)} :
    d.Takes ((field, ms) :: more) ↔ d.get field = none ∧ (d.set ms field).Takes more := by
  constructor
  · rintro ⟨hnodup, hfree⟩
    obtain ⟨hnew, hmore⟩ := List.nodup_cons.1 hnodup
    obtain ⟨hfield, hrest⟩ := List.forall_mem_cons.1 hfree
    refine ⟨hfield, hmore, fun other hother => ?_⟩
    have hne : other ≠ field := by
      rintro rfl
      exact hnew hother
    rw [Draft.get_set, if_neg hne]
    exact hrest other hother
  · rintro ⟨hfield, hmore, hfree⟩
    simp only [Draft.get_set] at hfree
    have hfree' : ∀ other ∈ more.map Prod.fst, other ≠ field ∧ d.get other = none := by
      intro other hother
      have hnone := hfree other hother
      split at hnone
      · cases hnone
      · next hne => exact ⟨hne, hnone⟩
    refine ⟨List.nodup_cons.2 ⟨fun hmem => (hfree' field hmem).1 rfl, hmore⟩, ?_⟩
    exact List.forall_mem_cons.2 ⟨hfield, fun other hother => (hfree' other hother).2⟩

theorem Draft.takes_empty {settings : List (TimeoutField × UInt64)} :
    Draft.empty.Takes settings ↔ (settings.map Prod.fst).Nodup :=
  ⟨Takes.nodup, fun h => ⟨h, fun field _ => by cases field <;> rfl⟩⟩

/-! ## Members -/

/-- A member is a setting if its name is and its value are milliseconds. -/
theorem isSetting_iff {member : List Nat × Value} {field : TimeoutField} {ms : UInt64} :
    IsSetting member (field, ms) ↔
      member.1 = field.name.toList.flatMap units ∧ member.2.Milliseconds ms := by
  obtain ⟨us, value⟩ := member
  constructor
  · rintro (h | h) <;> exact ⟨rfl, h⟩
  · rintro ⟨rfl, h⟩
    cases field with
    | start => exact .start h
    | stop => exact .stop h

/-- A member from after the opening quote of its name on, up to its last digit. -/
inductive MemberText : TimeoutField × UInt64 → List Char → Prop
  | intro {field : TimeoutField} {ms : UInt64} {name after before whole : List Char}
      (hname : SpellsChars (field.name.toList.flatMap units) name) (hafter : Blank after)
      (hbefore : Blank before) (hwhole : SpellsWhole whole)
      (hms : Nat.ofDigitChars 10 whole 0 = ms.toNat) :
      MemberText (field, ms) (name ++ '"' :: after ++ ':' :: before ++ whole)

/-- With blanks around it, it is a member of the grammar. -/
theorem MemberText.spelled {setting : TimeoutField × UInt64} {text before after : List Char}
    (h : MemberText setting text) (hbefore : Blank before) (hafter : Blank after) :
    ∃ member, IsSetting member setting ∧ SpellsMember member (before ++ '"' :: text ++ after) := by
  obtain @⟨field, ms, name, blanks, blanks', whole, hname, hblanks, hblanks', hwhole, hms⟩ := h
  refine ⟨(field.name.toList.flatMap units, .number ⟨false, whole, none, none⟩),
    isSetting_iff.2 ⟨rfl, .intro hms⟩, ?_⟩
  have hitem := SpellsItem.intro hblanks' (.number (.of_whole hwhole)) hafter
  have hmember := SpellsMember.intro hbefore hname hblanks hitem
  simpa only [List.append_assoc, List.cons_append] using hmember

/-- An item that is a number of milliseconds has blanks around its digits. -/
theorem digits_of_spelled {value : Value} {ms : UInt64} {cs : List Char} (h : SpellsItem value cs)
    (hms : value.Milliseconds ms) :
    ∃ before whole after, Blank before ∧ SpellsWhole whole ∧
      Nat.ofDigitChars 10 whole 0 = ms.toNat ∧ Blank after ∧ cs = before ++ whole ++ after := by
  obtain @⟨whole, ms, hms⟩ := hms
  obtain @⟨value, before, cs, after, hbefore, hnumber, hafter⟩ := h
  cases hnumber with
  | number hnumber =>
  obtain ⟨hwhole, rfl⟩ := hnumber.whole
  exact ⟨before, cs, after, hbefore, hwhole, hms, hafter, rfl⟩

/-- A member of the grammar that is a setting has blanks around it. -/
theorem memberText_of_spelled {member : List Nat × Value} {setting : TimeoutField × UInt64}
    {cs : List Char} (h : SpellsMember member cs) (hsetting : IsSetting member setting) :
    ∃ before text after, Blank before ∧ MemberText setting text ∧ Blank after ∧
      cs = before ++ '"' :: text ++ after := by
  obtain ⟨field, ms⟩ := setting
  cases h with
  | @intro us value before name blanks cs' hbefore hname hblanks hvalue =>
  obtain ⟨rfl, hms⟩ := isSetting_iff.1 hsetting
  obtain ⟨blanks', whole, after, hblanks', hwhole, hms, hafter, rfl⟩ := digits_of_spelled hvalue hms
  refine ⟨before, _, after, hbefore, .intro hname hblanks hblanks' hwhole hms, hafter, ?_⟩
  simp only [List.append_assoc, List.cons_append]

/-- What is read of a member is what it spells, and its setting is new. -/
theorem readMember_ok {draft draft' : Draft} {cs rest : List Char}
    (h : readMember draft cs = .ok (draft', rest)) :
    ∃ field ms text, MemberText (field, ms) text ∧ draft.get field = none ∧
      draft' = draft.set ms field ∧ cs = text ++ rest := by
  unfold readMember at h
  split at h
  · cases h
  next name after hread =>
  split at h
  · cases h
  next field hfield =>
  split at h
  · cases h
  next hnew =>
  split at h
  · next after' hcolon =>
    split at h
    · next value rest' hvalue =>
      cases h
      obtain ⟨body, rfl, hbody⟩ := readString_ok hread
      obtain ⟨blanks, hblanks, hafter⟩ := skip_spec after
      obtain ⟨blanks', whole, hblanks', hwhole, hms, hafter'⟩ := readMilliseconds_ok hvalue
      rw [fieldOf_ok hfield] at hbody
      refine ⟨field, value, _, .intro hbody hblanks hblanks' hwhole hms,
        Option.not_isSome_iff_eq_none.1 hnew, rfl, ?_⟩
      rw [hafter, hcolon, hafter']
      simp only [List.append_assoc, List.cons_append]
    · cases h
  · cases h

/-- A member whose setting is new is read. -/
theorem readMember_of_spelled {draft : Draft} {field : TimeoutField} {ms : UInt64}
    {text rest : List Char} (h : MemberText (field, ms) text) (hnew : draft.get field = none)
    (hrest : EndsNumber rest) :
    readMember draft (text ++ rest) = .ok (draft.set ms field, rest) := by
  cases h with
  | @intro _ _ name after before whole hname hafter hbefore hwhole hms =>
  have hread : readString (name ++ '"' :: (after ++ ':' :: (before ++ whole ++ rest))) =
      some (field.name.toList, after ++ ':' :: (before ++ whole ++ rest)) :=
    readString_of_spelled hname rfl (oneUnitEach_name field)
  have hskip : skip (after ++ ':' :: (before ++ whole ++ rest)) =
      ':' :: (before ++ whole ++ rest) := by
    rw [skip_append hafter]
    exact skip_cons (by decide) _
  simp only [List.append_assoc, List.cons_append] at hread hskip ⊢
  unfold readMember
  have hvalue := readMilliseconds_of_spelled hbefore hwhole hms hrest
  simp only [List.append_assoc] at hvalue
  simp [hread, fieldOf_name, hnew, hskip, hvalue]

/-- What is read of the members after another one is what they spell, and their settings are new. -/
theorem readMembers_ok {tries : Nat} {draft draft' : Draft} {cs rest : List Char}
    (h : readMembers tries draft cs = .ok (draft', rest)) :
    ∃ settings members blanks text, Blank blanks ∧ MoreMembers members text ∧
      List.Forall₂ IsSetting members settings ∧ draft.Takes settings ∧
      draft' = draft.fill settings ∧ cs = blanks ++ text ++ '\x7d' :: rest := by
  fun_induction readMembers tries draft cs with
  | case1 tries draft cs rest' hskip =>
    cases h
    obtain ⟨blanks, hblanks, hcs⟩ := skip_spec cs
    refine ⟨[], [], blanks, [], hblanks, .nil, .nil, Draft.takes_nil _, rfl, ?_⟩
    rw [hcs, hskip, List.append_nil]
  | case2 draft cs after tries hskip after' hquote draft₁ rest₁ hread ih =>
    obtain ⟨settings, members, blanks, text, hblanks, hmore, hsettings, htakes, rfl, rfl⟩ := ih h
    obtain ⟨field, ms, text', hmember, hnew, rfl, rfl⟩ := readMember_ok hread
    obtain ⟨blanks₀, hblanks₀, hcs⟩ := skip_spec cs
    obtain ⟨before, hbefore, hafter⟩ := skip_spec after
    obtain ⟨member, hsetting, hspelled⟩ := hmember.spelled hbefore hblanks
    refine ⟨(field, ms) :: settings, member :: members, blanks₀, _, hblanks₀,
      .cons (.intro hspelled hmore), .cons hsetting hsettings, Draft.takes_cons.2 ⟨hnew, htakes⟩,
      rfl, ?_⟩
    rw [hcs, hskip, hafter, hquote]
    simp only [List.append_assoc, List.cons_append]
  | _ => cases h

theorem head_moreMembers {members : List (List Nat × Value)} {text : List Char}
    (h : MoreMembers members text) : ∀ c ∈ text.head?, c = ',' := by
  cases h <;> simp

/-- Members after another one are read if their settings are new and there are as many tries. -/
theorem readMembers_of_spelled {members : List (List Nat × Value)}
    {settings : List (TimeoutField × UInt64)} {tries : Nat} {draft : Draft}
    {blanks text rest : List Char} (hsettings : List.Forall₂ IsSetting members settings)
    (hblanks : Blank blanks) (hmore : MoreMembers members text) (htakes : draft.Takes settings)
    (htries : settings.length ≤ tries) :
    readMembers tries draft (blanks ++ (text ++ '\x7d' :: rest)) =
      .ok (draft.fill settings, rest) := by
  induction hsettings generalizing tries draft blanks text with
  | nil =>
    cases hmore with
    | nil =>
      unfold readMembers
      rw [List.nil_append, skip_blank_cons hblanks (by decide)]
      rfl
    | cons hspelled => cases hspelled
  | @cons member setting members more hsetting hsettings ih =>
    obtain ⟨field, ms⟩ := setting
    obtain ⟨hnew, htakes⟩ := Draft.takes_cons.1 htakes
    cases hmore with
    | cons hspelled =>
    cases hspelled with
    | @intro _ _ cs ds hmember hmore =>
    obtain ⟨before, text, after, hbefore, htext, hafter, rfl⟩ :=
      memberText_of_spelled hmember hsetting
    obtain ⟨tries, rfl⟩ := Nat.exists_eq_add_of_le' (Nat.le_of_lt_succ (Nat.lt_succ_of_le
      (Nat.le_trans (Nat.le_add_left 1 _) htries)))
    have hrest : EndsNumber (after ++ (ds ++ '\x7d' :: rest)) :=
      .close hafter (head_moreMembers hmore) (.inr rfl)
    have hread := readMember_of_spelled htext hnew hrest
    simp only [List.append_assoc, List.cons_append]
    unfold readMembers
    rw [skip_blank_cons hblanks (by decide)]
    simp only
    rw [skip_blank_cons hbefore (by decide)]
    simp only [hread]
    exact ih hafter hmore htakes (Nat.le_of_succ_le_succ htries)

end SettingsReader

end ServiceHost
