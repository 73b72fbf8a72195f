import ServiceHost.Lifecycle.Record

/-!
# The report on a pass

What is reported of a pass is a list of records, and nothing in the report depends on more than that
list. Three things are said about it.

The order of a report is told without a sort: the records are those of the list, the slowest first,
and those of one runtime stand as they stand in the list (`HookRecords.Ranks`). There is one such
order (`Ranks.unique`), and it is the one in which the records are sorted and shown.

The time that all callbacks took is summed in two words, with a carry where the lower one is full.
Each step of the loop either adds exactly or fails since the sum so far is already too great
(`Tally.add?_spec`), so the whole loop comes to one comparison of the exact sum with the greatest
length of time (`sum?_eq`). This comparison knows nothing about the order of the records.
-/

namespace ServiceHost

/-! ## Sums -/

namespace Duration

/-- The exact sum of lengths of time, in nanoseconds. -/
def nanosOf (ds : List Duration) : Nat :=
  (ds.map (·.nanos)).foldr (· + ·) 0

@[simp] theorem nanosOf_nil : nanosOf [] = 0 := rfl

@[simp] theorem nanosOf_cons (d : Duration) (ds : List Duration) :
    nanosOf (d :: ds) = d.nanos + nanosOf ds := rfl

theorem nanosOf_perm {ds ds' : List Duration} (h : ds.Perm ds') : nanosOf ds = nanosOf ds' :=
  (h.map Duration.nanos).sum_nat

/-- A length is its seconds and what is beyond them. -/
theorem nanos_eq (d : Duration) : d.seconds * second + d.subsecond = d.nanos :=
  Nat.div_add_mod' ..

/-- One nanosecond more is too many seconds for a word. -/
theorem greatest_succ : greatest.nanos + 1 = UInt64.size * second := by
  decide

/-- Two words are added unless the sum is no word. -/
theorem addWord?_spec (a b : Nat) :
    (addWord? a b = some (a + b) ∧ a + b < UInt64.size) ∨
      (addWord? a b = none ∧ UInt64.size ≤ a + b) := by
  unfold addWord?
  split
  · next h => exact .inl ⟨rfl, h⟩
  · next h => exact .inr ⟨rfl, Nat.le_of_not_lt h⟩

namespace Tally

/-- The nanoseconds that were counted. -/
def value (t : Tally) : Nat :=
  t.seconds * second + t.nanos

/-- What is carried over is not lost. -/
theorem carry (t : Tally) :
    (t.seconds + t.nanos / second) * second + t.nanos % second = t.value := by
  rw [value, Nat.add_mul, Nat.add_assoc, Nat.div_add_mod']

/-- So many seconds are too many. -/
theorem greatest_lt {seconds nanos : Nat} (h : UInt64.size ≤ seconds) :
    greatest.nanos < seconds * second + nanos := by
  have hmul := Nat.mul_le_mul_right second h
  have hgreatest := greatest_succ
  omega

/-- One step counts exactly, or the sum is too great. -/
theorem add?_spec (t : Tally) (d : Duration) :
    (∃ t', t.add? d = some t' ∧ t'.value = t.value + d.nanos) ∨
      (t.add? d = none ∧ greatest.nanos < t.value + d.nanos) := by
  have hsum : (t.seconds + d.seconds) * second + (t.nanos + d.subsecond) = t.value + d.nanos := by
    rw [value, ← d.nanos_eq, Nat.add_mul]
    omega
  unfold add?
  obtain ⟨hseconds, -⟩ | ⟨hseconds, hfull⟩ := addWord?_spec t.seconds d.seconds <;> rw [hseconds]
  case inr =>
    exact .inr ⟨rfl, hsum ▸ greatest_lt hfull⟩
  dsimp only
  obtain ⟨hnanos, -⟩ | ⟨hnanos, -⟩ := addWord?_spec t.nanos d.subsecond <;> rw [hnanos] <;>
    dsimp only
  case inl =>
    exact .inl ⟨_, rfl, hsum⟩
  have hcarried : (t.seconds + d.seconds + t.nanos / second) * second +
      (t.nanos % second + d.subsecond) = t.value + d.nanos := by
    have hcarry := carry ⟨t.seconds + d.seconds, t.nanos⟩
    simp only [value] at hcarry
    omega
  obtain ⟨hover, -⟩ | ⟨hover, hfull⟩ := addWord?_spec (t.seconds + d.seconds) (t.nanos / second) <;>
    rw [hover]
  case inl =>
    exact .inl ⟨_, rfl, hcarried⟩
  case inr =>
    exact .inr ⟨rfl, hcarried ▸ greatest_lt hfull⟩

/-- The loop counts exactly, or the sum is too great. -/
theorem foldlM_spec (ds : List Duration) (t : Tally) :
    (∃ t', ds.foldlM add? t = some t' ∧ t'.value = t.value + nanosOf ds) ∨
      (ds.foldlM add? t = none ∧ greatest.nanos < t.value + nanosOf ds) := by
  induction ds generalizing t with
  | nil => exact .inl ⟨t, List.foldlM_nil .., (Nat.add_zero _).symm⟩
  | cons d ds ih =>
    rw [List.foldlM_cons, nanosOf_cons, ← Nat.add_assoc]
    obtain ⟨t', hadd, hvalue⟩ | ⟨hadd, hgreat⟩ := t.add?_spec d <;> rw [hadd]
    · rw [← hvalue]
      exact ih t'
    · exact .inr ⟨rfl, Nat.lt_add_right _ hgreat⟩

/-- What was counted is a length of time, unless it is too great. -/
theorem total?_spec (t : Tally) :
    (t.total? = some ⟨t.value⟩ ∧ t.value ≤ greatest.nanos) ∨
      (t.total? = none ∧ greatest.nanos < t.value) := by
  have hcarry := t.carry
  unfold total?
  obtain ⟨hseconds, hfits⟩ | ⟨hseconds, hfull⟩ :=
    addWord?_spec t.seconds (t.nanos / second) <;> rw [hseconds]
  · refine .inl ⟨congrArg (fun nanos => some (Duration.mk nanos)) hcarry, ?_⟩
    have hsub : t.nanos % second < second := Nat.mod_lt _ (by decide)
    have hmul := Nat.mul_le_mul_right second (Nat.succ_le_of_lt hfits)
    rw [Nat.succ_mul] at hmul
    have hgreatest := greatest_succ
    omega
  · exact .inr ⟨rfl, hcarry ▸ greatest_lt hfull⟩

end Tally

/-- A sum comes to one comparison of the exact sum. -/
theorem sum?_eq (ds : List Duration) :
    sum? ds = if nanosOf ds ≤ greatest.nanos then some ⟨nanosOf ds⟩ else none := by
  have hstart : (⟨0, 0⟩ : Tally).value + nanosOf ds = nanosOf ds := Nat.zero_add _
  unfold sum?
  obtain ⟨t, hfold, hvalue⟩ | ⟨hfold, hgreat⟩ := Tally.foldlM_spec ds ⟨0, 0⟩ <;> rw [hfold]
  · rw [hstart] at hvalue
    rw [← hvalue]
    obtain ⟨htotal, hle⟩ | ⟨htotal, hlt⟩ := t.total?_spec
    · rw [if_pos hle]
      exact htotal
    · rw [if_neg (Nat.not_le_of_lt hlt)]
      exact htotal
  · rw [hstart] at hgreat
    rw [if_neg (Nat.not_le_of_lt hgreat)]

/-! ## Texts -/

/-- A length of time is shown on one line. -/
theorem newline_notMem_text (d : Duration) : '\n' ∉ d.text.toList := by
  have hdigits (n : Nat) : '\n' ∉ Nat.toDigits 10 n := fun h =>
    absurd (Nat.isDigit_of_mem_toDigits (by decide) (by decide) h) (by decide)
  have hpadded (width n : Nat) : '\n' ∉ padded width n := by
    unfold padded
    rw [List.mem_append, List.mem_replicate]
    rintro (⟨-, hzero⟩ | hdigit)
    · cases hzero
    · exact hdigits n hdigit
  have hfraction (width n : Nat) : '\n' ∉ fractionText width n := by
    unfold fractionText
    have hkept : '\n' ∉ ((padded width n).reverse.dropWhile (· == '0')).reverse := fun h =>
      hpadded width n (List.mem_reverse.1 ((List.dropWhile_sublist _).mem (List.mem_reverse.1 h)))
    split
    · exact List.not_mem_nil
    · rw [List.mem_cons]
      rintro (hpoint | hdigit)
      · cases hpoint
      · exact hkept hdigit
  have hunit {places : Nat} {unit : String} (h : '\n' ∉ unit.toList) :
      '\n' ∉ (d.inUnit places unit).toList := by
    rw [inUnit, String.toList_append, String.toList_ofList, List.mem_append, List.mem_append]
    rintro ((hwhole | hrest) | hunit)
    · exact hdigits _ hwhole
    · exact hfraction _ _ hrest
    · exact h hunit
  unfold text
  repeat' split
  all_goals exact hunit (by decide)

end Duration

/-! ## The order of a report -/

/-- A record is one line if the place of its hook is. -/
theorem HookRecord.newline_notMem_text {r : HookRecord} (h : '\n' ∉ r.caller.toList) :
    '\n' ∉ r.text.toList := by
  rw [text, String.toList_append, String.toList_append, List.mem_append, List.mem_append]
  rintro ((hcaller | htook) | hruntime)
  · exact h hcaller
  · exact absurd htook (by decide)
  · exact r.runtime.newline_notMem_text hruntime

namespace HookRecords

/-- No record stands behind one that took less time. -/
def SlowestFirst (rs : HookRecords) : Prop :=
  rs.Pairwise fun a b => b.runtime.nanos ≤ a.runtime.nanos

/-- The records of one runtime. -/
def ofRuntime (d : Duration) (rs : HookRecords) : HookRecords :=
  rs.filter (·.runtime = d)

/-- The records in the order of a report: the slowest first, and those of one runtime as they stand.
-/
structure Ranks (rs ranked : HookRecords) : Prop where
  perm : ranked.Perm rs
  slowestFirst : ranked.SlowestFirst
  ties (d : Duration) : ranked.ofRuntime d = rs.ofRuntime d

variable {rs ranked ranked' : HookRecords}

/-- There is one order of a report. -/
theorem Ranks.unique (h : Ranks rs ranked) (h' : Ranks rs ranked') : ranked = ranked' := by
  have hperm := h.perm.trans h'.perm.symm
  have hties (d : Duration) := (h.ties d).trans (h'.ties d).symm
  have hfirst := h.slowestFirst
  have hfirst' := h'.slowestFirst
  clear h h'
  induction ranked generalizing ranked' with
  | nil => exact hperm.nil_eq
  | cons a rest ih =>
    cases ranked' with
    | nil => exact absurd hperm.eq_nil (List.cons_ne_nil _ _)
    | cons b rest' =>
      obtain ⟨hslower, hrest⟩ := List.pairwise_cons.1 hfirst
      obtain ⟨hslower', hrest'⟩ := List.pairwise_cons.1 hfirst'
      -- Each of the two heads is among the records behind which the other stands.
      have hruntime : a.runtime = b.runtime := by
        have hab : b.runtime.nanos ≤ a.runtime.nanos := by
          obtain rfl | hb := List.mem_cons.1 (hperm.symm.subset List.mem_cons_self)
          · exact Nat.le_refl _
          · exact hslower b hb
        have hba : a.runtime.nanos ≤ b.runtime.nanos := by
          obtain rfl | ha := List.mem_cons.1 (hperm.subset List.mem_cons_self)
          · exact Nat.le_refl _
          · exact hslower' a ha
        exact congrArg Duration.mk (Nat.le_antisymm hba hab)
      obtain rfl : a = b := by
        have hheads := hties a.runtime
        rw [ofRuntime, ofRuntime, List.filter_cons_of_pos (by simp),
          List.filter_cons_of_pos (by simp [hruntime])] at hheads
        exact (List.cons.inj hheads).1
      refine congrArg (a :: ·) (ih hperm.cons_inv (fun d => ?_) hrest hrest')
      have htie := hties d
      simp only [ofRuntime, List.filter_cons] at htie
      split at htie
      · exact (List.cons.inj htie).2
      · exact htie

theorem slower_trans (a b c : HookRecord)
    (hab : decide (b.runtime.nanos ≤ a.runtime.nanos) = true)
    (hbc : decide (c.runtime.nanos ≤ b.runtime.nanos) = true) :
    decide (c.runtime.nanos ≤ a.runtime.nanos) = true := by
  simp only [decide_eq_true_eq] at *
  exact Nat.le_trans hbc hab

theorem slower_total (a b : HookRecord) :
    (decide (b.runtime.nanos ≤ a.runtime.nanos) || decide (a.runtime.nanos ≤ b.runtime.nanos)) =
      true := by
  simp only [Bool.or_eq_true, decide_eq_true_eq]
  exact Nat.le_total ..

/-- Records are sorted in the order of a report. -/
theorem sortedByRuntime_ranks (rs : HookRecords) : Ranks rs rs.sortedByRuntime := by
  have hperm : rs.sortedByRuntime.Perm rs := List.mergeSort_perm ..
  refine ⟨hperm, ?first, fun d => ?ties⟩
  case first =>
    exact (List.pairwise_mergeSort slower_trans slower_total rs).imp of_decide_eq_true
  case ties =>
    -- The records of one runtime are in order as they stand, so sorting keeps them apart in it.
    have hinorder : (rs.ofRuntime d).Pairwise fun a b =>
        decide (b.runtime.nanos ≤ a.runtime.nanos) = true := by
      refine List.pairwise_of_forall_mem_list fun a ha b hb => ?_
      rw [of_decide_eq_true (List.mem_filter.1 ha).2, of_decide_eq_true (List.mem_filter.1 hb).2]
      exact decide_eq_true (Nat.le_refl _)
    have hsub : (rs.ofRuntime d).Sublist rs.sortedByRuntime :=
      List.sublist_mergeSort slower_trans slower_total hinorder List.filter_sublist
    have hsame : (rs.ofRuntime d).filter (·.runtime = d) = rs.ofRuntime d :=
      List.filter_eq_self.2 fun a ha => (List.mem_filter.1 ha).2
    have hwithin := hsub.filter (·.runtime = d)
    rw [hsame] at hwithin
    exact (hwithin.eq_of_length (hperm.filter _).length_eq.symm).symm

theorem sortedByRuntime_eq_iff : rs.sortedByRuntime = ranked ↔ Ranks rs ranked :=
  ⟨fun h => h ▸ sortedByRuntime_ranks rs, (sortedByRuntime_ranks rs).unique⟩

/-- Records that are in the order of a report stay as they are, and no others do. -/
theorem sortedByRuntime_eq_self_iff : rs.sortedByRuntime = rs ↔ rs.SlowestFirst := by
  rw [sortedByRuntime_eq_iff]
  exact ⟨fun h => h.slowestFirst, fun h => ⟨.refl _, h, fun _ => rfl⟩⟩

/-- The lines of a report are those of its records. -/
theorem splitOn_text (hlines : ∀ r ∈ rs, '\n' ∉ r.caller.toList) (hne : rs ≠ []) :
    rs.text.toList.splitOn '\n' = rs.sortedByRuntime.map (·.text.toList) := by
  have hperm := (sortedByRuntime_ranks rs).perm
  have hlist : rs.text.toList = ['\n'].intercalate (rs.sortedByRuntime.map (·.text.toList)) := by
    rw [text, String.toList_intercalate, List.map_map]
    rfl
  rw [hlist]
  refine List.splitOn_intercalate '\n' ?_ ?_
  · intro line hline
    obtain ⟨r, hr, rfl⟩ := List.mem_map.1 hline
    exact HookRecord.newline_notMem_text (hlines r (hperm.subset hr))
  · intro hnil
    rw [List.map_eq_nil_iff] at hnil
    rw [hnil] at hperm
    exact hne hperm.nil_eq.symm

/-! ## The time of all callbacks -/

/-- The exact time that all callbacks took, in nanoseconds. -/
def exactTotal (rs : HookRecords) : Nat :=
  Duration.nanosOf (rs.map (·.runtime))

theorem totalRuntime?_eq (rs : HookRecords) :
    rs.totalRuntime? = if rs.exactTotal ≤ Duration.greatest.nanos then some ⟨rs.exactTotal⟩
      else none :=
  Duration.sum?_eq _

theorem totalRuntime?_perm {rs' : HookRecords} (h : rs.Perm rs') :
    rs.totalRuntime? = rs'.totalRuntime? := by
  have hexact : rs.exactTotal = rs'.exactTotal := Duration.nanosOf_perm (h.map _)
  rw [totalRuntime?_eq, totalRuntime?_eq, hexact]

/-- There is no total exactly if it is more than can be told. -/
theorem totalRuntime?_none_iff :
    rs.totalRuntime? = none ↔ Duration.greatest.nanos < rs.exactTotal := by
  rw [totalRuntime?_eq]
  split
  · next hle => exact ⟨nofun, fun hlt => absurd hle (Nat.not_le_of_lt hlt)⟩
  · next hlt => exact ⟨fun _ => Nat.lt_of_not_le hlt, fun _ => rfl⟩

/-- A total is the exact sum, in seconds that fit a word and in less than a second beyond them. -/
theorem totalRuntime?_exact {d : Duration} (h : rs.totalRuntime? = some d) :
    d.seconds * Duration.second + d.subsecond = rs.exactTotal ∧ d.seconds < UInt64.size ∧
      d.subsecond < Duration.second := by
  rw [totalRuntime?_eq] at h
  split at h
  · next hle =>
    cases h
    refine ⟨Duration.nanos_eq _, ?_, Nat.mod_lt _ (by decide)⟩
    rw [Duration.seconds, Nat.div_lt_iff_lt_mul (by decide), ← Duration.greatest_succ]
    exact Nat.lt_succ_of_le hle
  · cases h

/-- The report on a pass. The records are sorted in the one order in which the slowest stand first
and those of one runtime as they stood: a sorted list stays as it is, and no other does. They are
shown in this order, and each has one line, unless a caller's name itself has more than one. The
total is the same in whatever order the records stand: there is none exactly if the exact sum is
beyond the greatest length of time, and otherwise it is the exact sum. -/
theorem report_specified (rs : HookRecords) :
    (∀ ranked, rs.sortedByRuntime = ranked ↔ Ranks rs ranked) ∧
    rs.sortedByRuntime.sortedByRuntime = rs.sortedByRuntime ∧
    (rs.sortedByRuntime = rs ↔ rs.SlowestFirst) ∧
    rs.text = "\n".intercalate (rs.sortedByRuntime.map (·.text)) ∧
    ((∀ r ∈ rs, '\n' ∉ r.caller.toList) → rs ≠ [] →
      rs.text.toList.splitOn '\n' = rs.sortedByRuntime.map (·.text.toList)) ∧
    (∀ rs' : HookRecords, rs.Perm rs' → rs.totalRuntime? = rs'.totalRuntime?) ∧
    (Duration.greatest.seconds = UInt64.size - 1 ∧ Duration.greatest.subsecond = 999999999) ∧
    (rs.totalRuntime? = none ↔ Duration.greatest.nanos < rs.exactTotal) ∧
    ∀ d, rs.totalRuntime? = some d →
      d.seconds * Duration.second + d.subsecond = rs.exactTotal ∧ d.seconds < UInt64.size ∧
        d.subsecond < Duration.second := by
  refine ⟨fun ranked => sortedByRuntime_eq_iff, ?idempotent, sortedByRuntime_eq_self_iff, rfl,
    splitOn_text, fun rs' => totalRuntime?_perm, by decide, totalRuntime?_none_iff,
    fun d => totalRuntime?_exact⟩
  case idempotent =>
    exact sortedByRuntime_eq_self_iff.2 (sortedByRuntime_ranks rs).slowestFirst

/-- Three callbacks that took the greatest length of time together, two of them equally long. -/
def closeRecords : HookRecords :=
  [⟨"cache", .ofMillis 250⟩, ⟨"queue", .ofParts (UInt64.size - 1) 499999999⟩,
    ⟨"index", .ofMillis 250⟩]

/-- The slowest is shown first and the two others as they ended. In another order they take no more
and no less, and with one nanosecond more there is no total. -/
theorem closeRecords_report :
    closeRecords.text.toList.splitOn '\n' =
        ["queue took 18446744073709551615.499999999s".toList, "cache took 250ms".toList,
          "index took 250ms".toList] ∧
      totalRuntime? closeRecords.reverse = some .greatest ∧
      totalRuntime? (⟨"clock", ⟨1⟩⟩ :: closeRecords) = none := by
  obtain ⟨hsorted, -, -, -, hlines, htotal, -, -, -⟩ := report_specified closeRecords
  have hranks : Ranks closeRecords
      [⟨"queue", .ofParts (UInt64.size - 1) 499999999⟩, ⟨"cache", .ofMillis 250⟩,
        ⟨"index", .ofMillis 250⟩] := by
    refine ⟨.swap .., by unfold SlowestFirst; decide, fun d => ?_⟩
    by_cases hd : Duration.ofMillis 250 = d
    · subst hd
      rfl
    · simp [ofRuntime, closeRecords, List.filter_cons, hd]
  refine ⟨?lines, ?total, ?more⟩
  case lines =>
    rw [hlines (by decide) (by decide), (hsorted _).2 hranks]
    rfl
  case total =>
    rw [← htotal _ (List.reverse_perm _).symm]
    rfl
  case more =>
    obtain ⟨-, -, -, -, -, -, -, hnone, -⟩ := report_specified (⟨"clock", ⟨1⟩⟩ :: closeRecords)
    exact hnone.2 (by decide)

end HookRecords

end ServiceHost
