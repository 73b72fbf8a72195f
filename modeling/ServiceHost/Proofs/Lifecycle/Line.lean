import ServiceHost.Proofs.Lifecycle.Course

/-!
# The line at the gate

Passes stand in a line at the gate, and the first of them is the only one that can begin or wait for
a callback (`Coordinator.Lined`). `LineChange` says what a move can do to the line, whatever it does
to the lifecycle: so no number is given twice (`asked_le_apply`), a pass keeps its phase
(`mem_line_apply`), and no pass begins to wait by a move of another (`progress?_of_apply`).
-/

namespace ServiceHost

variable {κ : Type}

namespace Coordinator

/-! ## The pass that waits stands first -/

/-- The pass that waits for a callback is the first in the line, which is of that phase, and no pass
in the line is still to ask. -/
structure Lined (c : Coordinator κ) : Prop where
  first : ∀ progress, c.current = some progress → ∃ id rest, c.line = (id, progress.phase) :: rest
  known : ∀ p ∈ c.line, p.1 < c.asked

/-- No pass stands at the gate of a new lifecycle. -/
theorem Lined.empty : (empty : Coordinator κ).Lined :=
  ⟨nofun, nofun⟩

/-- The pass that waits for a callback stands in the line, under the phase of the callback. -/
theorem Lined.mem_line {c : Coordinator κ} (h : c.Lined) {id : PassId} {progress : Progress κ}
    (hprogress : c.progress? id = some progress) : (id, progress.phase) ∈ c.line := by
  obtain ⟨⟨_, _, hline⟩, hcurrent⟩ := progress?_eq_some.1 hprogress
  obtain ⟨first, rest, hfirst⟩ := h.first progress hcurrent
  cases hline.symm.trans hfirst
  exact hline ▸ List.mem_cons_self

/-- A pass that goes on keeps its place until it is over, and no other is before it then. -/
theorem Lined.settle {c : Coordinator κ} {id : PassId} {phase : Phase}
    {rest : List (PassId × Phase)}
    (h : c.Lined) (hline : c.line = (id, phase) :: rest) {r : PassStep κ × Lifecycle κ}
    (hphase : ∀ progress, r.1.waiting = some progress → progress.phase = phase) :
    (c.settle r).2.Lined := by
  obtain ⟨step, l⟩ := r
  have hdrop : ∀ p ∈ c.line.drop 1, p.1 < c.asked := fun p hp => h.known p (List.mem_of_mem_drop hp)
  cases step with
  | call callback progress =>
    refine ⟨?_, h.known⟩
    rintro _ ⟨⟩
    exact ⟨id, rest, by rw [hphase progress rfl]; exact hline⟩
  | finish result => exact ⟨nofun, hdrop⟩
  | outOfRange index => exact ⟨nofun, hdrop⟩

/-- Every move keeps the pass that waits first in the line. -/
theorem Lined.apply {c : Coordinator κ} (h : c.Lined) (hc : c.Counted) (m : Move κ) :
    (c.apply m).Lined := by
  have hchange := c.change hc m
  generalize c.events m = events, c.apply m = c' at hchange
  have hstart {reading : Reading} {todo : List (RegisteredHook κ)} {l : Lifecycle κ}
      {r : PassStep κ × Lifecycle κ} (hr : Lifecycle.StartStretch reading todo l r)
      (progress : Progress κ) (hwaiting : r.1.waiting = some progress) :
      progress.phase = .start := by
    cases hr <;> cases hwaiting
    rfl
  have hstop {reading : Reading} {hooks : List (RegisteredHook κ)} {failures : StopFailures}
      {l : Lifecycle κ} {r : PassStep κ × Lifecycle κ}
      (hr : Lifecycle.StopStretch reading hooks failures l r) (progress : Progress κ)
      (hwaiting : r.1.waiting = some progress) : progress.phase = .stop := by
    cases hr <;> cases hwaiting
    rfl
  -- the pass that waits is of the phase that it has in the line
  have hbegun {id : PassId} {progress : Progress κ} (hprogress : c.progress? id = some progress) :
      ∃ rest, c.line = (id, progress.phase) :: rest := by
    obtain ⟨⟨phase, rest, hline⟩, hcurrent⟩ := progress?_eq_some.1 hprogress
    obtain ⟨id', rest', hline'⟩ := h.first progress hcurrent
    cases hline.symm.trans hline'
    exact ⟨rest, hline⟩
  cases hchange with
  | still => exact h
  | appended => exact ⟨h.first, h.known⟩
  | asked phase =>
    refine ⟨?_, ?_⟩
    · intro progress hcurrent
      obtain ⟨id, rest, hline⟩ := h.first progress hcurrent
      exact ⟨id, rest ++ [(c.asked, phase)], by show c.line ++ _ = _; rw [hline]; rfl⟩
    · intro p hp
      rcases List.mem_append.1 hp with hp | hp
      · exact Nat.lt_succ_of_lt (h.known p hp)
      · rw [List.mem_singleton.1 hp]
        exact Nat.lt_succ_self _
  | refused hturn =>
    obtain ⟨⟨rest, hline⟩, _⟩ := turn?_eq_some.1 hturn
    exact h.settle hline nofun
  | opened hturn _ hr =>
    obtain ⟨⟨rest, hline⟩, _⟩ := turn?_eq_some.1 hturn
    exact h.settle hline (hstart hr)
  | turned hturn hr =>
    obtain ⟨⟨rest, hline⟩, _⟩ := turn?_eq_some.1 hturn
    exact h.settle hline (hstop hr)
  | failed hprogress =>
    obtain ⟨rest, hline⟩ := hbegun hprogress
    exact h.settle hline nofun
  | started hprogress hr =>
    obtain ⟨rest, hline⟩ := hbegun hprogress
    exact h.settle hline (hstart hr)
  | stopped hprogress hr =>
    obtain ⟨rest, hline⟩ := hbegun hprogress
    exact h.settle hline (hstop hr)
  | left id =>
    refine ⟨fun progress hcurrent => ?_, fun p hp => h.known p (List.mem_filter.1 hp).1⟩
    have hsame : (c.progress? id).isSome = false ∧ c.current = some progress := by
      simp only [leave] at hcurrent
      split at hcurrent
      · cases hcurrent
      · next hnone => exact ⟨by simpa using hnone, hcurrent⟩
    obtain ⟨first, rest, hline⟩ := h.first progress hsame.2
    have hother : first ≠ id := by
      rintro rfl
      have := progress?_eq_some.2 ⟨⟨_, rest, hline⟩, hsame.2⟩
      rw [this] at hsame
      cases hsame.1
    refine ⟨first, rest.filter fun p => p.1 != id, ?_⟩
    show c.line.filter _ = _
    rw [hline, List.filter_cons_of_pos (by simpa using hother)]

end Coordinator

/-! ## The other passes -/

/-- The pass that a move is about, once it has asked. -/
def Move.pass? : Move κ → Option PassId
  | .append .. => none
  | .ask _ => none
  | .enter id _ => some id
  | .returned id _ _ => some id
  | .leave id => some id

namespace Coordinator

/-- What a move can do to the line of passes. -/
inductive LineChange (c : Coordinator κ) : Move κ → Coordinator κ → Prop
  | still (m : Move κ) (l : Lifecycle κ) : LineChange c m { c with lifecycle := l }
  | asked (phase : Phase) : LineChange c (.ask phase) (c.ask phase).2
  /-- The first pass begins or goes on. -/
  | settled {m id phase rest} (hm : m.pass? = some id) (hline : c.line = (id, phase) :: rest)
      (r : PassStep κ × Lifecycle κ) : LineChange c m (c.settle r).2
  | left (id : PassId) : LineChange c (.leave id) (c.leave id)

/-- A move lets one pass join the line at its end, or one leave it, or leaves the line as it is. -/
theorem lineChange {c : Coordinator κ} (hc : c.Counted) (m : Move κ) :
    LineChange c m (c.apply m) := by
  have hturned {id : PassId} {phase : Phase} (hturn : c.turn? id = some phase) :
      ∃ rest, c.line = (id, phase) :: rest :=
    (turn?_eq_some.1 hturn).1
  have hwaited {id : PassId} {progress : Progress κ}
      (hprogress : c.progress? id = some progress) : ∃ phase rest, c.line = (id, phase) :: rest :=
    (progress?_eq_some.1 hprogress).1
  have hchange := c.change hc m
  generalize c.events m = events, c.apply m = c' at hchange
  cases hchange with
  | still => exact .still m c.lifecycle
  | appended => exact .still _ _
  | asked phase => exact .asked phase
  | refused hturn =>
    obtain ⟨rest, hline⟩ := hturned hturn
    exact .settled rfl hline _
  | opened hturn =>
    obtain ⟨rest, hline⟩ := hturned hturn
    exact .settled rfl hline _
  | turned hturn =>
    obtain ⟨rest, hline⟩ := hturned hturn
    exact .settled rfl hline _
  | failed hprogress =>
    obtain ⟨phase, rest, hline⟩ := hwaited hprogress
    exact .settled rfl hline _
  | started hprogress =>
    obtain ⟨phase, rest, hline⟩ := hwaited hprogress
    exact .settled rfl hline _
  | stopped hprogress =>
    obtain ⟨phase, rest, hline⟩ := hwaited hprogress
    exact .settled rfl hline _
  | left id => exact .left id

/-- The passes in the line are those that were in it, and at most the one that asks. -/
theorem mem_line_apply {c : Coordinator κ} (hc : c.Counted) {m : Move κ} {p : PassId × Phase}
    (h : p ∈ (c.apply m).line) : p ∈ c.line ∨ ∃ phase, m = .ask phase ∧ p = (c.asked, phase) := by
  have hchange := c.lineChange hc m
  generalize c.apply m = c' at hchange h
  cases hchange with
  | still => exact .inl h
  | asked phase =>
    rcases List.mem_append.1 h with hmem | hmem
    · exact .inl hmem
    · exact .inr ⟨phase, rfl, List.mem_singleton.1 hmem⟩
  | settled _ _ r =>
    obtain ⟨step, l⟩ := r
    cases step with
    | call => exact .inl h
    | finish => exact .inl (List.mem_of_mem_drop h)
    | outOfRange => exact .inl (List.mem_of_mem_drop h)
  | left => exact .inl (List.mem_filter.1 h).1

/-- No number is given to two passes. -/
theorem asked_le_apply {c : Coordinator κ} (hc : c.Counted) (m : Move κ) :
    c.asked ≤ (c.apply m).asked := by
  have hchange := c.lineChange hc m
  generalize c.apply m = c' at hchange
  cases hchange with
  | still => exact Nat.le_refl _
  | asked => exact Nat.le_succ _
  | settled _ _ r =>
    obtain ⟨step, l⟩ := r
    cases step <;> exact Nat.le_refl _
  | left => exact Nat.le_refl _

/-- A number is given only to a pass that asks. -/
theorem asked_apply {c : Coordinator κ} (hc : c.Counted) {m : Move κ}
    (hm : ∀ phase, m ≠ .ask phase) : (c.apply m).asked = c.asked := by
  have hchange := c.lineChange hc m
  generalize c.apply m = c' at hchange
  cases hchange with
  | still => rfl
  | asked phase => exact absurd rfl (hm phase)
  | settled _ _ r =>
    obtain ⟨step, l⟩ := r
    cases step <;> rfl
  | left => rfl

/-- A pass does not begin to wait for a callback by a move of another. -/
theorem progress?_of_apply {c : Coordinator κ} (hc : c.Counted) (hl : c.Lined) {m : Move κ}
    {other : PassId} (hm : m.pass? ≠ some other) {progress : Progress κ}
    (h : (c.apply m).progress? other = some progress) : c.progress? other = some progress := by
  have hchange := c.lineChange hc m
  generalize c.apply m = c' at hchange h
  cases hchange with
  | still => exact h
  | asked phase =>
    obtain ⟨⟨_, _, hline'⟩, hcurrent⟩ := progress?_eq_some.1 h
    obtain ⟨id, rest, hline⟩ := hl.first progress hcurrent
    have happended : (c.ask phase).2.line = (id, progress.phase) :: (rest ++ [(c.asked, phase)]) :=
      congrArg (· ++ [(c.asked, phase)]) hline
    cases happended.symm.trans hline'
    exact progress?_eq_some.2 ⟨⟨_, rest, hline⟩, hcurrent⟩
  | settled hpass hline r =>
    -- the pass that the move is about stands first as long as it waits
    obtain ⟨⟨_, _, hfirst⟩, hcurrent⟩ := progress?_eq_some.1 h
    obtain ⟨step, l⟩ := r
    cases step with
    | call =>
      cases hline.symm.trans hfirst
      exact absurd hpass hm
    | finish => cases hcurrent
    | outOfRange => cases hcurrent
  | left id =>
    obtain ⟨⟨_, _, hline'⟩, hcurrent'⟩ := progress?_eq_some.1 h
    have hcurrent : c.current = some progress := by
      rcases c.leave_current id with hnone | hsame
      · cases hnone.symm.trans hcurrent'
      · exact hsame.symm.trans hcurrent'
    obtain ⟨first, rest, hline⟩ := hl.first progress hcurrent
    have hprogress := progress?_eq_some.2 ⟨⟨_, rest, hline⟩, hcurrent⟩
    have hfirst : first ≠ id := by
      rintro rfl
      have hnone : (c.leave first).current = none := by simp only [leave, hprogress]; rfl
      cases hnone.symm.trans hcurrent'
    have hfiltered : (c.leave id).line =
        (first, progress.phase) :: rest.filter fun p => p.1 != id := by
      show c.line.filter _ = _
      rw [hline, List.filter_cons_of_pos (by simpa using hfirst)]
    cases hfiltered.symm.trans hline'
    exact hprogress

end Coordinator

namespace Course

/-- The course is one that moves take from a new lifecycle on. -/
def Possible (course : Course κ) : Prop :=
  ∃ moves, course = of moves

variable {course : Course κ}

theorem Possible.next (h : course.Possible) (m : Move κ) : (course.next m).Possible := by
  obtain ⟨moves, rfl⟩ := h
  exact ⟨moves ++ [m], (run_append new moves [m]).symm⟩

/-- What holds of a new course and is kept by every move of a possible one holds of every course. -/
theorem Possible.induction {P : Course κ → Prop} (h : course.Possible) (hnew : P new)
    (hnext : ∀ course m, course.Possible → P course → P (course.next m)) : P course := by
  obtain ⟨moves, rfl⟩ := h
  have hboth (course : Course κ) (m : Move κ) (h : course.Possible ∧ P course) :
      (course.next m).Possible ∧ P (course.next m) :=
    ⟨h.1.next m, hnext course m h.1 h.2⟩
  exact (run_induction ⟨⟨[], rfl⟩, hnew⟩ hboth moves).2

/-- In every course the count stays within the hooks, and the pass that waits is the first in the
line. -/
theorem Possible.counted_and_lined (h : course.Possible) :
    course.coordinator.Counted ∧ course.coordinator.Lined := by
  obtain ⟨moves, rfl⟩ := h
  exact run_induction (P := fun course => course.coordinator.Counted ∧ course.coordinator.Lined)
    ⟨.empty, .empty⟩ (fun _ m h => ⟨h.1.apply m, h.2.apply h.1 m⟩) moves

theorem Possible.counted (h : course.Possible) : course.coordinator.Counted :=
  h.counted_and_lined.1

theorem Possible.lined (h : course.Possible) : course.coordinator.Lined :=
  h.counted_and_lined.2

end Course

end ServiceHost
