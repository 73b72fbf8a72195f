import Mathlib.Data.List.Induction
import ServiceHost.Proofs.Lifecycle.Serial

/-!
# Passes are serialized

Any number of calls stand at the gate of a lifecycle, leave it where they please, and hooks are
appended at any time. In every course at most one callback is executing, and it is one of the call
that stands first (`executing_eq`); the calls come to their turns in the order in which they asked
(`Schedule.InOrder`); and each works on the hooks that were appended before its turn, however many
came since (`Schedule.Works`). What is seen and what becomes of the lifecycle are what comes of
executing the calls one after another in that order (`passes_serialized`).
-/

namespace ServiceHost

variable {κ : Type}

/-! ## What is kept along a course -/

namespace Course

/-- What is kept of the moves of a course, where each is noted together with what it came upon. -/
def traceFrom {β : Type} (note : Coordinator κ → β → Move κ → β) :
    Course κ → β → List (Move κ) → β
  | _, kept, [] => kept
  | course, kept, m :: rest =>
    traceFrom note (course.next m) (note course.coordinator kept m) rest

/-- What is kept of the moves of a course from a new lifecycle on. -/
def trace {β : Type} (note : Coordinator κ → β → Move κ → β) (kept : β) (moves : List (Move κ)) :
    β :=
  traceFrom note .new kept moves

variable {β : Type} (note : Coordinator κ → β → Move κ → β) (kept : β)

/-- What is noted of one more move comes last. -/
theorem trace_concat (moves : List (Move κ)) (m : Move κ) :
    trace note kept (moves ++ [m]) = note (of moves).coordinator (trace note kept moves) m := by
  have hfrom (course : Course κ) (kept : β) :
      traceFrom note course kept (moves ++ [m]) =
        note (course.run moves).coordinator (traceFrom note course kept moves) m := by
    induction moves generalizing course kept with
    | nil => rfl
    | cons first rest ih => exact ih (course.next first) _
  exact hfrom .new kept

theorem of_concat (moves : List (Move κ)) (m : Move κ) : of (moves ++ [m]) = (of moves).next m :=
  run_append new moves [m]

/-- What holds of a new course and what is kept of it, and is kept by every move of a possible
course, holds of every course and what is kept of it. -/
theorem trace_induction {P : Course κ → β → Prop} (hnew : P new kept)
    (hnext : ∀ course kept m, course.Possible → P course kept →
      P (course.next m) (note course.coordinator kept m)) (moves : List (Move κ)) :
    P (of moves) (trace note kept moves) := by
  induction moves using List.reverseRecOn with
  | nil => exact hnew
  | append_singleton moves m ih =>
    rw [trace_concat, of_concat]
    exact hnext _ _ m ⟨moves, rfl⟩ ih

end Course

/-- The schedule of the calls and hooks of a course. -/
def Schedule.of (moves : List (Move κ)) : Schedule κ :=
  Course.trace Schedule.note .empty moves

/-! ## Callbacks that are executing -/

/-- The callbacks that are executing after one more event, each with its call. -/
def Event.noteExecuting (executing : List (PassId × RegisteredHook κ)) :
    Event κ → List (PassId × RegisteredHook κ)
  | .began pass _ hook => executing ++ [(pass, hook)]
  | .ended pass _ _ _ => executing.filter (·.1 != pass)
  | .opened .. => executing
  | .finished .. => executing

namespace Coordinator

/-- The callbacks that are executing after one more move. A call that is dropped takes those that it
has begun with it. -/
def noteExecuting (c : Coordinator κ) (executing : List (PassId × RegisteredHook κ)) (m : Move κ) :
    List (PassId × RegisteredHook κ) :=
  match m with
  | .leave id => executing.filter (·.1 != id)
  | m => (c.events m).foldl Event.noteExecuting executing

/-- The call that stands first, with the hook whose callback it waits for. -/
def holder? (c : Coordinator κ) : Option (PassId × RegisteredHook κ) :=
  c.line.head?.bind fun first => c.current.map fun progress => (first.1, progress.hook)

/-- The hook at the gate is that of the pass which is in progress. -/
theorem holder?_eq_some {c : Coordinator κ} {id : PassId} {hook : RegisteredHook κ} :
    c.holder? = some (id, hook) ↔
      ∃ progress, c.progress? id = some progress ∧ progress.hook = hook := by
  simp only [holder?, progress?_eq_some]
  cases c.line with
  | nil => simp
  | cons first rest =>
    cases c.current with
    | none => simp
    | some progress =>
      simp only [List.head?_cons, Option.map_some, Option.bind_some, Option.some.injEq,
        Prod.mk.injEq]
      constructor
      · rintro ⟨rfl, rfl⟩
        exact ⟨progress, ⟨⟨_, _, rfl⟩, rfl⟩, rfl⟩
      · rintro ⟨_, ⟨⟨_, _, hfirst⟩, rfl⟩, rfl⟩
        cases hfirst
        exact ⟨rfl, rfl⟩

/-- A pass whose turn has come waits for nothing yet. -/
theorem holder?_of_turn {c : Coordinator κ} {id : PassId} {phase : Phase}
    (h : c.turn? id = some phase) : c.holder? = none := by
  simp [holder?, current_of_turn? h]

/-- After a turn the hook at the gate is the one whose callback the pass waits for. -/
theorem holder?_settle {c : Coordinator κ} {id : PassId} {phase : Phase}
    {others : List (PassId × Phase)} (hline : c.line = (id, phase) :: others)
    (r : PassStep κ × Lifecycle κ) :
    (c.settle r).2.holder? = r.1.waiting.map fun progress => (id, progress.hook) := by
  obtain ⟨step, l⟩ := r
  cases step with
  | call => simp only [settle, holder?, hline, List.head?_cons, Option.bind_some,
      PassStep.waiting]
  | finish => simp [settle, holder?, PassStep.waiting]
  | outOfRange => simp [settle, holder?, PassStep.waiting]

/-- At the end of a stretch the callback that it waits for is executing. -/
theorem executing_events (step : PassStep κ) (id : PassId) :
    (step.events id).foldl Event.noteExecuting [] =
      (step.waiting.map fun progress => (id, progress.hook)).toList := by
  cases step <;> rfl

/-- The call that stands first is still there when another leaves, and waits for the same. -/
theorem progress?_leave_of_ne {c : Coordinator κ} {left id : PassId} {progress : Progress κ}
    (hne : id ≠ left) (h : c.progress? id = some progress) :
    (c.leave left).progress? id = some progress := by
  obtain ⟨⟨phase, rest, hline⟩, hcurrent⟩ := progress?_eq_some.1 h
  have hnone : c.progress? left = none := by simp [progress?, hline, hcurrent, hne]
  refine progress?_eq_some.2 ⟨⟨phase, rest.filter (·.1 != left), ?_⟩, ?_⟩
  · show c.line.filter _ = _
    rw [hline, List.filter_cons_of_pos (by simpa using hne)]
  · simp only [leave, hnone, Option.isSome_none, Bool.false_eq_true, if_false]
    exact hcurrent

/-- Every move keeps it so that only the callback of the first call is executing. -/
theorem noteExecuting_eq {c : Coordinator κ} (hc : c.Counted) (hl : c.Lined) (m : Move κ) :
    c.noteExecuting c.holder?.toList m = (c.apply m).holder?.toList := by
  cases m with
  | append callSite hook =>
    rw [apply_append]
    rfl
  | ask phase =>
    show c.holder?.toList = _
    congr 1
    simp only [holder?, apply, ask]
    cases hcurrent : c.current with
    | none => simp
    | some progress =>
      obtain ⟨id, rest, hline⟩ := hl.first progress hcurrent
      simp [hline]
  | enter id reading =>
    cases hturn : c.turn? id with
    | none =>
      simp only [noteExecuting, events, apply, enter, hturn, Option.map_none, List.foldl_nil]
    | some phase =>
      obtain ⟨⟨others, hline⟩, -⟩ := turn?_eq_some.1 hturn
      rw [apply_enter reading hturn, holder?_settle hline, ← executing_events]
      simp only [noteExecuting, events_enter reading hturn, holder?_of_turn hturn,
        List.foldl_append, Option.toList_none]
      split <;> rfl
  | returned id result reading =>
    cases hprogress : c.progress? id with
    | none =>
      simp only [noteExecuting, events, apply, returned, hprogress, Option.map_none,
        List.foldl_nil]
    | some progress =>
      obtain ⟨⟨phase, others, hline⟩, -⟩ := progress?_eq_some.1 hprogress
      have hholder : c.holder? = some (id, progress.hook) :=
        holder?_eq_some.2 ⟨progress, hprogress, rfl⟩
      rw [apply_returned result reading hprogress, holder?_settle hline, ← executing_events]
      simp [noteExecuting, events_returned result reading hprogress, hholder,
        Event.noteExecuting]
  | leave left =>
    show c.holder?.toList.filter (·.1 != left) = (c.leave left).holder?.toList
    have hkept {id : PassId} {hook : RegisteredHook κ}
        (h : (c.leave left).holder? = some (id, hook)) :
        c.holder? = some (id, hook) ∧ id ≠ left := by
      obtain ⟨progress, hprogress, rfl⟩ := holder?_eq_some.1 h
      have hne : id ≠ left := by
        rintro rfl
        cases (c.progress?_leave id).symm.trans hprogress
      refine ⟨holder?_eq_some.2 ⟨progress, ?_, rfl⟩, hne⟩
      exact progress?_of_apply (m := .leave left) hc hl (by simpa [Move.pass?] using hne.symm)
        hprogress
    cases hafter : (c.leave left).holder? with
    | some call =>
      obtain ⟨id, hook⟩ := call
      obtain ⟨hbefore, hne⟩ := hkept hafter
      simp [hbefore, hne]
    | none =>
      cases hbefore : c.holder? with
      | none => rfl
      | some call =>
        obtain ⟨id, hook⟩ := call
        obtain ⟨progress, hprogress, rfl⟩ := holder?_eq_some.1 hbefore
        by_cases hid : id = left
        · simp [hid]
        · have hstays := holder?_eq_some.2 ⟨progress, progress?_leave_of_ne hid hprogress, rfl⟩
          cases hafter.symm.trans hstays

end Coordinator

/-- The callbacks that are executing after some moves, each with its call. -/
def executing (moves : List (Move κ)) : List (PassId × RegisteredHook κ) :=
  Course.trace Coordinator.noteExecuting [] moves

/-- In every course only the callback is executing that the first call waits for. -/
theorem executing_eq (moves : List (Move κ)) :
    executing moves = (Course.of moves).coordinator.holder?.toList := by
  refine Course.trace_induction _ _ (P := fun course calls =>
    calls = course.coordinator.holder?.toList) rfl (fun course calls m hpossible hcalls => ?_) moves
  rw [hcalls]
  exact Coordinator.noteExecuting_eq hpossible.counted hpossible.lined m

namespace Coordinator

/-- A stretch of the first pass begins a callback of that pass, of the phase that it stands in the
line for. -/
theorem first_of_settle {c : Coordinator κ} {first id : PassId} {phase phase' : Phase}
    {others : List (PassId × Phase)} {hook : RegisteredHook κ} {r : PassStep κ × Lifecycle κ}
    (hline : c.line = (first, phase') :: others) (hl : (c.settle r).2.Lined)
    (h : .began id phase hook ∈ r.1.events first) : ∃ rest, c.line = (id, phase) :: rest := by
  obtain ⟨step, l⟩ := r
  cases step with
  | call callback progress =>
    cases List.mem_singleton.1 h
    obtain ⟨id', rest, hline'⟩ := hl.first progress rfl
    cases hline.symm.trans hline'
    exact ⟨others, hline⟩
  | finish => cases List.mem_singleton.1 h
  | outOfRange => cases h

/-- A callback is begun only by the call that stands first. -/
theorem first_of_began {c : Coordinator κ} (hc : c.Counted) (hl : c.Lined) {m : Move κ}
    {id : PassId} {phase : Phase} {hook : RegisteredHook κ}
    (h : .began id phase hook ∈ c.events m) : ∃ rest, c.line = (id, phase) :: rest := by
  have hafter := hl.apply hc m
  cases m with
  | append => cases h
  | ask => cases h
  | leave => cases h
  | enter other reading =>
    cases hturn : c.turn? other with
    | none => simp [events, hturn] at h
    | some phase' =>
      obtain ⟨⟨others, hline⟩, -⟩ := turn?_eq_some.1 hturn
      rw [apply_enter reading hturn] at hafter
      rw [events_enter reading hturn] at h
      rcases List.mem_append.1 h with hopened | hstep
      · split at hopened <;> simp at hopened
      · exact first_of_settle hline hafter hstep
  | returned other result reading =>
    cases hprogress : c.progress? other with
    | none => simp [events, hprogress] at h
    | some progress =>
      obtain ⟨⟨phase', others, hline⟩, -⟩ := progress?_eq_some.1 hprogress
      rw [apply_returned result reading hprogress] at hafter
      rw [events_returned result reading hprogress] at h
      rcases List.mem_cons.1 h with hended | hstep
      · cases hended
      · exact first_of_settle hline hafter hstep

end Coordinator

/-! ## The order of the turns -/

namespace Schedule

theorem turns_eq (s : Schedule κ) :
    s.turns = s.earlier.filterMap SerialStep.turn? ++ s.last.toList := by
  have hlate : s.lateSteps.filterMap SerialStep.turn? = [] := by
    simp [lateSteps, SerialStep.turn?]
  cases hlast : s.last <;> simp [turns, steps, hlate, hlast, SerialStep.turn?]

/-- The calls came to their turns in the order in which they asked, and those that still stand in
the line and have not begun asked later. -/
structure InOrder (s : Schedule κ) (c : Coordinator κ) : Prop where
  line : (c.line.map Prod.fst).Pairwise (· < ·)
  turns : (s.turns.map Turn.id).Pairwise (· < ·)
  asked : ∀ id ∈ s.turns.map Turn.id, id < c.asked
  waiting : ∀ id ∈ s.turns.map Turn.id, ∀ p ∈ c.waiting, id < p.1

namespace InOrder

variable {s : Schedule κ} {c : Coordinator κ}

theorem empty : (empty : Schedule κ).InOrder (.empty : Coordinator κ) :=
  ⟨List.Pairwise.nil, List.Pairwise.nil, nofun, nofun⟩

/-- The line stays in the order of asking. -/
theorem line_apply (hline : (c.line.map Prod.fst).Pairwise (· < ·)) (hc : c.Counted) (hl : c.Lined)
    (m : Move κ) : ((c.apply m).line.map Prod.fst).Pairwise (· < ·) := by
  have hchange := c.lineChange hc m
  generalize c.apply m = c' at hchange
  cases hchange with
  | still => exact hline
  | asked phase =>
    show ((c.line ++ [(c.asked, phase)]).map Prod.fst).Pairwise (· < ·)
    rw [List.map_append, List.pairwise_append]
    refine ⟨hline, List.pairwise_singleton .., ?_⟩
    intro id hid last hlast
    obtain ⟨p, hp, rfl⟩ := List.mem_map.1 hid
    rw [List.mem_singleton.1 hlast]
    exact hl.known p hp
  | settled _ _ r =>
    obtain ⟨step, l⟩ := r
    cases step with
    | call => exact hline
    | finish => exact hline.sublist ((List.drop_sublist 1 c.line).map Prod.fst)
    | outOfRange => exact hline.sublist ((List.drop_sublist 1 c.line).map Prod.fst)
  | left id => exact hline.sublist (List.filter_sublist.map Prod.fst)

/-- What brings no call to its turn. -/
theorem unturned (h : s.InOrder c) {s' : Schedule κ} {c' : Coordinator κ}
    (hids : s'.turns.map Turn.id = s.turns.map Turn.id)
    (hline : (c'.line.map Prod.fst).Pairwise (· < ·)) (hasked : c.asked ≤ c'.asked)
    (hwaiting : ∀ p ∈ c'.waiting, p ∈ c.waiting ∨ c.asked ≤ p.1) : s'.InOrder c' := by
  refine ⟨hline, hids ▸ h.turns, ?_, ?_⟩
  · rw [hids]
    intro id hid
    exact Nat.lt_of_lt_of_le (h.asked id hid) hasked
  · rw [hids]
    intro id hid p hp
    rcases hwaiting p hp with hbefore | hlater
    · exact h.waiting id hid p hbefore
    · exact Nat.lt_of_lt_of_le (h.asked id hid) hlater

/-- Every move keeps it so. -/
theorem next (h : s.InOrder c) (hc : c.Counted) (hl : c.Lined) (m : Move κ) :
    (s.note c m).InOrder (c.apply m) := by
  have hline := line_apply h.line hc hl m
  have hasked := c.asked_le_apply hc m
  have hnoted := s.noted hc hl m
  generalize s.note c m = s', c.events m = events, c.apply m = c' at hnoted hline hasked
  cases hnoted with
  | idle _ _ hwaiting => exact h.unturned rfl hline hasked hwaiting
  | appended =>
    refine h.unturned ?_ hline hasked fun _ hp => .inl hp
    rw [turns_eq, turns_eq]
  | @entered id phase reading hturn =>
    obtain ⟨⟨others, hfirst⟩, hcurrent⟩ := Coordinator.turn?_eq_some.1 hturn
    have hids : (Schedule.turns ⟨s.steps, some ⟨id, phase, reading, []⟩, []⟩).map Turn.id =
        s.turns.map Turn.id ++ [id] := by
      rw [turns_eq]
      exact List.map_append
    have hknown : id < c.asked := hl.known (id, phase) (hfirst ▸ List.mem_cons_self)
    have hbefore : ∀ id' ∈ s.turns.map Turn.id, id' < id := by
      intro id' hid'
      refine h.waiting id' hid' (id, phase) ?_
      rw [Coordinator.waiting, hcurrent, hfirst]
      exact List.mem_cons_self
    have hafter : ∀ p ∈ others, id < p.1 := by
      have hsorted := h.line
      rw [hfirst, List.map_cons, List.pairwise_cons] at hsorted
      exact fun p hp => hsorted.1 p.1 (List.mem_map_of_mem hp)
    refine ⟨hline, ?_, ?_, ?_⟩
    · rw [hids, List.pairwise_append]
      exact ⟨h.turns, List.pairwise_singleton .., by simpa using hbefore⟩
    · rw [hids]
      intro id' hid'
      refine Nat.lt_of_lt_of_le ?_ hasked
      rcases List.mem_append.1 hid' with hid' | hid'
      · exact h.asked id' hid'
      · rw [List.mem_singleton.1 hid']
        exact hknown
    · rw [hids, Coordinator.waiting_settle, hfirst]
      intro id' hid' p hp
      rcases List.mem_append.1 hid' with hid' | hid'
      · exact Nat.lt_trans (hbefore id' hid') (hafter p hp)
      · rw [List.mem_singleton.1 hid']
        exact hafter p hp
  | returned result reading hprogress =>
    have hids : ∀ returned, (Schedule.turns { s with last := s.last.map fun turn =>
        { turn with returns := turn.returns ++ [returned] } }).map Turn.id =
          s.turns.map Turn.id := by
      intro returned
      rw [turns_eq, turns_eq, List.map_append, List.map_append]
      cases s.last <;> rfl
    refine h.unturned (hids _) hline hasked fun p hp => .inl ?_
    rw [Coordinator.waiting_settle] at hp
    rw [Coordinator.waiting, Coordinator.current_of_progress? hprogress]
    exact hp

end InOrder

end Schedule

/-! ## The hooks of a pass -/

/-- The hook that is appended by a move, if its name is a proper one. -/
def Move.registered? : Move κ → Option (RegisteredHook κ)
  | .append callSite hook => hook.registered? callSite
  | .ask _ => none
  | .enter .. => none
  | .returned .. => none
  | .leave _ => none

/-- What came of a callback of the pass, if the move says so, and what the pass is told then. -/
def Move.returned? (id : PassId) : Move κ → Option (Except Failure Unit × Reading)
  | .returned other result reading => if other = id then some (result, reading) else none
  | .append .. => none
  | .ask _ => none
  | .enter .. => none
  | .leave _ => none

/-- Only appending a hook changes the hooks. -/
theorem Coordinator.hooks_apply (c : Coordinator κ) (m : Move κ) :
    (c.apply m).lifecycle.hooks = c.lifecycle.hooks ++ m.registered?.toList := by
  have hsame : c.lifecycle.hooks = c.lifecycle.hooks ++ [] := (List.append_nil _).symm
  cases m with
  | append callSite hook =>
    rw [apply_append]
    rfl
  | ask => exact hsame
  | leave => exact hsame
  | enter id reading =>
    cases hturn : c.turn? id with
    | none =>
      simp only [apply, enter, hturn, Option.map_none]
      exact hsame
    | some phase =>
      rw [apply_enter reading hturn, settle_lifecycle, Lifecycle.hooks_begin]
      exact hsame
  | returned id result reading =>
    cases hprogress : c.progress? id with
    | none =>
      simp only [apply, returned, hprogress, Option.map_none]
      exact hsame
    | some progress =>
      rw [apply_returned result reading hprogress, settle_lifecycle, Lifecycle.hooks_resume]
      exact hsame

/-- The hooks of a course are those that were appended, in this order. -/
theorem Course.hooks_of (moves : List (Move κ)) :
    (of moves).coordinator.lifecycle.hooks = moves.filterMap Move.registered? := by
  induction moves using List.reverseRecOn with
  | nil => rfl
  | append_singleton moves m ih =>
    rw [of_concat, List.filterMap_append]
    show ((of moves).coordinator.apply m).lifecycle.hooks = _
    rw [Coordinator.hooks_apply, ih]
    cases hm : m.registered? <;> simp [hm]

/-- Calls that are executed one after another leave the hooks alone. -/
theorem Execution.hooks_of (steps : List (SerialStep κ)) :
    (of steps).lifecycle.hooks = steps.filterMap SerialStep.registered? := by
  have hcall (id : PassId) (returns : List (Except Failure Unit × Reading)) (e : Execution κ) :
      (returns.foldl (goOn id) e).lifecycle.hooks = e.lifecycle.hooks := by
    induction returns generalizing e with
    | nil => rfl
    | cons returned rest ih =>
      refine (ih _).trans ?_
      unfold goOn
      cases e.waiting with
      | none => rfl
      | some progress => exact Lifecycle.hooks_resume ..
  induction steps using List.reverseRecOn with
  | nil => rfl
  | append_singleton steps last ih =>
    rw [of_append, List.filterMap_append, ← ih]
    cases last with
    | append callSite hook =>
      simp only [List.foldl_cons, List.foldl_nil, step, append_eq]
      cases hhook : hook.registered? callSite <;>
        simp [Lifecycle.withHooks, SerialStep.registered?, hhook]
    | call turn =>
      have hentered := hcall turn.id turn.returns ((of steps).enter turn.id turn.phase turn.reading)
      exact (hentered.trans (Lifecycle.hooks_begin ..)).trans (List.append_nil _).symm

/-- The pass has these hooks to go over: a start pass has the rest of them before it, and a stop
pass goes back over them. -/
def Progress.WorksOn (hooks : List (RegisteredHook κ)) : Progress κ → Prop
  | .starting hook rest _ => ∃ behind, hooks = behind ++ hook :: rest
  | .stopping hook own _ _ => own = hooks ∧ hook ∈ hooks

section
variable {reading : Reading} {hooks : List (RegisteredHook κ)} {l : Lifecycle κ}
  {progress next : Progress κ}

/-- A start pass that waits for a callback works on the hooks that it has been given. -/
theorem Lifecycle.StartStretch.worksOn {todo : List (RegisteredHook κ)}
    {r : PassStep κ × Lifecycle κ} (h : StartStretch reading todo l r)
    (behind : List (RegisteredHook κ)) (hwaiting : r.1.waiting = some next) :
    next.WorksOn (behind ++ todo) := by
  cases h with
  | done => cases hwaiting
  | cancelled => cases hwaiting
  | @call passed hook rest _ htodo =>
    cases hwaiting
    exact ⟨behind ++ passed, by rw [htodo, List.append_assoc]⟩

/-- A stop pass that waits for a callback works on the hooks that were counted. -/
theorem Lifecycle.StopStretch.worksOn {failures : StopFailures} {r : PassStep κ × Lifecycle κ}
    (h : StopStretch reading hooks failures l r) (hwaiting : r.1.waiting = some next) :
    next.WorksOn hooks := by
  cases h with
  | done => cases hwaiting
  | cancelled => cases hwaiting
  | call hcounted =>
    cases hwaiting
    refine ⟨rfl, List.mem_of_mem_take (i := l.started) ?_⟩
    rw [hcounted]
    exact List.mem_append_right _ List.mem_cons_self

/-- A pass that begins works on the hooks that there are. -/
theorem Lifecycle.worksOn_begin {phase : Phase} (hle : l.started ≤ l.hooks.length)
    (hwaiting : (l.begin phase reading).1.waiting = some next) : next.WorksOn l.hooks := by
  cases phase with
  | stop => exact (beginStop_stretch reading hle).worksOn hwaiting
  | start =>
    by_cases hstate : l.Startable
    · exact (beginStart_stretch reading hstate).worksOn [] hwaiting
    · simp only [begin, beginStart_of_not_startable reading hstate] at hwaiting
      cases hwaiting

/-- A pass that goes on works on the hooks that it worked on before. -/
theorem Lifecycle.worksOn_resume {result : Except Failure Unit} (h : progress.WorksOn hooks)
    (hle : ∀ hook own failures begun, progress = .stopping hook own failures begun →
      l.started ≤ own.length)
    (hwaiting : (l.resume progress result reading).1.waiting = some next) :
    next.WorksOn hooks := by
  cases progress with
  | starting hook rest begun =>
    obtain ⟨behind, rfl⟩ := h
    rw [List.append_cons]
    cases result with
    | error source => cases hwaiting
    | ok => exact (resume_starting_stretch hook rest begun reading l).worksOn _ hwaiting
  | stopping hook own failures begun =>
    obtain ⟨rfl, -⟩ := h
    exact (resume_stopping_stretch hook failures begun result reading
      (hle _ _ _ _ rfl)).worksOn hwaiting

end

namespace Schedule

/-- The pass that waits for a callback works on the hooks that were appended before its turn. -/
def Works (s : Schedule κ) (c : Coordinator κ) : Prop :=
  ∀ id progress, c.progress? id = some progress →
    progress.WorksOn (s.earlier.filterMap SerialStep.registered?)

/-- Every move keeps it so. -/
theorem Works.next {s : Schedule κ} {course : Course κ} (h : s.Works course.coordinator)
    (hs : s.Reproduces course) (hc : course.coordinator.Counted) (hl : course.coordinator.Lined)
    (m : Move κ) :
    (s.note course.coordinator m).Works (course.coordinator.apply m) := by
  have hnoted := s.noted hc hl m
  generalize s.note course.coordinator m = s', course.coordinator.events m = events,
    course.coordinator.apply m = c' at hnoted
  intro id progress hprogress
  cases hnoted with
  | idle _ hbefore => exact h id progress (hbefore id progress hprogress)
  | appended => exact h id progress hprogress
  | entered reading hturn =>
    obtain ⟨⟨others, hline⟩, -⟩ := Coordinator.turn?_eq_some.1 hturn
    obtain ⟨-, hwaiting⟩ := Coordinator.progress?_settle hline hprogress
    show progress.WorksOn (s.steps.filterMap _)
    rw [← Execution.hooks_of, hs.lifecycle]
    exact Lifecycle.worksOn_begin hc.started hwaiting
  | @returned first before result reading hbefore =>
    obtain ⟨⟨phase, others, hline⟩, hcurrent⟩ := Coordinator.progress?_eq_some.1 hbefore
    obtain ⟨-, hwaiting⟩ := Coordinator.progress?_settle hline hprogress
    refine Lifecycle.worksOn_resume (h first before hbefore) ?_ hwaiting
    rintro hook own failures begun rfl
    exact (hc.stopping hook own failures begun hcurrent).2.1

/-- In every course the schedule reproduces the course, its calls are in the order of their numbers,
and the pass at the gate works on the hooks that were appended before its turn. -/
theorem of_moves (moves : List (Move κ)) :
    (of moves).Reproduces (Course.of moves) ∧ (of moves).InOrder (Course.of moves).coordinator ∧
      (of moves).Works (Course.of moves).coordinator := by
  refine Course.trace_induction _ _ (P := fun course s => Reproduces s course ∧
    InOrder s course.coordinator ∧ Works s course.coordinator) ⟨.new, .empty, nofun⟩ ?_ moves
  rintro course s m hpossible ⟨hs, horder, hworks⟩
  have hc := hpossible.counted
  have hl := hpossible.lined
  exact ⟨hs.next hc hl m, horder.next hc hl m, hworks.next hs hc hl m⟩

/-- The last call of a schedule came to its turn between these moves. Before it stands what was done
by the moves before, and what came of its callbacks is what the moves after say. -/
structure Came (moves : List (Move κ)) (turn : Turn) (before after : List (Move κ)) : Prop where
  split : moves = before ++ .enter turn.id turn.reading :: after
  entered : (Course.of before).coordinator.turn? turn.id = some turn.phase
  earlier : (of moves).earlier = (of before).steps
  /-- A pass that is over is told nothing. -/
  returns : turn.returns <+: after.filterMap (Move.returned? turn.id)
  waits : ∀ progress, (Course.of moves).coordinator.progress? turn.id = some progress →
    turn.returns = after.filterMap (Move.returned? turn.id)

theorem of_concat (moves : List (Move κ)) (m : Move κ) :
    of (moves ++ [m]) = (of moves).note (Course.of moves).coordinator m :=
  Course.trace_concat _ _ moves m

section
variable {moves before after : List (Move κ)} {turn : Turn} {m : Move κ}

/-- A callback of the last call has returned. -/
theorem Came.told (h : Came moves turn before after) {progress : Progress κ}
    (hprogress : (Course.of moves).coordinator.progress? turn.id = some progress)
    {result : Except Failure Unit} {reading : Reading} (hm : m = .returned turn.id result reading)
    (hearlier : (of (moves ++ [m])).earlier = (of moves).earlier) :
    Came (moves ++ [m]) { turn with returns := turn.returns ++ [(result, reading)] } before
      (after ++ [m]) := by
  have hreturns : turn.returns ++ [(result, reading)] =
      (after ++ [m]).filterMap (Move.returned? turn.id) := by
    rw [List.filterMap_append, ← h.waits progress hprogress, hm]
    simp [Move.returned?]
  refine ⟨?_, h.entered, hearlier.trans h.earlier, hreturns ▸ List.prefix_refl _,
    fun _ _ => hreturns⟩
  rw [h.split, List.append_assoc, List.cons_append]

/-- A move by which the last call is told nothing. -/
theorem Came.other (h : Came moves turn before after)
    (hearlier : (of (moves ++ [m])).earlier = (of moves).earlier)
    (hwaits : ∀ progress,
      ((Course.of moves).coordinator.apply m).progress? turn.id = some progress →
        (Course.of moves).coordinator.progress? turn.id = some progress ∧
          m.returned? turn.id = none) :
    Came (moves ++ [m]) turn before (after ++ [m]) := by
  refine ⟨?_, h.entered, hearlier.trans h.earlier, ?_, fun progress hprogress => ?_⟩
  · rw [h.split, List.append_assoc, List.cons_append]
  · rw [List.filterMap_append]
    exact h.returns.trans (List.prefix_append _ _)
  · rw [Course.of_concat] at hprogress
    obtain ⟨hbefore, hm⟩ := hwaits progress hprogress
    rw [h.waits progress hbefore, List.filterMap_append, List.filterMap_cons_none hm,
      List.filterMap_nil, List.append_nil]

/-- A move of another pass, or of none. -/
theorem Came.beside (h : Came moves turn before after) (hpass : m.pass? ≠ some turn.id)
    (hearlier : (of (moves ++ [m])).earlier = (of moves).earlier) :
    Came (moves ++ [m]) turn before (after ++ [m]) := by
  have hpossible : (Course.of moves).Possible := ⟨moves, rfl⟩
  refine h.other hearlier fun progress hwaits => ⟨?_, ?_⟩
  · exact Coordinator.progress?_of_apply hpossible.counted hpossible.lined hpass hwaits
  · cases m with
    | returned id => exact if_neg fun hid => hpass (congrArg some hid)
    | append => rfl
    | ask => rfl
    | enter => rfl
    | leave => rfl

/-- A move after which the pass does not wait. -/
theorem Came.over (h : Came moves turn before after)
    (hnone : ((Course.of moves).coordinator.apply m).progress? turn.id = none)
    (hearlier : (of (moves ++ [m])).earlier = (of moves).earlier) :
    Came (moves ++ [m]) turn before (after ++ [m]) :=
  h.other hearlier fun _ hwaits => nomatch hnone.symm.trans hwaits

end

/-- The last call of a schedule came to its turn by a move. -/
theorem came {moves : List (Move κ)} {turn : Turn} (h : (of moves).last = some turn) :
    ∃ before after, Came moves turn before after := by
  induction moves using List.reverseRecOn generalizing turn with
  | nil => cases h
  | append_singleton moves m ih =>
    have hconcat := of_concat moves m
    rw [hconcat] at h
    cases m with
    | append callSite hook =>
      obtain ⟨before, after, hcame⟩ := ih h
      exact ⟨before, _, hcame.beside nofun ((congrArg earlier hconcat).trans rfl)⟩
    | ask phase =>
      obtain ⟨before, after, hcame⟩ := ih h
      exact ⟨before, _, hcame.beside nofun (congrArg earlier hconcat)⟩
    | leave left =>
      obtain ⟨before, after, hcame⟩ := ih h
      refine ⟨before, after ++ [.leave left], ?_⟩
      by_cases hid : left = turn.id
      · subst hid
        exact hcame.over ((Course.of moves).coordinator.progress?_leave _)
          (congrArg earlier hconcat)
      · exact hcame.beside (fun hpass => hid (Option.some.inj hpass)) (congrArg earlier hconcat)
    | enter id reading =>
      simp only [note] at h hconcat
      cases hturn : (Course.of moves).coordinator.turn? id with
      | some phase =>
        simp only [hturn] at h hconcat
        cases h
        exact ⟨moves, [], rfl, hturn, congrArg earlier hconcat, List.nil_prefix, fun _ _ => rfl⟩
      | none =>
        simp only [hturn] at h hconcat
        obtain ⟨before, after, hcame⟩ := ih h
        refine ⟨before, _, hcame.other (congrArg earlier hconcat) fun progress hwaits => ⟨?_, rfl⟩⟩
        rwa [Coordinator.apply, Coordinator.enter, hturn] at hwaits
    | returned id result reading =>
      simp only [note] at h hconcat
      cases hprogress : (Course.of moves).coordinator.progress? id with
      | some progress =>
        rw [hprogress, Option.isSome_some, if_pos rfl] at h hconcat
        obtain ⟨told, hlast, rfl⟩ := Option.map_eq_some_iff.1 h
        obtain ⟨before, after, hcame⟩ := ih hlast
        obtain ⟨-, _, hsame, rfl⟩ := (of_moves moves).1.waiting id progress hprogress
        cases hlast.symm.trans hsame
        exact ⟨before, _, hcame.told hprogress rfl ((congrArg earlier hconcat).trans rfl)⟩
      | none =>
        rw [hprogress, Option.isSome_none, if_neg Bool.false_ne_true] at h hconcat
        obtain ⟨before, after, hcame⟩ := ih h
        refine ⟨before, after ++ [.returned id result reading], ?_⟩
        by_cases hid : id = turn.id
        · subst hid
          refine hcame.over ?_ (congrArg earlier hconcat)
          rw [Coordinator.apply, Coordinator.returned, hprogress]
          exact hprogress
        · exact hcame.beside (fun hpass => hid (Option.some.inj hpass)) (congrArg earlier hconcat)

end Schedule

/-- In every course, whatever calls stood at the gate, wherever they were dropped and whenever hooks
were appended, executing the calls that came to their turns one after another gives what was seen
and the lifecycle with its state, count and records. They came to their turns in the order in which
they asked. At most one callback is executing, of the call that stands first, and only that call
begins one. While it waits for a callback, it works on the hooks that were appended before the move
by which it came to its turn. And a call that leaves before it has begun takes itself out of the
line and changes nothing else. -/
theorem passes_serialized (moves : List (Move κ)) :
    let course := Course.of moves
    let c := course.coordinator
    let schedule := Schedule.of moves
    let execution := Execution.of schedule.steps
    (execution.seen = course.seen ∧ execution.lifecycle = c.lifecycle) ∧
    (schedule.turns.map Turn.id).Pairwise (· < ·) ∧
    schedule.steps.filterMap SerialStep.registered? = moves.filterMap Move.registered? ∧
    ((executing moves).length ≤ 1 ∧
      ∀ call ∈ executing moves, ∃ phase others, c.line = (call.1, phase) :: others) ∧
    (∀ m id phase hook, .began id phase hook ∈ c.events m →
      ∃ others, c.line = (id, phase) :: others) ∧
    (∀ progress, c.current = some progress →
      ∃ turn before after phase others, schedule.last = some turn ∧
        c.line = (turn.id, phase) :: others ∧
        moves = before ++ .enter turn.id turn.reading :: after ∧
        (Course.of before).coordinator.turn? turn.id = some turn.phase ∧
        schedule.earlier = (Schedule.of before).steps ∧
        progress.WorksOn (before.filterMap Move.registered?)) ∧
    ∀ id, c.progress? id = none →
      course.next (.leave id) =
          ⟨course.seen, { c with line := c.line.filter fun p => p.1 != id }⟩ ∧
        Schedule.of (moves ++ [.leave id]) = schedule := by
  have hpossible : (Course.of moves).Possible := ⟨moves, rfl⟩
  have hc := hpossible.counted
  have hl := hpossible.lined
  obtain ⟨hs, horder, hworks⟩ := Schedule.of_moves moves
  have hregistered (moves : List (Move κ)) :
      (Schedule.of moves).steps.filterMap SerialStep.registered? =
        moves.filterMap Move.registered? := by
    rw [← Execution.hooks_of, (Schedule.of_moves moves).1.lifecycle, Course.hooks_of]
  refine ⟨⟨hs.seen, hs.lifecycle⟩, horder.turns, hregistered moves, ⟨?_, ?_⟩, ?_, ?_, ?_⟩
  · rw [executing_eq]
    cases (Course.of moves).coordinator.holder? <;> simp
  · rw [executing_eq]
    intro call hcall
    obtain ⟨progress, hprogress, -⟩ := Coordinator.holder?_eq_some.1 (Option.mem_toList.1 hcall)
    exact (Coordinator.progress?_eq_some.1 hprogress).1
  · intro m id phase hook
    exact Coordinator.first_of_began hc hl
  · intro progress hcurrent
    obtain ⟨id, others, hline⟩ := hl.first progress hcurrent
    have hprogress := Coordinator.progress?_eq_some.2 ⟨⟨_, others, hline⟩, hcurrent⟩
    obtain ⟨-, turn, hlast, rfl⟩ := hs.waiting id progress hprogress
    obtain ⟨before, after, hmoves, hturn, hearlier, -, -⟩ := Schedule.came hlast
    have hown := hworks turn.id progress hprogress
    rw [hearlier, hregistered before] at hown
    exact ⟨turn, before, after, _, others, hlast, hline, hmoves, hturn, hearlier, hown⟩
  · intro id hidle
    refine ⟨?_, Course.trace_concat _ _ moves _⟩
    simp only [Course.next, Coordinator.events, List.append_nil, Coordinator.apply,
      Coordinator.leave, hidle, Option.isSome_none, Bool.false_eq_true, if_false]

end ServiceHost
