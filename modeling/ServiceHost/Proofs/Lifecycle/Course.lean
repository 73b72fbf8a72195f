import ServiceHost.Proofs.Lifecycle.Stretch

/-!
# Courses of a lifecycle

What the passes over a lifecycle do is seen as a sequence of events (`Event`): a start pass is let
through, callbacks begin and come to an end, a pass is over. A course (`Course`) is everything seen
from a new lifecycle on, for any moves in any order: hooks are appended, passes step up to the gate,
callbacks return or fail, and any pass is given up, or panics, wherever it waits. `Change` lists
what one move can do; `Coordinator.change` says that there is nothing else, as long as no more
hooks are counted than there are (`Coordinator.Counted`), which every move keeps.
-/

namespace ServiceHost

variable {κ : Type}

/-! ## Events -/

/-- What can be seen of the passes over a lifecycle. -/
inductive Event (κ : Type) where
  /-- A start pass was let through, over these hooks. -/
  | opened (pass : PassId) (hooks : List (RegisteredHook κ))
  /-- A callback began. -/
  | began (pass : PassId) (phase : Phase) (hook : RegisteredHook κ)
  /-- A callback returned. -/
  | ended (pass : PassId) (phase : Phase) (hook : RegisteredHook κ) (result : Except Failure Unit)
  /-- A pass is over. -/
  | finished (pass : PassId) (result : Except LifecycleError Unit)

/-- The pass that an event belongs to. -/
def Event.pass : Event κ → PassId
  | .opened pass _ => pass
  | .began pass _ _ => pass
  | .ended pass _ _ _ => pass
  | .finished pass _ => pass

/-- What is seen of a pass at the end of a stretch. -/
def PassStep.events (pass : PassId) : PassStep κ → List (Event κ)
  | .call _ progress => [.began pass progress.phase progress.hook]
  | .finish result => [.finished pass result]
  | .outOfRange _ => []

namespace Coordinator

/-- What is seen of a move. -/
def events (c : Coordinator κ) : Move κ → List (Event κ)
  | .enter id reading =>
    match c.turn? id with
    | none => []
    | some .start =>
      let seen := (c.lifecycle.begin .start reading).1.events id
      if c.lifecycle.Startable then .opened id c.lifecycle.hooks :: seen else seen
    | some .stop => (c.lifecycle.begin .stop reading).1.events id
  | .returned id result reading =>
    match c.progress? id with
    | none => []
    | some progress =>
      .ended id progress.phase progress.hook result ::
        (c.lifecycle.resume progress result reading).1.events id
  | .append .. => []
  | .ask _ => []
  | .leave _ => []

end Coordinator

/-- Everything that was seen of a lifecycle, and what has become of it. -/
structure Course (κ : Type) where
  seen : List (Event κ)
  coordinator : Coordinator κ

namespace Course

/-- Nothing was seen of a new lifecycle. -/
def new : Course κ :=
  ⟨[], .empty⟩

/-- The course after one more move. -/
def next (course : Course κ) (m : Move κ) : Course κ :=
  ⟨course.seen ++ course.coordinator.events m, course.coordinator.apply m⟩

/-- The course after more moves. -/
def run (course : Course κ) (moves : List (Move κ)) : Course κ :=
  moves.foldl next course

/-- The course that moves take from a new lifecycle on. -/
def of (moves : List (Move κ)) : Course κ :=
  new.run moves

/-- What holds of a course and is kept by every move holds after any moves. -/
theorem run_induction {P : Course κ → Prop} {course : Course κ} (h : P course)
    (hnext : ∀ course m, P course → P (course.next m)) (moves : List (Move κ)) :
    P (course.run moves) := by
  induction moves generalizing course with
  | nil => exact h
  | cons m rest ih => exact ih (hnext course m h)

theorem run_append (course : Course κ) (some more : List (Move κ)) :
    course.run (some ++ more) = (course.run some).run more :=
  List.foldl_append

/-- Appending a hook can be seen from the hooks only. -/
theorem next_append (course : Course κ) (callSite : String) (hook : Hook κ) :
    ∃ hooks, course.next (.append callSite hook) =
      ⟨course.seen, { course.coordinator with
        lifecycle := { course.coordinator.lifecycle with hooks } }⟩ := by
  simp only [next, Coordinator.events, List.append_nil, Coordinator.apply, Coordinator.append]
  cases happend : course.coordinator.lifecycle.append callSite hook with
  | error => exact ⟨course.coordinator.lifecycle.hooks, rfl⟩
  | ok l =>
    obtain ⟨registered, rfl⟩ := Lifecycle.append_ok happend
    exact ⟨_, rfl⟩

end Course

/-! ## What a move can do -/

namespace Coordinator

@[simp]
theorem settle_fst (c : Coordinator κ) (r : PassStep κ × Lifecycle κ) :
    (c.settle r).1 = r.1 := by
  obtain ⟨step, l⟩ := r
  cases step <;> rfl

/-- No more hooks are counted than there are, none is counted in a state from which the lifecycle
can be started, and what the pass at the gate waits for is among the hooks there are. -/
structure Counted (c : Coordinator κ) : Prop where
  started : c.lifecycle.started ≤ c.lifecycle.hooks.length
  idle : c.lifecycle.Startable → c.lifecycle.started = 0
  starting : ∀ hook rest begun, c.current = some (.starting hook rest begun) →
    c.lifecycle.state = .starting ∧
      c.lifecycle.started + 1 + rest.length ≤ c.lifecycle.hooks.length
  stopping : ∀ hook hooks failures begun, c.current = some (.stopping hook hooks failures begun) →
    c.lifecycle.state = .stopping ∧ c.lifecycle.started ≤ hooks.length ∧
      hooks.length ≤ c.lifecycle.hooks.length

/-- What a move can do to a lifecycle and its passes, and what is seen of it. -/
inductive Change (c : Coordinator κ) : Move κ → List (Event κ) → Coordinator κ → Prop
  /-- A move that is not possible, or a hook without a proper name. -/
  | still (m : Move κ) : Change c m [] c
  | appended {callSite hook} (registered : RegisteredHook κ) :
      Change c (.append callSite hook) []
        { c with lifecycle := { c.lifecycle with hooks := c.lifecycle.hooks ++ [registered] } }
  | asked (phase : Phase) : Change c (.ask phase) [] (c.ask phase).2
  /-- A start pass finds the lifecycle in a state from which it cannot be started. -/
  | refused {id reading} (hturn : c.turn? id = some .start) (hstate : ¬ c.lifecycle.Startable) :
      Change c (.enter id reading)
        [.finished id (.error (.invalidTransition c.lifecycle.state "start"))]
        (c.settle (.finish (.error (.invalidTransition c.lifecycle.state "start")), c.lifecycle)).2
  | opened {id reading r} (hturn : c.turn? id = some .start) (hstate : c.lifecycle.Startable)
      (hr : Lifecycle.StartStretch reading c.lifecycle.hooks
        { c.lifecycle with state := .starting, startRecords := [] } r) :
      Change c (.enter id reading) (.opened id c.lifecycle.hooks :: r.1.events id) (c.settle r).2
  /-- A stop pass begins. -/
  | turned {id reading r} (hturn : c.turn? id = some .stop)
      (hr : Lifecycle.StopStretch reading c.lifecycle.hooks []
        { c.lifecycle with state := .stopping, stopRecords := [] } r) :
      Change c (.enter id reading) (r.1.events id) (c.settle r).2
  /-- A start callback failed. -/
  | failed {id source reading hook rest begun}
      (hprogress : c.progress? id = some (.starting hook rest begun)) :
      Change c (.returned id (.error source) reading)
        [.ended id .start hook (.error source),
          .finished id (.error (.hookFailed .start hook.caller source))]
        (c.settle (.finish (.error (.hookFailed .start hook.caller source)),
          { c.lifecycle with running := none, state := .startFailed })).2
  /-- A start callback succeeded. -/
  | started {id reading hook rest begun r}
      (hprogress : c.progress? id = some (.starting hook rest begun))
      (hr : Lifecycle.StartStretch reading rest
        { c.lifecycle with
          running := none
          startRecords := c.lifecycle.startRecords ++ [Lifecycle.recordOf hook begun reading]
          started := c.lifecycle.started + 1 } r) :
      Change c (.returned id (.ok ()) reading) (.ended id .start hook (.ok ()) :: r.1.events id)
        (c.settle r).2
  /-- A stop callback returned. -/
  | stopped {id result reading hook hooks failures begun r}
      (hprogress : c.progress? id = some (.stopping hook hooks failures begun))
      (hr : Lifecycle.StopStretch reading hooks
        (Lifecycle.noteFailure failures hook result)
        { c.lifecycle with
          running := none
          stopRecords := c.lifecycle.stopRecords ++ [Lifecycle.recordOf hook begun reading] } r) :
      Change c (.returned id result reading) (.ended id .stop hook result :: r.1.events id)
        (c.settle r).2
  /-- A pass is given up in the line or in the middle of a callback, or panicked. -/
  | left (id : PassId) : Change c (.leave id) [] (c.leave id)

/-- A pass that leaves takes what it waits for with it, and nothing else. -/
theorem leave_current (c : Coordinator κ) (id : PassId) :
    (c.leave id).current = none ∨ (c.leave id).current = c.current := by
  simp only [leave]
  split
  · exact .inl rfl
  · exact .inr rfl

/-- A pass whose turn it is stands first in the line, and no pass waits for a callback. -/
theorem turn?_eq_some {c : Coordinator κ} {id : PassId} {phase : Phase} :
    c.turn? id = some phase ↔ (∃ rest, c.line = (id, phase) :: rest) ∧ c.current = none := by
  unfold turn?
  constructor
  · intro h
    split at h
    · next first p rest hline hcurrent =>
      split at h
      · next hid =>
        cases h
        exact ⟨⟨rest, hid ▸ hline⟩, hcurrent⟩
      · cases h
    · cases h
  · rintro ⟨⟨rest, hline⟩, hcurrent⟩
    simp only [hline, hcurrent, if_true]

/-- A pass that has begun stands first in the line. -/
theorem progress?_eq_some {c : Coordinator κ} {id : PassId} {progress : Progress κ} :
    c.progress? id = some progress ↔
      (∃ phase rest, c.line = (id, phase) :: rest) ∧ c.current = some progress := by
  unfold progress?
  constructor
  · intro h
    split at h
    · next first p rest _ hline hcurrent =>
      split at h
      · next hid =>
        cases h
        exact ⟨⟨p, rest, hid ▸ hline⟩, hcurrent⟩
      · cases h
    · cases h
  · rintro ⟨⟨phase, rest, hline⟩, hcurrent⟩
    simp only [hline, hcurrent, if_true]

theorem apply_enter {c : Coordinator κ} {id : PassId} {phase : Phase} (reading : Reading)
    (h : c.turn? id = some phase) :
    c.apply (.enter id reading) = (c.settle (c.lifecycle.begin phase reading)).2 := by
  simp only [apply, enter, h, Option.map_some]

theorem apply_returned {c : Coordinator κ} {id : PassId} {progress : Progress κ}
    (result : Except Failure Unit) (reading : Reading) (h : c.progress? id = some progress) :
    c.apply (.returned id result reading) =
      (c.settle (c.lifecycle.resume progress result reading)).2 := by
  simp only [apply, returned, h, Option.map_some]

theorem current_of_turn? {c : Coordinator κ} {id : PassId} {phase : Phase}
    (h : c.turn? id = some phase) : c.current = none :=
  (turn?_eq_some.1 h).2

theorem current_of_progress? {c : Coordinator κ} {id : PassId} {progress : Progress κ}
    (h : c.progress? id = some progress) : c.current = some progress :=
  (progress?_eq_some.1 h).2

/-- A move does what `Change` says, and nothing else is seen of it. -/
theorem change {c : Coordinator κ} (hc : c.Counted) (m : Move κ) :
    Change c m (c.events m) (c.apply m) := by
  cases m with
  | append callSite hook =>
    simp only [apply, append, events]
    cases happend : c.lifecycle.append callSite hook with
    | error => exact .still _
    | ok l =>
      obtain ⟨registered, rfl⟩ := Lifecycle.append_ok happend
      exact .appended registered
  | ask phase => exact .asked phase
  | leave id => exact .left id
  | enter id reading =>
    simp only [apply, enter, events]
    cases hturn : c.turn? id with
    | none => exact .still _
    | some phase =>
      cases phase with
      | start =>
        simp only [Option.map_some, Lifecycle.begin]
        by_cases hstate : c.lifecycle.Startable
        · rw [if_pos hstate]
          exact .opened hturn hstate (Lifecycle.beginStart_stretch reading hstate)
        · rw [if_neg hstate, Lifecycle.beginStart_of_not_startable reading hstate]
          exact .refused hturn hstate
      | stop => exact .turned hturn (Lifecycle.beginStop_stretch reading hc.started)
  | returned id result reading =>
    simp only [apply, returned, events]
    cases hprogress : c.progress? id with
    | none => exact .still _
    | some progress =>
      cases progress with
      | starting hook rest begun =>
        cases result with
        | error source => exact .failed hprogress
        | ok => exact .started hprogress (Lifecycle.resume_starting_stretch ..)
      | stopping hook hooks failures begun =>
        have hle := (hc.stopping _ _ _ _ (current_of_progress? hprogress)).2.1
        exact .stopped hprogress (Lifecycle.resume_stopping_stretch _ _ _ _ _ hle)

/-! ## The count stays within the hooks -/

/-- No hook is counted in a new lifecycle. -/
theorem Counted.empty : (empty : Coordinator κ).Counted :=
  ⟨Nat.le_refl 0, fun _ => rfl, nofun, nofun⟩

/-- A stretch of a start pass counts the hooks it has passed, and waits at most for the next. -/
theorem Counted.of_startStretch {c : Coordinator κ} {reading : Reading}
    {todo : List (RegisteredHook κ)} {l : Lifecycle κ} {r : PassStep κ × Lifecycle κ}
    (hr : Lifecycle.StartStretch reading todo l r) (hstate : l.state = .starting)
    (hle : l.started + todo.length ≤ l.hooks.length) : (c.settle r).2.Counted := by
  cases hr with
  | done => exact ⟨hle, nofun, nofun, nofun⟩
  | cancelled htodo =>
    rw [htodo, List.length_append] at hle
    exact ⟨by show l.started + _ ≤ l.hooks.length; omega, nofun, nofun, nofun⟩
  | call htodo =>
    rw [htodo, List.length_append, List.length_cons] at hle
    refine ⟨by show l.started + _ ≤ l.hooks.length; omega, fun h => ?_, ?_, nofun⟩
    · rcases h with h | h <;> exact nomatch hstate.symm.trans h
    · rintro _ _ _ ⟨⟩
      exact ⟨hstate, by show l.started + _ + 1 + _ ≤ l.hooks.length; omega⟩

/-- A stretch of a stop pass counts no hook that was not counted before. -/
theorem Counted.of_stopStretch {c : Coordinator κ} {reading : Reading}
    {hooks : List (RegisteredHook κ)} {failures : StopFailures} {l : Lifecycle κ}
    {r : PassStep κ × Lifecycle κ} (hr : Lifecycle.StopStretch reading hooks failures l r)
    (hstate : l.state = .stopping) (hle : l.started ≤ hooks.length)
    (hhooks : hooks.length ≤ l.hooks.length) : (c.settle r).2.Counted := by
  have hbusy : ¬ l.Startable := fun h => h.elim (nomatch hstate.symm.trans ·)
    (nomatch hstate.symm.trans ·)
  cases hr with
  | done => exact ⟨Nat.zero_le _, fun _ => rfl, nofun, nofun⟩
  | @cancelled below hook passed _ _ hcounted =>
    have hlen := congrArg List.length hcounted
    rw [List.length_take_of_le hle, List.length_append, List.length_cons] at hlen
    exact ⟨by show below.length + 1 ≤ l.hooks.length; omega, (absurd · hbusy), nofun, nofun⟩
  | @call below hook passed _ hcounted =>
    have hlen := congrArg List.length hcounted
    rw [List.length_take_of_le hle, List.length_append, List.length_cons] at hlen
    refine ⟨by show below.length ≤ l.hooks.length; omega, (absurd · hbusy), nofun, ?_⟩
    rintro _ _ _ _ ⟨⟩
    exact ⟨hstate, by show below.length ≤ hooks.length; omega, hhooks⟩

/-- Every move keeps the count within the hooks. -/
theorem Counted.apply {c : Coordinator κ} (hc : c.Counted) (m : Move κ) : (c.apply m).Counted := by
  have hchange := c.change hc m
  generalize c.events m = events, c.apply m = c' at hchange
  cases hchange with
  | still => exact hc
  | appended registered =>
    have hlen : c.lifecycle.hooks.length ≤ (c.lifecycle.hooks ++ [registered]).length := by simp
    refine ⟨Nat.le_trans hc.started hlen, hc.idle, ?_, ?_⟩
    · intro hook rest begun h
      exact (hc.starting hook rest begun h).imp_right (Nat.le_trans · hlen)
    · intro hook hooks failures begun h
      exact (hc.stopping hook hooks failures begun h).imp_right (.imp_right (Nat.le_trans · hlen))
  | asked => exact ⟨hc.started, hc.idle, hc.starting, hc.stopping⟩
  | refused => exact ⟨hc.started, hc.idle, nofun, nofun⟩
  | opened hturn hstate hr =>
    have hzero := hc.idle hstate
    refine .of_startStretch hr rfl ?_
    show c.lifecycle.started + c.lifecycle.hooks.length ≤ c.lifecycle.hooks.length
    omega
  | turned hturn hr => exact .of_stopStretch hr rfl hc.started (Nat.le_refl _)
  | failed => exact ⟨hc.started, nofun, nofun, nofun⟩
  | started hprogress hr =>
    have ⟨hstate, hle⟩ := hc.starting _ _ _ (current_of_progress? hprogress)
    exact .of_startStretch hr hstate hle
  | stopped hprogress hr =>
    have ⟨hstate, hle, hhooks⟩ := hc.stopping _ _ _ _ (current_of_progress? hprogress)
    exact .of_stopStretch hr hstate hle hhooks
  | left id =>
    rcases c.leave_current id with h | h
    · exact ⟨hc.started, hc.idle, h ▸ nofun, h ▸ nofun⟩
    · exact ⟨hc.started, hc.idle, h ▸ hc.starting, h ▸ hc.stopping⟩

end Coordinator

end ServiceHost
