import ServiceHost.Proofs.Lifecycle.Running

/-!
# Calls executed one after another

What the calls of a course would do if each were executed on its own, from its turn to its end, with
no line to stand in and no hook appended meanwhile, is an `Execution`. A course is put into such an
order by its `Schedule`: a call takes its place when its turn comes, and a hook that is appended
while a call is at work comes after the call. The point is that a call reads the hooks once, when
its turn begins (`Lifecycle.resume_hooks`), so that a hook which comes in the middle of it may as
well come after it (`Execution.goOn_append`). So the execution of the schedule is the course: the
same events, the same lifecycle, the same call waiting (`Schedule.Reproduces`).
-/

namespace ServiceHost

variable {κ : Type}

/-- The hook as it is known to a lifecycle that it is appended to, if its name is a proper one. -/
def Hook.registered? (callSite : String) (hook : Hook κ) : Option (RegisteredHook κ) :=
  match hook.caller with
  | some caller =>
    if Text.isBlankText caller then none else some ⟨hook.onStart, hook.onStop, caller⟩
  | none => some ⟨hook.onStart, hook.onStop, callSite⟩

/-! ## Hooks are read once -/

namespace Lifecycle

/-- The lifecycle with other hooks. -/
def withHooks (hooks : List (RegisteredHook κ)) (l : Lifecycle κ) : Lifecycle κ :=
  { l with hooks }

/-- A hook that is appended comes last, and which one it is does not depend on the others. -/
theorem append_eq (l : Lifecycle κ) (callSite : String) (hook : Hook κ) :
    l.append callSite hook =
      match hook.registered? callSite with
      | some registered => .ok (l.withHooks (l.hooks ++ [registered]))
      | none => .error .blankCaller := by
  unfold append Hook.registered?
  cases hook.caller with
  | none => rfl
  | some caller =>
    simp only
    split <;> rfl

/-- A start pass under way does not look at the hooks of the lifecycle. -/
theorem startFrom_hooks (reading : Reading) (todo hooks : List (RegisteredHook κ))
    (l : Lifecycle κ) :
    startFrom reading todo (l.withHooks hooks) =
      (startFrom reading todo l).map id (withHooks hooks) := by
  induction todo generalizing l with
  | nil => rfl
  | cons hook rest ih =>
    unfold startFrom
    cases hook.onStart with
    | none => exact ih { l with started := l.started + 1 }
    | some callback => cases reading.contextError <;> rfl

/-- A stop pass under way does not look at the hooks of the lifecycle. -/
theorem stopFrom_hooks (reading : Reading) (own hooks : List (RegisteredHook κ))
    (failures : StopFailures) (count : Nat) (l : Lifecycle κ) :
    stopFrom reading own failures count (l.withHooks hooks) =
      (stopFrom reading own failures count l).map id (withHooks hooks) := by
  induction count generalizing l with
  | zero => rfl
  | succ count ih =>
    unfold stopFrom
    cases own[count]? with
    | none => rfl
    | some hook =>
      simp only
      cases hook.onStop with
      | none => exact ih { l with started := count }
      | some callback => cases reading.contextError <;> rfl

/-- A pass goes on in the same way whatever hooks there are by then. -/
theorem resume_hooks (progress : Progress κ) (result : Except Failure Unit) (reading : Reading)
    (hooks : List (RegisteredHook κ)) (l : Lifecycle κ) :
    (l.withHooks hooks).resume progress result reading =
      (l.resume progress result reading).map id (withHooks hooks) := by
  cases progress with
  | starting hook rest begun =>
    cases result with
    | error source => rfl
    | ok =>
      exact startFrom_hooks reading rest hooks
        { l with
          running := none
          startRecords := l.startRecords ++ [recordOf hook begun reading]
          started := l.started + 1 }
  | stopping hook own failures begun =>
    exact stopFrom_hooks reading own hooks _ l.started
      { l with running := none, stopRecords := l.stopRecords ++ [recordOf hook begun reading] }

/-- No pass appends or removes hooks when it goes on. -/
theorem hooks_resume (progress : Progress κ) (result : Except Failure Unit) (reading : Reading)
    (l : Lifecycle κ) : (l.resume progress result reading).2.hooks = l.hooks :=
  congrArg (fun r => r.2.hooks) (resume_hooks progress result reading l.hooks l)

/-- No pass appends or removes hooks when it begins. -/
theorem hooks_begin (phase : Phase) (reading : Reading) (l : Lifecycle κ) :
    (l.begin phase reading).2.hooks = l.hooks := by
  cases phase with
  | stop =>
    exact congrArg (fun r => r.2.hooks) (stopFrom_hooks reading l.hooks l.hooks [] l.started
      { l with state := .stopping, stopRecords := [] })
  | start =>
    simp only [begin, beginStart]
    split
    · exact congrArg (fun r => r.2.hooks) (startFrom_hooks reading l.hooks l.hooks
        { l with state := .starting, startRecords := [] })
    · rfl

end Lifecycle

/-! ## Executions -/

/-- A call of `start` or `stop` that came to its turn: what it was told then, and what came of each
callback that it waited for, with what it was told of the outside. A call that was dropped in a
callback has no result of it. -/
structure Turn where
  id : PassId
  phase : Phase
  reading : Reading
  returns : List (Except Failure Unit × Reading)

/-- One thing of those that are done one after another. -/
inductive SerialStep (κ : Type) where
  | append (callSite : String) (hook : Hook κ)
  | call (turn : Turn)

/-- The call that is executed. -/
def SerialStep.turn? : SerialStep κ → Option Turn
  | .append .. => none
  | .call turn => some turn

/-- The hook that is appended. -/
def SerialStep.registered? : SerialStep κ → Option (RegisteredHook κ)
  | .append callSite hook => hook.registered? callSite
  | .call _ => none

/-- What has become of things done one after another: what was seen of them, the lifecycle, and what
the last call was waiting for when it was dropped, if it was. -/
structure Execution (κ : Type) where
  seen : List (Event κ)
  lifecycle : Lifecycle κ
  waiting : Option (Progress κ)

namespace Execution

/-- Nothing was done to a new lifecycle. -/
def new : Execution κ :=
  ⟨[], .empty, none⟩

/-- Appends a hook, unless its name is not a proper one. -/
def append (e : Execution κ) (callSite : String) (hook : Hook κ) : Execution κ :=
  match e.lifecycle.append callSite hook with
  | .ok lifecycle => { e with lifecycle }
  | .error _ => e

/-- The call begins. -/
def enter (e : Execution κ) (id : PassId) (phase : Phase) (reading : Reading) : Execution κ :=
  let opened :=
    if phase = .start ∧ e.lifecycle.Startable then [.opened id e.lifecycle.hooks] else []
  let r := e.lifecycle.begin phase reading
  ⟨e.seen ++ (opened ++ r.1.events id), r.2, r.1.waiting⟩

/-- The callback that the call waits for has returned. -/
def goOn (id : PassId) (e : Execution κ) (returned : Except Failure Unit × Reading) :
    Execution κ :=
  match e.waiting with
  | none => e
  | some progress =>
    let r := e.lifecycle.resume progress returned.1 returned.2
    ⟨e.seen ++ .ended id progress.phase progress.hook returned.1 :: r.1.events id, r.2,
      r.1.waiting⟩

/-- Does one more thing. -/
def step (e : Execution κ) : SerialStep κ → Execution κ
  | .append callSite hook => e.append callSite hook
  | .call turn => turn.returns.foldl (goOn turn.id) (e.enter turn.id turn.phase turn.reading)

/-- What becomes of things done one after another from a new lifecycle on. -/
def of (steps : List (SerialStep κ)) : Execution κ :=
  steps.foldl step new

theorem of_append (steps more : List (SerialStep κ)) :
    of (steps ++ more) = more.foldl step (of steps) :=
  List.foldl_append

/-- A hook that is appended is appended to the lifecycle, and nothing else happens. -/
theorem append_eq (e : Execution κ) (callSite : String) (hook : Hook κ) :
    e.append callSite hook = { e with
      lifecycle :=
        e.lifecycle.withHooks (e.lifecycle.hooks ++ (hook.registered? callSite).toList) } := by
  rw [append, Lifecycle.append_eq]
  cases hook.registered? callSite with
  | some registered => rfl
  | none =>
    rw [Option.toList_none, List.append_nil]
    rfl

/-- A hook that is appended in the middle of a call may as well be appended after it. -/
theorem goOn_append (id : PassId) (e : Execution κ) (callSite : String) (hook : Hook κ)
    (returned : Except Failure Unit × Reading) :
    goOn id (e.append callSite hook) returned = (goOn id e returned).append callSite hook := by
  cases hwaiting : e.waiting with
  | none => simp only [append_eq, goOn, hwaiting]
  | some progress =>
    simp only [append_eq, goOn, hwaiting, Lifecycle.resume_hooks, Lifecycle.hooks_resume]
    rfl

end Execution

/-! ## The schedule of a course -/

/-- Things in the order in which they are to be done. -/
structure Schedule (κ : Type) where
  /-- What comes before the last call. -/
  earlier : List (SerialStep κ)
  /-- The call that came to its turn last. -/
  last : Option Turn
  /-- The hooks that were appended since, with the places that they were appended from. -/
  late : List (String × Hook κ)

namespace Schedule

/-- The hooks that were appended since the last turn. -/
def lateSteps (s : Schedule κ) : List (SerialStep κ) :=
  s.late.map fun hook => .append hook.1 hook.2

/-- All that is to be done, in this order. -/
def steps (s : Schedule κ) : List (SerialStep κ) :=
  s.earlier ++ s.last.toList.map .call ++ s.lateSteps

/-- The calls that came to their turns, in this order. -/
def turns (s : Schedule κ) : List Turn :=
  s.steps.filterMap SerialStep.turn?

/-- A schedule with nothing to do. -/
def empty : Schedule κ :=
  ⟨[], none, []⟩

/-- The schedule after a move: a call that comes to its turn is put behind everything that was done
before, and what it is told later is put down with it. A call in the line is not put down, and
neither is that one leaves. -/
def note (c : Coordinator κ) (s : Schedule κ) : Move κ → Schedule κ
  | .append callSite hook => { s with late := s.late ++ [(callSite, hook)] }
  | .enter id reading =>
    match c.turn? id with
    | some phase => ⟨s.steps, some ⟨id, phase, reading, []⟩, []⟩
    | none => s
  | .returned id result reading =>
    if (c.progress? id).isSome then
      { s with last := s.last.map fun turn =>
          { turn with returns := turn.returns ++ [(result, reading)] } }
    else s
  | .ask _ => s
  | .leave _ => s

/-- The execution of a schedule is the course: the same was seen, the lifecycle is the same, and the
call that is at work in the course is the last one and waits for the same. -/
structure Reproduces (s : Schedule κ) (course : Course κ) : Prop where
  seen : (Execution.of s.steps).seen = course.seen
  lifecycle : (Execution.of s.steps).lifecycle = course.coordinator.lifecycle
  waiting : ∀ id progress, course.coordinator.progress? id = some progress →
    (Execution.of s.steps).waiting = some progress ∧ ∃ turn, s.last = some turn ∧ turn.id = id

/-- What is appended late is appended at the end. -/
theorem steps_append (s : Schedule κ) (callSite : String) (hook : Hook κ) :
    { s with late := s.late ++ [(callSite, hook)] }.steps = s.steps ++ [.append callSite hook] := by
  simp only [steps, lateSteps, List.map_append, List.map_cons, List.map_nil, List.append_assoc]

/-- A call that came to its turn is executed after everything that was done before. -/
theorem of_enter (steps : List (SerialStep κ)) (id : PassId) (phase : Phase) (reading : Reading) :
    Execution.of (Schedule.steps ⟨steps, some ⟨id, phase, reading, []⟩, []⟩) =
      (Execution.of steps).enter id phase reading := by
  simp only [Schedule.steps, lateSteps, Option.toList_some, List.map_cons, List.map_nil,
    List.append_nil, Execution.of_append]
  rfl

/-- What the last call is told more is as good as told after all hooks were appended. -/
theorem of_returned (s : Schedule κ) {turn : Turn} (hlast : s.last = some turn)
    (returned : Except Failure Unit × Reading) :
    Execution.of
        { s with last := some { turn with returns := turn.returns ++ [returned] } }.steps =
      Execution.goOn turn.id (Execution.of s.steps) returned := by
  have hlate (e : Execution κ) (late : List (String × Hook κ)) :
      (late.map fun hook => SerialStep.append hook.1 hook.2).foldl Execution.step
          (Execution.goOn turn.id e returned) =
        Execution.goOn turn.id
          ((late.map fun hook => SerialStep.append hook.1 hook.2).foldl Execution.step e)
          returned := by
    induction late generalizing e with
    | nil => rfl
    | cons hook rest ih =>
      simp only [List.map_cons, List.foldl_cons, Execution.step]
      rw [← ih, Execution.goOn_append]
  simp only [Schedule.steps, lateSteps, hlast, Option.toList_some, List.map_cons, List.map_nil,
    Execution.of_append, List.foldl_cons, List.foldl_nil, Execution.step, List.foldl_append]
  exact hlate _ _

end Schedule

/-! ## Moves and what they add to the schedule -/

namespace Coordinator

/-- A hook is appended at once, whoever stands at the gate. -/
theorem apply_append (c : Coordinator κ) (callSite : String) (hook : Hook κ) :
    c.apply (.append callSite hook) = { c with
      lifecycle :=
        c.lifecycle.withHooks (c.lifecycle.hooks ++ (hook.registered? callSite).toList) } := by
  simp only [apply, append, Lifecycle.append_eq]
  cases hook.registered? callSite with
  | some registered => rfl
  | none =>
    rw [Option.toList_none, List.append_nil]
    rfl

/-- What is seen of a pass whose turn it is, when it begins. -/
theorem events_enter {c : Coordinator κ} {id : PassId} {phase : Phase} (reading : Reading)
    (h : c.turn? id = some phase) :
    c.events (.enter id reading) =
      (if phase = .start ∧ c.lifecycle.Startable then [.opened id c.lifecycle.hooks] else []) ++
        (c.lifecycle.begin phase reading).1.events id := by
  simp only [events, h]
  cases phase with
  | stop => rfl
  | start =>
    simp only [true_and]
    split <;> rfl

/-- What is seen of a pass when its callback has returned. -/
theorem events_returned {c : Coordinator κ} {id : PassId} {progress : Progress κ}
    (result : Except Failure Unit) (reading : Reading) (h : c.progress? id = some progress) :
    c.events (.returned id result reading) =
      .ended id progress.phase progress.hook result ::
        (c.lifecycle.resume progress result reading).1.events id := by
  simp only [events, h]

@[simp] theorem settle_lifecycle (c : Coordinator κ) (r : PassStep κ × Lifecycle κ) :
    (c.settle r).2.lifecycle = r.2 := by
  obtain ⟨step, l⟩ := r
  cases step <;> rfl

/-- After a stretch of the first pass in the line no other pass waits for a callback. -/
theorem progress?_settle {c : Coordinator κ} {first id : PassId} {phase : Phase}
    {others : List (PassId × Phase)} (hline : c.line = (first, phase) :: others)
    {r : PassStep κ × Lifecycle κ} {progress : Progress κ}
    (h : (c.settle r).2.progress? id = some progress) :
    id = first ∧ r.1.waiting = some progress := by
  obtain ⟨⟨_, _, hline'⟩, hcurrent⟩ := progress?_eq_some.1 h
  obtain ⟨step, l⟩ := r
  cases step with
  | call callback waiting =>
    cases hline.symm.trans hline'
    exact ⟨rfl, hcurrent⟩
  | finish => cases hcurrent
  | outOfRange => cases hcurrent

/-- After a stretch of the first pass the others have not begun. -/
theorem waiting_settle (c : Coordinator κ) (r : PassStep κ × Lifecycle κ) :
    (c.settle r).2.waiting = c.line.drop 1 := by
  obtain ⟨step, l⟩ := r
  cases step <;> rfl

end Coordinator

namespace Schedule

/-- What a move adds to a schedule, and what it does to the course. -/
inductive Noted (s : Schedule κ) (c : Coordinator κ) :
    Move κ → Schedule κ → List (Event κ) → Coordinator κ → Prop
  /-- A pass asks or leaves, or the move is not possible. Nothing comes of it but that some passes
  do not stand in the line any more and one may stand at its end. -/
  | idle {m c'} (hlifecycle : c'.lifecycle = c.lifecycle)
      (hprogress : ∀ id progress, c'.progress? id = some progress →
        c.progress? id = some progress)
      (hwaiting : ∀ p ∈ c'.waiting, p ∈ c.waiting ∨ c.asked ≤ p.1) (hasked : c.asked ≤ c'.asked) :
      Noted s c m s [] c'
  | appended (callSite : String) (hook : Hook κ) :
      Noted s c (.append callSite hook) { s with late := s.late ++ [(callSite, hook)] } []
        { c with
          lifecycle :=
            c.lifecycle.withHooks (c.lifecycle.hooks ++ (hook.registered? callSite).toList) }
  /-- A pass comes to its turn. -/
  | entered {id phase} (reading : Reading) (hturn : c.turn? id = some phase) :
      Noted s c (.enter id reading) ⟨s.steps, some ⟨id, phase, reading, []⟩, []⟩
        ((if phase = .start ∧ c.lifecycle.Startable then [.opened id c.lifecycle.hooks] else []) ++
          (c.lifecycle.begin phase reading).1.events id)
        (c.settle (c.lifecycle.begin phase reading)).2
  /-- The pass at the gate goes on. -/
  | returned {id progress} (result : Except Failure Unit) (reading : Reading)
      (hprogress : c.progress? id = some progress) :
      Noted s c (.returned id result reading)
        { s with last := s.last.map fun turn =>
            { turn with returns := turn.returns ++ [(result, reading)] } }
        (.ended id progress.phase progress.hook result ::
          (c.lifecycle.resume progress result reading).1.events id)
        (c.settle (c.lifecycle.resume progress result reading)).2

/-- A move does what `Noted` says. -/
theorem noted (s : Schedule κ) {c : Coordinator κ} (hc : c.Counted) (hl : c.Lined) (m : Move κ) :
    s.Noted c m (s.note c m) (c.events m) (c.apply m) := by
  have hsame {m : Move κ} : s.Noted c m s [] c :=
    .idle rfl (fun _ _ h => h) (fun _ h => .inl h) (Nat.le_refl _)
  cases m with
  | append callSite hook =>
    rw [Coordinator.apply_append]
    exact .appended callSite hook
  | ask phase =>
    refine .idle rfl (fun id progress => ?_) (fun p hp => ?_) (Nat.le_succ _)
    · exact Coordinator.progress?_of_apply (m := .ask phase) hc hl nofun
    · rcases Coordinator.mem_waiting_ask hp with hbefore | rfl
      · exact .inl hbefore
      · exact .inr (Nat.le_refl _)
  | leave left =>
    refine .idle rfl (fun id progress hprogress => ?_)
      (fun p hp => .inl (Coordinator.mem_waiting_leave hp)) (Nat.le_refl _)
    by_cases hid : left = id
    · subst hid
      cases (c.progress?_leave left).symm.trans hprogress
    · exact Coordinator.progress?_of_apply (m := .leave left) hc hl
        (by simpa [Move.pass?] using hid) hprogress
  | enter id reading =>
    cases hturn : c.turn? id with
    | none =>
      simp only [note, hturn, Coordinator.events, Coordinator.apply, Coordinator.enter,
        Option.map_none]
      exact hsame
    | some phase =>
      rw [Coordinator.events_enter reading hturn, Coordinator.apply_enter reading hturn]
      simp only [note, hturn]
      exact .entered reading hturn
  | returned id result reading =>
    cases hprogress : c.progress? id with
    | none =>
      simp only [note, hprogress, Coordinator.events, Coordinator.apply, Coordinator.returned,
        Option.map_none, Option.isSome_none, Bool.false_eq_true, if_false]
      exact hsame
    | some progress =>
      rw [Coordinator.events_returned result reading hprogress,
        Coordinator.apply_returned result reading hprogress]
      simp only [note, hprogress, Option.isSome_some, if_true]
      exact .returned result reading hprogress

namespace Reproduces

variable {s : Schedule κ} {course : Course κ}

theorem new : (empty : Schedule κ).Reproduces .new :=
  ⟨rfl, rfl, nofun⟩

/-- Every move adds to the schedule what it does to the course. -/
theorem next (h : s.Reproduces course) (hc : course.coordinator.Counted)
    (hl : course.coordinator.Lined) (m : Move κ) :
    (s.note course.coordinator m).Reproduces (course.next m) := by
  have hnoted := s.noted hc hl m
  unfold Course.next
  generalize s.note course.coordinator m = s', course.coordinator.events m = events,
    course.coordinator.apply m = c' at hnoted
  cases hnoted with
  | idle hlifecycle hprogress =>
    rw [List.append_nil]
    exact ⟨h.seen, h.lifecycle.trans hlifecycle.symm,
      fun id progress hc => h.waiting id progress (hprogress id progress hc)⟩
  | appended callSite hook =>
    rw [List.append_nil]
    have hexecuted : Execution.of { s with late := s.late ++ [(callSite, hook)] }.steps =
        (Execution.of s.steps).append callSite hook := by
      simp only [steps_append, Execution.of_append, List.foldl_cons, List.foldl_nil,
        Execution.step]
    refine ⟨?_, ?_, fun id progress hprogress => ?_⟩
    · rw [hexecuted, Execution.append_eq]
      exact h.seen
    · rw [hexecuted, Execution.append_eq, h.lifecycle]
    · rw [hexecuted, Execution.append_eq]
      exact h.waiting id progress hprogress
  | @entered id phase reading hturn =>
    obtain ⟨⟨others, hline⟩, -⟩ := Coordinator.turn?_eq_some.1 hturn
    refine ⟨?_, ?_, fun other progress hprogress => ?_⟩
    · rw [of_enter, Execution.enter, h.seen, h.lifecycle]
    · rw [of_enter, Execution.enter, h.lifecycle, Coordinator.settle_lifecycle]
    · obtain ⟨rfl, hwaiting⟩ := Coordinator.progress?_settle hline hprogress
      rw [of_enter, Execution.enter, h.lifecycle]
      exact ⟨hwaiting, _, rfl, rfl⟩
  | @returned id progress result reading hprogress =>
    obtain ⟨⟨phase, others, hline⟩, -⟩ := Coordinator.progress?_eq_some.1 hprogress
    obtain ⟨hwaits, turn, hlast, rfl⟩ := h.waiting id progress hprogress
    have hgo : Execution.goOn turn.id (Execution.of s.steps) (result, reading) =
        let r := course.coordinator.lifecycle.resume progress result reading
        ⟨course.seen ++ .ended turn.id progress.phase progress.hook result :: r.1.events turn.id,
          r.2, r.1.waiting⟩ := by
      simp only [Execution.goOn, hwaits, h.seen, h.lifecycle]
    rw [hlast, Option.map_some]
    refine ⟨?_, ?_, fun other progress' hprogress' => ?_⟩
    · rw [of_returned s hlast, hgo]
    · rw [of_returned s hlast, hgo, Coordinator.settle_lifecycle]
    · obtain ⟨rfl, hwaiting⟩ := Coordinator.progress?_settle hline hprogress'
      rw [of_returned s hlast, hgo]
      exact ⟨hwaiting, _, rfl, rfl⟩

end Reproduces

end Schedule

end ServiceHost
