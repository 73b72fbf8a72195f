import ServiceHost.Proofs.Lifecycle.Serial
import ServiceHost.Proofs.Lifecycle.Status

/-!
# What can be read of a pass

The records of its phase and the name of the running hook can be read off a lifecycle at any time.
While a pass waits for a callback, the records are those of the callbacks that have completed in
this very pass, in order, whatever passes came before (`Course.Recorded`). A pass that leaves the
gate leaves them behind as they are, and the name of its hook as well, and so it stays as long as
nothing more is seen (`Course.Alike`). No pass returns a timeout by itself
(`Lifecycle.begin_ne_timeout`).
-/

namespace ServiceHost

variable {κ : Type}

/-! ## The records of a pass -/

/-- The hook whose callback has completed in that pass: a start callback that has succeeded, or a
stop callback that has returned. -/
def Event.completed? (pass : PassId) : Event κ → Option (RegisteredHook κ)
  | .ended id .start hook (.ok ()) => if id = pass then some hook else none
  | .ended id .stop hook _ => if id = pass then some hook else none
  | _ => none

/-- The hooks whose callbacks have completed in that pass, in this order. -/
def completedOf (pass : PassId) (seen : List (Event κ)) : List (RegisteredHook κ) :=
  seen.filterMap (Event.completed? pass)

theorem completedOf_append (pass : PassId) (seen more : List (Event κ)) :
    completedOf pass (seen ++ more) = completedOf pass seen ++ completedOf pass more :=
  List.filterMap_append

/-- No callback has completed in a pass of which nothing was seen. -/
theorem completedOf_eq_nil {pass : PassId} {seen : List (Event κ)}
    (h : ∀ event ∈ seen, event.pass ≠ pass) : completedOf pass seen = [] := by
  refine List.filterMap_eq_nil_iff.2 fun event hevent => ?_
  have hother := h event hevent
  unfold Event.completed?
  split
  · exact if_neg hother
  · exact if_neg hother
  · rfl

/-- No callback completes at the end of a stretch. -/
theorem completedOf_events (pass id : PassId) (step : PassStep κ) :
    completedOf pass (step.events id) = [] := by
  cases step <;> rfl

/-- A pass returns only at the end of its last stretch. -/
theorem PassStep.finish_of_mem_events {step : PassStep κ} {id pass : PassId}
    {result : Except LifecycleError Unit} (h : .finished pass result ∈ step.events id) :
    step = .finish result := by
  cases step with
  | call => cases List.mem_singleton.1 h
  | finish =>
    cases List.mem_singleton.1 h
    rfl
  | outOfRange => cases h

section
variable {reading : Reading} {l : Lifecycle κ} {r : PassStep κ × Lifecycle κ}
  {progress : Progress κ}

/-- A start pass that waits has put down no more records. -/
theorem Lifecycle.StartStretch.records_eq {todo : List (RegisteredHook κ)}
    (h : StartStretch reading todo l r) (hwaiting : r.1.waiting = some progress) :
    r.2.records progress.phase = l.startRecords := by
  cases h <;> cases hwaiting
  rfl

/-- A stop pass that waits has put down no more records. -/
theorem Lifecycle.StopStretch.records_eq {hooks : List (RegisteredHook κ)} {failures : StopFailures}
    (h : StopStretch reading hooks failures l r) (hwaiting : r.1.waiting = some progress) :
    r.2.records progress.phase = l.stopRecords := by
  cases h <;> cases hwaiting
  rfl

end

/-! ## The results of a pass -/

namespace Lifecycle

variable {phase : Phase} {caller : Option String} {reason : ContextError} {records : HookRecords}

/-- A start pass does not return a timeout. -/
theorem startFrom_ne_timeout (reading : Reading) (todo : List (RegisteredHook κ))
    (l : Lifecycle κ) :
    (l.startFrom reading todo).1 ≠ .finish (.error (.timeout phase caller reason records)) := by
  fun_induction startFrom reading todo l with
  | case1 => nofun
  | case2 hook rest l hnone ih => exact ih
  | case3 => nofun
  | case4 => nofun

/-- A stop pass does not return a timeout. -/
theorem stopFrom_ne_timeout (reading : Reading) (hooks : List (RegisteredHook κ))
    (failures : StopFailures) (count : Nat) (l : Lifecycle κ) :
    (l.stopFrom reading hooks failures count).1 ≠
      .finish (.error (.timeout phase caller reason records)) := by
  fun_induction stopFrom reading hooks failures count l with
  | case1 l =>
    show PassStep.finish (if _ then _ else _) ≠ _
    split <;> nofun
  | case2 => nofun
  | case3 l count hook hhook hnone ih => exact ih
  | case4 => nofun
  | case5 => nofun

/-- A pass reports no timeout of itself. -/
theorem begin_ne_timeout (p : Phase) (reading : Reading) (l : Lifecycle κ) :
    (l.begin p reading).1 ≠ .finish (.error (.timeout phase caller reason records)) := by
  cases p with
  | start =>
    show (l.beginStart reading).1 ≠ _
    unfold beginStart
    split
    · exact startFrom_ne_timeout _ _ _
    · nofun
  | stop => exact stopFrom_ne_timeout _ _ _ _ _

/-- A pass that goes on reports no timeout of itself. -/
theorem resume_ne_timeout (progress : Progress κ) (result : Except Failure Unit)
    (reading : Reading) (l : Lifecycle κ) :
    (l.resume progress result reading).1 ≠
      .finish (.error (.timeout phase caller reason records)) := by
  cases progress with
  | starting hook rest begun =>
    cases result with
    | ok => exact startFrom_ne_timeout _ _ _
    | error => nofun
  | stopping hook hooks failures begun => exact stopFrom_ne_timeout _ _ _ _ _

end Lifecycle

namespace Course

/-- The records of the pass that waits for a callback are those of its own callbacks that have
completed. -/
def Recorded (course : Course κ) : Prop :=
  ∀ id progress, course.coordinator.progress? id = some progress →
    (course.coordinator.lifecycle.records progress.phase).map HookRecord.caller =
      (completedOf id course.seen).map RegisteredHook.caller

/-- A stretch of the first pass in the line. -/
theorem Recorded.of_stretch {seen : List (Event κ)} {c : Coordinator κ} {id : PassId}
    {phase : Phase} {others : List (PassId × Phase)} (hline : c.line = (id, phase) :: others)
    {r : PassStep κ × Lifecycle κ} (hr : ∀ progress, r.1.waiting = some progress →
      (r.2.records progress.phase).map HookRecord.caller =
        (completedOf id seen).map RegisteredHook.caller) :
    Recorded ⟨seen ++ r.1.events id, (c.settle r).2⟩ := by
  intro other progress hprogress
  obtain ⟨rfl, hwaiting⟩ := Coordinator.progress?_settle hline hprogress
  rw [completedOf_append, completedOf_events, List.append_nil, Coordinator.settle_lifecycle]
  exact hr progress hwaiting

/-- Every move keeps it so. -/
theorem Recorded.next {course : Course κ} (h : course.Recorded) (hquiet : course.Quiet)
    (hc : course.coordinator.Counted) (hl : course.coordinator.Lined) (m : Move κ) :
    (course.next m).Recorded := by
  have hchange := course.coordinator.change hc m
  have hother : ∀ id progress, m.pass? ≠ some id →
      (course.coordinator.apply m).progress? id = some progress →
        course.coordinator.progress? id = some progress :=
    fun id progress hm => Coordinator.progress?_of_apply hc hl hm
  unfold Course.next
  generalize course.coordinator.events m = events, course.coordinator.apply m = c' at hchange hother
  cases hchange with
  | still =>
    rw [List.append_nil]
    exact h
  | appended =>
    rw [List.append_nil]
    exact h
  | asked =>
    rw [List.append_nil]
    exact fun id progress hprogress => h id progress (hother id progress nofun hprogress)
  | left left =>
    rw [List.append_nil]
    intro id progress hprogress
    by_cases hid : left = id
    · subst hid
      cases (course.coordinator.progress?_leave left).symm.trans hprogress
    · exact h id progress (hother id progress (fun hpass => hid (Option.some.inj hpass)) hprogress)
  | refused hturn =>
    obtain ⟨⟨others, hline⟩, -⟩ := Coordinator.turn?_eq_some.1 hturn
    exact .of_stretch hline nofun
  | @opened id reading r hturn hstate hr =>
    obtain ⟨⟨others, hline⟩, -⟩ := Coordinator.turn?_eq_some.1 hturn
    rw [List.append_cons]
    refine .of_stretch hline fun progress hwaiting => ?_
    rw [hr.records_eq hwaiting, completedOf_append, completedOf_eq_nil (hquiet.of_turn hturn)]
    rfl
  | @turned id reading r hturn hr =>
    obtain ⟨⟨others, hline⟩, -⟩ := Coordinator.turn?_eq_some.1 hturn
    refine .of_stretch hline fun progress hwaiting => ?_
    rw [hr.records_eq hwaiting, completedOf_eq_nil (hquiet.of_turn hturn)]
    rfl
  | failed hprogress =>
    obtain ⟨⟨phase, others, hline⟩, -⟩ := Coordinator.progress?_eq_some.1 hprogress
    rw [List.append_cons]
    exact .of_stretch hline nofun
  | @started id reading hook rest begun r hprogress hr =>
    obtain ⟨⟨phase, others, hline⟩, -⟩ := Coordinator.progress?_eq_some.1 hprogress
    have hrecords : course.coordinator.lifecycle.startRecords.map HookRecord.caller =
      (completedOf id course.seen).map RegisteredHook.caller := h id _ hprogress
    rw [List.append_cons]
    refine .of_stretch hline fun progress hwaiting => ?_
    rw [hr.records_eq hwaiting, completedOf_append, List.map_append, List.map_append, hrecords]
    simp [completedOf, Event.completed?, Lifecycle.recordOf]
  | @stopped id result reading hook hooks failures begun r hprogress hr =>
    obtain ⟨⟨phase, others, hline⟩, -⟩ := Coordinator.progress?_eq_some.1 hprogress
    have hrecords : course.coordinator.lifecycle.stopRecords.map HookRecord.caller =
      (completedOf id course.seen).map RegisteredHook.caller := h id _ hprogress
    rw [List.append_cons]
    refine .of_stretch hline fun progress hwaiting => ?_
    rw [hr.records_eq hwaiting, completedOf_append, List.map_append, List.map_append, hrecords]
    simp [completedOf, Event.completed?, Lifecycle.recordOf]

theorem Possible.recorded {course : Course κ} (h : course.Possible) : course.Recorded :=
  h.induction nofun fun _ m hpossible hrecorded =>
    hrecorded.next hpossible.quiet hpossible.counted hpossible.lined m

end Course

/-! ## What a pass leaves behind -/

namespace Course

/-- What a report reads off the later course is what it reads off the first one, and no pass has
begun. -/
structure Alike (course later : Course κ) : Prop where
  current : later.coordinator.current = none
  running : later.coordinator.lifecycle.running = course.coordinator.lifecycle.running
  records : ∀ phase, later.coordinator.lifecycle.records phase =
    course.coordinator.lifecycle.records phase

variable {course later : Course κ}

/-- Nothing that was seen is forgotten. -/
theorem seen_isPrefix_run (course : Course κ) (moves : List (Move κ)) :
    course.seen <+: (course.run moves).seen :=
  run_induction (P := fun later => course.seen <+: later.seen) (List.prefix_refl _)
    (fun _ _ h => h.trans (List.prefix_append _ _)) moves

/-- A move of which nothing is seen leaves behind what it found. -/
theorem Alike.next (h : course.Alike later) (hc : later.coordinator.Counted) {m : Move κ}
    (hunseen : later.coordinator.events m = []) : course.Alike (later.next m) := by
  have hchange := later.coordinator.change hc m
  unfold Course.next
  generalize later.coordinator.events m = events, later.coordinator.apply m = c'
    at hchange hunseen
  cases hchange with
  | still => exact ⟨h.current, h.running, h.records⟩
  | appended => exact ⟨h.current, h.running, h.records⟩
  | asked => exact ⟨h.current, h.running, h.records⟩
  | left id =>
    refine ⟨?_, h.running, h.records⟩
    rcases later.coordinator.leave_current id with hnone | hsame
    · exact hnone
    · exact hsame.trans h.current
  | refused => cases hunseen
  | opened => cases hunseen
  | turned hturn hr => cases hr <;> cases hunseen
  | failed => cases hunseen
  | started => cases hunseen
  | stopped => cases hunseen

/-- Moves of which nothing is seen leave behind what they found. -/
theorem Alike.run (h : course.Alike later) (hpossible : later.Possible) {moves : List (Move κ)}
    (hunseen : (later.run moves).seen = later.seen) : course.Alike (later.run moves) := by
  induction moves generalizing later with
  | nil => exact h
  | cons m rest ih =>
    have hnone : later.coordinator.events m = [] := by
      have hle := ((later.next m).seen_isPrefix_run rest).length_le
      rw [show (later.next m).run rest = later.run (m :: rest) from rfl, hunseen] at hle
      have hlength : later.seen.length + (later.coordinator.events m).length ≤ later.seen.length :=
        List.length_append ▸ hle
      exact List.eq_nil_of_length_eq_zero (by omega)
    have hsame : (later.next m).seen = later.seen := by
      show later.seen ++ _ = _
      rw [hnone, List.append_nil]
    exact ih (h.next hpossible.counted hnone) (hpossible.next m) (hunseen.trans hsame.symm)

/-- A pass that is given up while it waits for a callback leaves its own behind. -/
theorem Alike.of_leave {id : PassId} {progress : Progress κ}
    (hprogress : course.coordinator.progress? id = some progress) :
    course.Alike (course.next (.leave id)) := by
  refine ⟨?_, rfl, fun _ => rfl⟩
  show (course.coordinator.leave id).current = none
  simp only [Coordinator.leave, hprogress]
  rfl

end Course

end ServiceHost
