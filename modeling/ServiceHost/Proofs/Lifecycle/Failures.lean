import ServiceHost.Proofs.Lifecycle.Running

/-!
# What a pass keeps of failed stop callbacks

A pass keeps the failures of its stop callbacks until it is over (`Course.Tallied`), and its error
carries them, whether all hooks were gone over or the context was done before one of them
(`PassStep.Hands`). A start pass has none to keep.
-/

namespace ServiceHost

variable {κ : Type}

/-! ## Failures that were seen, and failures that are carried -/

/-- The failure of a stop callback of that pass. -/
def Event.stopFailure? (pass : PassId) : Event κ → Option StopFailure
  | .ended id .stop hook (.error source) => if id = pass then some ⟨hook.caller, source⟩ else none
  | _ => none

/-- The failures of the stop callbacks of a pass, in the order in which they were seen. -/
def stopFailuresOf (pass : PassId) (seen : List (Event κ)) : StopFailures :=
  seen.filterMap (Event.stopFailure? pass)

/-- The failures of stop callbacks that an error carries. -/
def LifecycleError.carried : LifecycleError → StopFailures
  | .stopFailed failures => failures
  | .cancelled _ _ _ failures => failures
  | .rollback start undo => start.carried ++ undo.carried
  | .hookFailed .. => []
  | .timeout .. => []
  | .invalidTransition .. => []
  | .blankCaller => []

/-- The failures of stop callbacks that a call returns with. -/
def carriedBy : Except LifecycleError Unit → StopFailures
  | .ok () => []
  | .error e => e.carried

/-- The failures of stop callbacks that a pass has kept. -/
def Progress.kept : Progress κ → StopFailures
  | .starting .. => []
  | .stopping _ _ failures _ => failures

theorem stopFailuresOf_append (pass : PassId) (seen more : List (Event κ)) :
    stopFailuresOf pass (seen ++ more) = stopFailuresOf pass seen ++ stopFailuresOf pass more :=
  List.filterMap_append

/-- No failure was seen of a pass of which nothing was seen. -/
theorem stopFailuresOf_eq_nil {pass : PassId} {seen : List (Event κ)}
    (h : ∀ event ∈ seen, event.pass ≠ pass) : stopFailuresOf pass seen = [] := by
  refine List.filterMap_eq_nil_iff.2 fun event hevent => ?_
  have hother := h event hevent
  unfold Event.stopFailure?
  split
  · exact if_neg hother
  · rfl

/-- The end of a stretch is no failure of a stop callback. -/
theorem stopFailuresOf_events (pass id : PassId) (step : PassStep κ) :
    stopFailuresOf pass (step.events id) = [] := by
  cases step <;> rfl

/-- A stop callback that returns is noted by its pass and seen alike. -/
theorem stopFailuresOf_ended_stop (id : PassId) (hook : RegisteredHook κ)
    (result : Except Failure Unit) (seen : List (Event κ)) :
    stopFailuresOf id (seen ++ [.ended id .stop hook result]) =
      Lifecycle.noteFailure (stopFailuresOf id seen) hook result := by
  rw [stopFailuresOf_append]
  cases result with
  | ok => exact List.append_nil _
  | error source =>
    have hseen : stopFailuresOf id [Event.ended id .stop hook (.error source)] =
        [⟨hook.caller, source⟩] := by
      simp [stopFailuresOf, Event.stopFailure?]
    rw [hseen]
    rfl

/-! ## One pass -/

section
variable {reading : Reading} {l : Lifecycle κ} {r : PassStep κ × Lifecycle κ}

/-- The pass keeps those failures while it waits for a callback, and carries them if it is over. -/
def PassStep.Hands (failures : StopFailures) (step : PassStep κ) : Prop :=
  (∀ progress, step.waiting = some progress → progress.kept = failures) ∧
    ∀ result, step = .finish result → carriedBy result = failures

theorem PassStep.Hands.finish {failures : StopFailures} {result : Except LifecycleError Unit}
    (h : carriedBy result = failures) : (PassStep.finish result : PassStep κ).Hands failures :=
  ⟨nofun, fun _ hresult => by cases hresult; exact h⟩

theorem PassStep.Hands.call {failures : StopFailures} {callback : κ} {progress : Progress κ}
    (h : progress.kept = failures) : (PassStep.call callback progress).Hands failures :=
  ⟨fun _ hwaits => by cases hwaits; exact h, nofun⟩

/-- A stop pass keeps its failures while it waits, and carries them when it is over. -/
theorem Lifecycle.StopStretch.hands {hooks : List (RegisteredHook κ)} {failures : StopFailures}
    (h : StopStretch reading hooks failures l r) : r.1.Hands failures := by
  cases h with
  | done =>
    refine .finish ?_
    cases failures <;> rfl
  | cancelled => exact .finish rfl
  | call => exact .call rfl

/-- A start pass has no failures of stop callbacks to keep. -/
theorem Lifecycle.StartStretch.hands {todo : List (RegisteredHook κ)}
    (h : StartStretch reading todo l r) : r.1.Hands [] := by
  cases h with
  | done => exact .finish rfl
  | cancelled => exact .finish rfl
  | call => exact .call rfl

/-- A pass that begins has no failure to hand on yet. -/
theorem Lifecycle.hands_begin (phase : Phase) (reading : Reading)
    (hle : l.started ≤ l.hooks.length) : (l.begin phase reading).1.Hands [] := by
  cases phase with
  | stop => exact (beginStop_stretch reading hle).hands
  | start =>
    by_cases hstate : l.Startable
    · exact (beginStart_stretch reading hstate).hands
    · rw [begin, beginStart_of_not_startable reading hstate]
      exact .finish rfl

/-- A start pass goes on with nothing kept. -/
theorem Lifecycle.hands_resume_starting (hook : RegisteredHook κ)
    (rest : List (RegisteredHook κ)) (begun : Nat) (result : Except Failure Unit)
    (reading : Reading) : (l.resume (.starting hook rest begun) result reading).1.Hands [] := by
  cases result with
  | ok => exact (resume_starting_stretch hook rest begun reading l).hands
  | error source => exact .finish rfl

end

/-- What is seen of a move is of the pass that moves. -/
theorem Coordinator.pass?_of_mem_events {c : Coordinator κ} {m : Move κ} :
    ∀ event ∈ c.events m, m.pass? = some event.pass := by
  intro event hevent
  cases m with
  | append => cases hevent
  | ask => cases hevent
  | leave => cases hevent
  | enter id reading =>
    simp only [events] at hevent
    split at hevent
    · cases hevent
    · split at hevent
      · rcases List.mem_cons.1 hevent with rfl | hevent
        · rfl
        · exact congrArg some (PassStep.pass_of_mem_events event hevent).symm
      · exact congrArg some (PassStep.pass_of_mem_events event hevent).symm
    · exact congrArg some (PassStep.pass_of_mem_events event hevent).symm
  | returned id result reading =>
    simp only [events] at hevent
    split at hevent
    · cases hevent
    · rcases List.mem_cons.1 hevent with rfl | hevent
      · rfl
      · exact congrArg some (PassStep.pass_of_mem_events event hevent).symm

/-- A pass waits for what it has come to at the end of a stretch. -/
theorem Coordinator.waiting_of_settle {c : Coordinator κ} {r : PassStep κ × Lifecycle κ}
    {id : PassId} {progress : Progress κ} (h : (c.settle r).2.progress? id = some progress) :
    r.1.waiting = some progress := by
  have hcurrent := current_of_progress? h
  obtain ⟨step, l⟩ := r
  cases step with
  | call => exact hcurrent
  | finish => cases hcurrent
  | outOfRange => cases hcurrent

namespace Course

variable {course : Course κ} {id : PassId}

/-- The pass that waits for a callback has kept the failures of its stop callbacks. -/
def Tallied (course : Course κ) : Prop :=
  ∀ id progress, course.coordinator.progress? id = some progress →
    progress.kept = stopFailuresOf id course.seen

/-- No stop callback of a pass has failed when it begins. -/
theorem Quiet.hands_enter (h : course.Quiet) (hc : course.coordinator.Counted) {phase : Phase}
    (hturn : course.coordinator.turn? id = some phase) (reading : Reading) :
    (course.coordinator.lifecycle.begin phase reading).1.Hands
      (stopFailuresOf id (course.next (.enter id reading)).seen) := by
  have hnone : stopFailuresOf id (course.next (.enter id reading)).seen = [] := by
    rw [Course.next, stopFailuresOf_append, stopFailuresOf_eq_nil (h.of_turn hturn)]
    simp only [Coordinator.events, hturn]
    cases phase with
    | start =>
      show stopFailuresOf id (if course.coordinator.lifecycle.Startable then _ else _) = []
      split <;> exact stopFailuresOf_events id id _
    | stop => exact stopFailuresOf_events id id _
  rw [hnone]
  exact Lifecycle.hands_begin phase reading hc.started

/-- A pass that goes on has kept the failures of its stop callbacks, that of the callback that has
returned included. -/
theorem Tallied.hands_returned (h : course.Tallied) (hc : course.coordinator.Counted)
    {progress : Progress κ} (hprogress : course.coordinator.progress? id = some progress)
    (result : Except Failure Unit) (reading : Reading) :
    (course.coordinator.lifecycle.resume progress result reading).1.Hands
      (stopFailuresOf id (course.next (.returned id result reading)).seen) := by
  have hkept := h id progress hprogress
  simp only [Course.next, Coordinator.events, hprogress]
  rw [List.append_cons, stopFailuresOf_append, stopFailuresOf_events, List.append_nil]
  cases progress with
  | starting hook rest begun =>
    rw [stopFailuresOf_append, ← hkept]
    exact Lifecycle.hands_resume_starting hook rest begun result reading
  | stopping hook hooks failures begun =>
    have hle := (hc.stopping _ _ _ _ (Coordinator.current_of_progress? hprogress)).2.1
    have hsame : failures = stopFailuresOf id course.seen := hkept
    rw [Progress.phase, Progress.hook, stopFailuresOf_ended_stop, ← hsame]
    exact (Lifecycle.resume_stopping_stretch hook failures begun result reading hle).hands

/-- Every move keeps it so. -/
theorem Tallied.next (h : course.Tallied) (hquiet : course.Quiet)
    (hc : course.coordinator.Counted) (hl : course.coordinator.Lined) (m : Move κ) :
    (course.next m).Tallied := by
  intro id progress hwaits
  by_cases hm : m.pass? = some id
  · cases m with
    | append => cases hm
    | ask => cases hm
    | leave =>
      cases hm
      cases (course.coordinator.progress?_leave id).symm.trans hwaits
    | enter _ reading =>
      cases hm
      cases hturn : course.coordinator.turn? id with
      | none =>
        simp only [Course.next, Coordinator.apply, Coordinator.enter, Coordinator.events, hturn,
          List.append_nil] at hwaits ⊢
        exact h id progress hwaits
      | some phase =>
        have hsettled := congrArg (·.progress? id) (Coordinator.apply_enter reading hturn)
        exact (hquiet.hands_enter hc hturn reading).1 progress
          (Coordinator.waiting_of_settle (hsettled.symm.trans hwaits))
    | returned _ result reading =>
      cases hm
      cases hprogress : course.coordinator.progress? id with
      | none =>
        simp only [Course.next, Coordinator.apply, Coordinator.returned, Coordinator.events,
          hprogress, List.append_nil] at hwaits ⊢
        exact h id progress hwaits
      | some before =>
        have hsettled := congrArg (·.progress? id)
          (Coordinator.apply_returned result reading hprogress)
        exact (h.hands_returned hc hprogress result reading).1 progress
          (Coordinator.waiting_of_settle (hsettled.symm.trans hwaits))
  · have hbefore := Coordinator.progress?_of_apply hc hl hm hwaits
    have hother : ∀ event ∈ course.coordinator.events m, event.pass ≠ id := by
      rintro event hevent rfl
      exact hm (Coordinator.pass?_of_mem_events event hevent)
    rw [Course.next, stopFailuresOf_append, stopFailuresOf_eq_nil hother, List.append_nil]
    exact h id progress hbefore

theorem Possible.tallied (h : course.Possible) : course.Tallied :=
  h.induction nofun fun _ m hpossible htallied =>
    htallied.next hpossible.quiet hpossible.counted hpossible.lined m

end Course

end ServiceHost
