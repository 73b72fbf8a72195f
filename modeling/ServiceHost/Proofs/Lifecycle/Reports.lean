import ServiceHost.Proofs.Lifecycle.Failures
import ServiceHost.Proofs.Lifecycle.Sequence

/-!
# What stop passes report

The failures of stop callbacks are told twice: when the callbacks return, and by the errors of the
passes that ran them. In each cycle the two agree, failure by failure and in order, for all passes
that have returned (`Course.Reported`): whatever passes were cut off, given up and tried again, none
is reported by two of them and none is lost. Only one pass is at work at a time, so what is seen of
it comes last, and it keeps the failures that are still to be reported. Once the lifecycle is
stopped there is nothing left to report: until it is started again, every pass returns at once
(`Course.stopped_run`).
-/

namespace ServiceHost

variable {κ : Type}

/-! ## Reports -/

/-- The failure of the hook's stop callback, if this came of it. -/
def RegisteredHook.failure? (hook : RegisteredHook κ) : Except Failure Unit → Option StopFailure
  | .ok () => none
  | .error source => some ⟨hook.caller, source⟩

/-- The failure of a stop callback. -/
def Event.failure? : Event κ → Option StopFailure
  | .ended _ .stop hook result => hook.failure? result
  | _ => none

/-- The failures of stop callbacks that the end of a pass reports. -/
def Event.reported : Event κ → StopFailures
  | .finished _ result => carriedBy result
  | _ => []

/-- The pass returns. -/
def Event.finishes (pass : PassId) : Event κ → Bool
  | .finished id _ => id == pass
  | _ => false

/-- The failures of stop callbacks, in the order in which they were seen. -/
def failuresOf (events : List (Event κ)) : StopFailures :=
  events.filterMap Event.failure?

/-- The failures that were reported, in the order in which they were. -/
def reportsOf (events : List (Event κ)) : StopFailures :=
  events.flatMap Event.reported

/-- What was seen of the passes that have returned. -/
def ofReturned (events : List (Event κ)) : List (Event κ) :=
  events.filter fun event => events.any (Event.finishes event.pass)

/-- A pass notes a failure behind those that it has kept. -/
theorem Lifecycle.noteFailure_eq (failures : StopFailures) (hook : RegisteredHook κ)
    (result : Except Failure Unit) :
    noteFailure failures hook result = failures ++ (hook.failure? result).toList := by
  cases result with
  | ok => exact (List.append_nil failures).symm
  | error source => rfl

theorem failuresOf_append (events more : List (Event κ)) :
    failuresOf (events ++ more) = failuresOf events ++ failuresOf more :=
  List.filterMap_append

theorem reportsOf_append (events more : List (Event κ)) :
    reportsOf (events ++ more) = reportsOf events ++ reportsOf more :=
  List.flatMap_append

/-- Only an event of the pass itself is its return. -/
theorem Event.finishes_of_ne {event : Event κ} {pass : PassId} (h : event.pass ≠ pass) :
    event.finishes pass = false := by
  cases event with
  | finished => exact beq_false_of_ne h
  | opened => rfl
  | began => rfl
  | ended => rfl

namespace Course

/-- A pass that has not returned: what was seen of it, after everything else, and the failures that
it has kept. -/
structure Pending (older newer : List (Event κ)) (id : PassId) (kept : StopFailures) : Prop where
  others : ∀ event ∈ older, event.pass ≠ id
  own : ∀ event ∈ newer, event.pass = id ∧ event.finishes id = false
  failures : failuresOf newer = kept

/-- All failures of the passes that have returned were reported, and only these. The pass that waits
for a callback has kept those that it is to report. -/
structure Reported (since : List (Event κ)) (c : Coordinator κ) : Prop where
  reports : reportsOf since = failuresOf (ofReturned since)
  pending : ∀ id progress, c.progress? id = some progress →
    ∃ older newer, since = older ++ newer ∧ Pending older newer id progress.kept

namespace Pending

variable {older newer : List (Event κ)} {id : PassId} {kept : StopFailures}

/-- Nothing was seen of a pass that begins. -/
theorem begin (h : ∀ event ∈ older, event.pass ≠ id) : Pending older [] id [] :=
  ⟨h, nofun, rfl⟩

/-- Nor is there anything to see of others if nothing was seen at all. -/
theorem fresh (id : PassId) : Pending ([] : List (Event κ)) [] id [] :=
  begin nofun

/-- A pass that is pending has not finished. -/
theorem unfinished (h : Pending older newer id kept) :
    (older ++ newer).any (Event.finishes id) = false := by
  rw [List.any_append, Bool.or_eq_false_iff]
  exact ⟨List.any_eq_false.2 fun event hevent =>
      ne_true_of_eq_false (Event.finishes_of_ne (h.others event hevent)),
    List.any_eq_false.2 fun event hevent => ne_true_of_eq_false (h.own event hevent).2⟩

/-- More is seen of the pass, and it does not return. -/
theorem concat (h : Pending older newer id kept) (event : Event κ) (hpass : event.pass = id)
    (hgoes : event.finishes id = false) :
    Pending older (newer ++ [event]) id (kept ++ event.failure?.toList) where
  others := h.others
  own := List.forall_mem_append.2 ⟨h.own, List.forall_mem_singleton.2 ⟨hpass, hgoes⟩⟩
  failures := by
    rw [failuresOf_append, h.failures]
    cases hfailure : event.failure? <;> simp [failuresOf, hfailure]

/-- What is seen of the pass is not to be reported until it returns. -/
theorem reports_concat (h : Pending older newer id kept)
    (hreports : reportsOf (older ++ newer) = failuresOf (ofReturned (older ++ newer)))
    (event : Event κ) (hpass : event.pass = id) (hgoes : ∀ pass, event.finishes pass = false) :
    reportsOf (older ++ newer ++ [event]) =
      failuresOf (ofReturned (older ++ newer ++ [event])) := by
  have hsilent : event.reported = [] := by
    cases event with
    | finished pass => exact absurd (hgoes pass) (by simp [Event.finishes])
    | opened => rfl
    | began => rfl
    | ended => rfl
  have hany (pass : PassId) : (older ++ newer ++ [event]).any (Event.finishes pass) =
      (older ++ newer).any (Event.finishes pass) := by
    rw [List.any_append, List.any_cons, hgoes, List.any_nil, Bool.or_false, Bool.or_false]
  have hsame : ofReturned (older ++ newer ++ [event]) = ofReturned (older ++ newer) := by
    simp only [ofReturned, hany]
    rw [List.filter_append, List.filter_cons_of_neg, List.filter_nil, List.append_nil]
    rw [hpass, h.unfinished]
    exact Bool.false_ne_true
  rw [reportsOf_append, hsame, hreports, reportsOf, List.flatMap_singleton, hsilent,
    List.append_nil]

/-- The pass returns and reports what it has kept. -/
theorem reports_finished (h : Pending older newer id kept)
    (hreports : reportsOf (older ++ newer) = failuresOf (ofReturned (older ++ newer)))
    {result : Except LifecycleError Unit} (hcarried : carriedBy result = kept) :
    reportsOf (older ++ newer ++ [.finished id result]) =
      failuresOf (ofReturned (older ++ newer ++ [.finished id result])) := by
  have hany (pass : PassId) : (older ++ newer ++ [Event.finished id result]).any
      (Event.finishes pass) = ((older ++ newer).any (Event.finishes pass) || id == pass) := by
    rw [List.any_append, List.any_cons, List.any_nil, Bool.or_false]
    rfl
  have hbefore : ofReturned (older ++ newer) =
      older.filter fun event => (older ++ newer).any (Event.finishes event.pass) := by
    rw [ofReturned, List.filter_append]
    refine List.append_right_eq_self.2 (List.filter_eq_nil_iff.2 fun event hevent => ?_)
    rw [(h.own event hevent).1, h.unfinished]
    exact Bool.false_ne_true
  have hafter : ofReturned (older ++ newer ++ [.finished id result]) =
      ofReturned (older ++ newer) ++ (newer ++ [.finished id result]) := by
    rw [hbefore, ofReturned, List.append_assoc, List.filter_append, ← List.append_assoc]
    simp only [hany]
    congr 1
    · refine List.filter_congr fun event hevent => ?_
      rw [beq_false_of_ne (h.others event hevent).symm, Bool.or_false]
    · refine List.filter_eq_self.2 fun event hevent => ?_
      have hown : event.pass = id := (List.mem_append.1 hevent).elim
        (fun hmem => (h.own event hmem).1) fun hmem => List.mem_singleton.1 hmem ▸ rfl
      rw [hown, beq_self_eq_true, Bool.or_true]
  rw [hafter, failuresOf_append, ← hreports, failuresOf_append, h.failures, ← hcarried,
    reportsOf_append]
  simp [reportsOf, failuresOf, Event.reported, Event.failure?]

end Pending

/-- A stretch of the first pass in the line, of which this was seen so far. -/
theorem Pending.stretch {older newer : List (Event κ)} {id : PassId} {kept : StopFailures}
    (h : Pending older newer id kept)
    (hreports : reportsOf (older ++ newer) = failuresOf (ofReturned (older ++ newer)))
    {c : Coordinator κ} {phase : Phase} {others : List (PassId × Phase)}
    (hline : c.line = (id, phase) :: others) {r : PassStep κ × Lifecycle κ}
    (hr : r.1.Hands kept) :
    Reported (older ++ newer ++ r.1.events id) (c.settle r).2 := by
  refine ⟨?_, fun other progress hprogress => ?_⟩
  · obtain ⟨step, l⟩ := r
    cases step with
    | call callback progress => exact h.reports_concat hreports _ rfl fun _ => rfl
    | finish result => exact h.reports_finished hreports (hr.2 result rfl)
    | outOfRange => rw [PassStep.events, List.append_nil, hreports]
  · obtain ⟨rfl, hwaiting⟩ := Coordinator.progress?_settle hline hprogress
    obtain ⟨step, l⟩ := r
    cases step with
    | call callback waiting =>
      cases hwaiting
      refine ⟨older, newer ++ [.began other progress.phase progress.hook], ?_, ?_⟩
      · rw [List.append_assoc]
        rfl
      · have hmore := h.concat (.began other progress.phase progress.hook) rfl rfl
        rw [hr.1 progress rfl, ← List.append_nil kept]
        exact hmore
    | finish => cases hwaiting
    | outOfRange => cases hwaiting

namespace Reported

variable {course : Course κ} {since : List (Event κ)}

/-- Every move that lets no start pass through keeps it so. -/
theorem next (h : Reported since course.coordinator) (hsince : since ⊆ course.seen)
    (hpossible : course.Possible) {m : Move κ}
    (hopened : ∀ id hooks, .opened id hooks ∉ course.coordinator.events m) :
    Reported (since ++ course.coordinator.events m) (course.coordinator.apply m) := by
  have hc := hpossible.counted
  have hnoted := Schedule.empty.noted hc hpossible.lined m
  generalize Schedule.empty.note course.coordinator m = s', course.coordinator.events m = events,
    course.coordinator.apply m = c' at hnoted hopened
  cases hnoted with
  | idle _ hprogress =>
    rw [List.append_nil]
    exact ⟨h.reports, fun id progress hc => h.pending id progress (hprogress id progress hc)⟩
  | appended =>
    rw [List.append_nil]
    exact ⟨h.reports, h.pending⟩
  | @entered id phase reading hturn =>
    obtain ⟨⟨others, hline⟩, -⟩ := Coordinator.turn?_eq_some.1 hturn
    have hquiet : ∀ event ∈ since, event.pass ≠ id := fun event hevent =>
      hpossible.quiet.of_turn hturn event (hsince hevent)
    have hnone : (if phase = .start ∧ course.coordinator.lifecycle.Startable then
        [Event.opened id course.coordinator.lifecycle.hooks] else []) = [] := by
      split
      · next hstart =>
        rw [if_pos hstart] at hopened
        exact absurd (List.mem_append_left _ (List.mem_singleton_self _)) (hopened id _)
      · rfl
    have hreports := h.reports
    rw [hnone, List.nil_append]
    rw [← List.append_nil since] at hreports ⊢
    exact (Pending.begin hquiet).stretch hreports hline
      (Lifecycle.hands_begin phase reading hc.started)
  | @returned id progress result reading hprogress =>
    obtain ⟨⟨phase, others, hline⟩, hcurrent⟩ := Coordinator.progress?_eq_some.1 hprogress
    obtain ⟨older, newer, rfl, hpending⟩ := h.pending id progress hprogress
    have hended := hpending.concat (.ended id progress.phase progress.hook result) rfl rfl
    have hreports := hpending.reports_concat h.reports
      (.ended id progress.phase progress.hook result) rfl fun _ => rfl
    rw [List.append_cons, List.append_assoc older]
    rw [List.append_assoc older] at hreports
    refine hended.stretch hreports hline ?_
    cases progress with
    | starting hook rest begun =>
      exact Lifecycle.hands_resume_starting hook rest begun result reading
    | stopping hook hooks failures begun =>
      have hle := (hc.stopping _ _ _ _ hcurrent).2.1
      show (PassStep.Hands (failures ++ (hook.failure? result).toList) _)
      rw [← Lifecycle.noteFailure_eq]
      exact (Lifecycle.resume_stopping_stretch hook failures begun result reading hle).hands

end Reported

/-- What was seen since a start pass was let through goes on with what is seen next, unless another
one is let through. -/
theorem Latest.of_append {seen more since : List (Event κ)} {id : PassId}
    {hooks : List (RegisteredHook κ)} (h : Latest (seen ++ more) id hooks since)
    (hmore : ∀ id' hooks', .opened id' hooks' ∉ more) :
    ∃ earlier, Latest seen id hooks earlier ∧ since = earlier ++ more := by
  obtain ⟨⟨before, hseen⟩, hsince⟩ := h
  rcases List.append_eq_append_iff.1 hseen with ⟨rest, -, hrest⟩ | ⟨rest, rfl, hrest⟩
  · exact absurd (hrest ▸ List.mem_append_right rest List.mem_cons_self) (hmore id hooks)
  · rcases List.cons_eq_append_iff.1 hrest with ⟨-, hnone⟩ | ⟨earlier, rfl, rfl⟩
    · exact absurd (hnone ▸ List.mem_cons_self) (hmore id hooks)
    · exact ⟨earlier, ⟨⟨before, rfl⟩, fun id' hooks' hmem =>
        hsince id' hooks' (List.mem_append_left _ hmem)⟩, rfl⟩

theorem Latest.subset {seen since : List (Event κ)} {id : PassId} {hooks : List (RegisteredHook κ)}
    (h : Latest seen id hooks since) : since ⊆ seen := by
  obtain ⟨⟨before, rfl⟩, -⟩ := h
  exact fun event hevent => List.mem_append_right _ (List.mem_cons_of_mem _ hevent)

/-- In every cycle, the failures of the passes that have returned were reported. -/
theorem Possible.reported {course : Course κ} (h : course.Possible) {id : PassId}
    {hooks : List (RegisteredHook κ)} {since : List (Event κ)}
    (hlatest : Latest course.seen id hooks since) : Reported since course.coordinator := by
  refine h.induction (P := fun course => ∀ id hooks since, Latest course.seen id hooks since →
    Reported since course.coordinator) ?_ ?_ id hooks since hlatest
  · rintro id hooks since hlatest
    cases hlatest.mem
  · intro course m hpossible ih id hooks since hlatest
    by_cases hopened : ∃ id hooks, .opened id hooks ∈ course.coordinator.events m
    · obtain ⟨id', hooks', hopened⟩ := hopened
      obtain ⟨hturn, hstate, -, reading, rfl⟩ := Coordinator.of_opened hopened
      obtain ⟨⟨others, hline⟩, -⟩ := Coordinator.turn?_eq_some.1 hturn
      have hnow : Latest (course.next (.enter id' reading)).seen id'
          course.coordinator.lifecycle.hooks
          ((course.coordinator.lifecycle.begin .start reading).1.events id') := by
        rw [Course.next, Coordinator.events_enter reading hturn, if_pos ⟨rfl, hstate⟩]
        exact ⟨⟨course.seen, rfl⟩, opened_notMem_events _ _⟩
      obtain ⟨rfl, rfl, rfl⟩ := hlatest.unique hnow
      rw [Course.next, Coordinator.apply_enter reading hturn]
      exact (Pending.fresh id).stretch rfl hline
        (Lifecycle.hands_begin .start reading hpossible.counted.started)
    · have hnone : ∀ id hooks, .opened id hooks ∉ course.coordinator.events m :=
        fun id hooks hmem => hopened ⟨id, hooks, hmem⟩
      obtain ⟨earlier, hearlier, rfl⟩ := hlatest.of_append hnone
      exact (ih id hooks earlier hearlier).next hearlier.subset hpossible hnone

end Course

/-! ## After the stop -/

namespace Coordinator

variable {c : Coordinator κ}

/-- A stop pass that comes to its turn in a stopped lifecycle returns at once, whether its context
is done or not. -/
theorem events_stop_of_stopped (hc : c.Counted) (hstopped : c.lifecycle.state = .stopped)
    {id : PassId} (hturn : c.turn? id = some .stop) (reading : Reading) :
    c.events (.enter id reading) = [.finished id (.ok ())] := by
  have hzero : c.lifecycle.started = 0 := hc.idle (.inr hstopped)
  rw [events_enter reading hturn, Lifecycle.begin, Lifecycle.beginStop, hzero]
  rfl

/-- A stopped lifecycle stays so by every move that lets no start pass through, and nothing is seen
of it but passes that return. -/
theorem stopped_apply (hc : c.Counted) (hstopped : c.lifecycle.state = .stopped) {m : Move κ}
    (hopened : ∀ id hooks, .opened id hooks ∉ c.events m) :
    (c.apply m).lifecycle.state = .stopped ∧
      ∀ event ∈ c.events m, ∃ id, event = .finished id (.ok ()) := by
  have hzero : c.lifecycle.started = 0 := hc.idle (.inr hstopped)
  have hchange := c.change hc m
  generalize c.events m = events, c.apply m = c' at hchange hopened
  cases hchange with
  | still => exact ⟨hstopped, nofun⟩
  | appended => exact ⟨hstopped, nofun⟩
  | asked => exact ⟨hstopped, nofun⟩
  | left => exact ⟨hstopped, nofun⟩
  | refused _ hstate => exact absurd (.inr hstopped) hstate
  | opened => exact absurd List.mem_cons_self (hopened _ _)
  | @turned id reading r hturn hr =>
    have hnone : c.lifecycle.hooks.take c.lifecycle.started = [] := by
      rw [hzero, List.take_zero]
    cases hr with
    | done => exact ⟨rfl, List.forall_mem_singleton.2 ⟨id, rfl⟩⟩
    | cancelled hcounted =>
      exact absurd (hnone.symm.trans hcounted).symm (List.append_ne_nil_of_right_ne_nil _ nofun)
    | call hcounted =>
      exact absurd (hnone.symm.trans hcounted).symm (List.append_ne_nil_of_right_ne_nil _ nofun)
  | failed hprogress =>
    have hstate := (hc.starting _ _ _ (current_of_progress? hprogress)).1
    cases hstopped.symm.trans hstate
  | started hprogress =>
    have hstate := (hc.starting _ _ _ (current_of_progress? hprogress)).1
    cases hstopped.symm.trans hstate
  | stopped hprogress =>
    have hstate := (hc.stopping _ _ _ _ (current_of_progress? hprogress)).1
    cases hstopped.symm.trans hstate

end Coordinator

/-- A stopped lifecycle stays so until a start pass is let through, and until then nothing is seen
of it but passes that return. -/
theorem Course.stopped_run {course : Course κ} (h : course.Possible)
    (hstopped : course.coordinator.lifecycle.state = .stopped) (more : List (Move κ)) :
    ∃ new, (course.run more).seen = course.seen ++ new ∧
      ((∀ id hooks, .opened id hooks ∉ new) →
        (course.run more).coordinator.lifecycle.state = .stopped ∧
          ∀ event ∈ new, ∃ id, event = .finished id (.ok ())) := by
  induction more using List.reverseRecOn with
  | nil => exact ⟨[], (List.append_nil _).symm, fun _ => ⟨hstopped, nofun⟩⟩
  | append_singleton more m ih =>
    obtain ⟨new, hseen, hkept⟩ := ih
    have hpossible : (course.run more).Possible := by
      obtain ⟨moves, rfl⟩ := h
      exact ⟨moves ++ more, (run_append .new moves more).symm⟩
    rw [run_append]
    refine ⟨new ++ (course.run more).coordinator.events m, ?_, fun hopened => ?_⟩
    · show (course.run more).seen ++ _ = _
      rw [hseen, List.append_assoc]
    · obtain ⟨hstate, hnew⟩ := hkept fun id hooks hmem =>
        hopened id hooks (List.mem_append_left _ hmem)
      obtain ⟨hstate, hmore⟩ := Coordinator.stopped_apply hpossible.counted hstate
        fun id hooks hmem => hopened id hooks (List.mem_append_right _ hmem)
      exact ⟨hstate, List.forall_mem_append.2 ⟨hnew, hmore⟩⟩

end ServiceHost
