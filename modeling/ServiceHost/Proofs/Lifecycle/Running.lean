import Mathlib.Data.List.Induction
import ServiceHost.Proofs.Lifecycle.Line

/-!
# The hook named as running

A lifecycle names as running the hook of the callback that began last, until it has returned
(`Course.Traced`). So the hook of a callback that is executing is always named, and when no pass is
at work none is named exactly if the last callback to begin has returned. A pass that was given up
in a callback leaves its hook named, and a later pass changes this only by a callback of its own:
one that begins none, and returns, leaves the name of a hook whose pass is long gone
(`running_names_hanging_hook`).
-/

namespace ServiceHost

variable {κ : Type}

/-! ## What is read off the events -/

/-- The result of a start pass that is not let through. -/
def refusal : Except LifecycleError Unit → Bool
  | .error (.invalidTransition ..) => true
  | _ => false

namespace Event

/-- The callback that began last, with its pass, if it has not returned. -/
def noteCall (last : Option (PassId × RegisteredHook κ)) :
    Event κ → Option (PassId × RegisteredHook κ)
  | .began pass _ hook => some (pass, hook)
  | .ended .. => none
  | .opened .. => last
  | .finished .. => last

/-- The pass that was let through last, if it has returned. -/
def noteReturn (last : Option PassId) : Event κ → Option PassId
  | .finished pass result => if refusal result then last else some pass
  | .opened .. => none
  | .began .. => none
  | .ended .. => none

end Event

namespace Course

/-- The callback that began last, with its pass, if it has not returned: it is executing, or its
pass was given up or panicked. -/
def hanging? (course : Course κ) : Option (PassId × RegisteredHook κ) :=
  course.seen.foldl Event.noteCall none

/-- The pass that was let through last, if it has returned. -/
def returned? (course : Course κ) : Option PassId :=
  course.seen.foldl Event.noteReturn none

end Course

/-- A callback that has not returned has begun. -/
theorem began_of_hanging {seen : List (Event κ)} {pass : PassId} {hook : RegisteredHook κ}
    (h : seen.foldl Event.noteCall none = some (pass, hook)) :
    ∃ phase, .began pass phase hook ∈ seen := by
  induction seen using List.reverseRecOn with
  | nil => cases h
  | append_singleton seen event ih =>
    rw [List.foldl_append, List.foldl_cons, List.foldl_nil] at h
    cases event with
    | began pass' phase hook' =>
      cases h
      exact ⟨phase, List.mem_append_right _ (List.mem_singleton_self _)⟩
    | ended => cases h
    | opened =>
      obtain ⟨phase, hmem⟩ := ih h
      exact ⟨phase, List.mem_append_left _ hmem⟩
    | finished =>
      obtain ⟨phase, hmem⟩ := ih h
      exact ⟨phase, List.mem_append_left _ hmem⟩

/-! ## Passes that have not begun -/

/-- The passes in the line that have not begun. -/
def Coordinator.waiting (c : Coordinator κ) : List (PassId × Phase) :=
  if c.current.isSome then c.line.drop 1 else c.line

/-- What is seen at the end of a stretch is of the pass. -/
theorem PassStep.pass_of_mem_events {step : PassStep κ} {id : PassId} :
    ∀ event ∈ step.events id, event.pass = id := by
  cases step with
  | call => exact List.forall_mem_singleton.2 rfl
  | finish => exact List.forall_mem_singleton.2 rfl
  | outOfRange => nofun

/-- No pass stands in the line twice, and nothing was seen of a pass that has not begun or asked. -/
structure Course.Quiet (course : Course κ) : Prop where
  nodup : (course.coordinator.line.map Prod.fst).Nodup
  asked : ∀ event ∈ course.seen, event.pass < course.coordinator.asked
  waiting : ∀ p ∈ course.coordinator.waiting, ∀ event ∈ course.seen, event.pass ≠ p.1

namespace Coordinator

/-- A pass that asks has not begun, and no other pass that had. -/
theorem mem_waiting_ask {c : Coordinator κ} {phase : Phase} {p : PassId × Phase}
    (h : p ∈ (c.ask phase).2.waiting) : p ∈ c.waiting ∨ p = (c.asked, phase) := by
  simp only [waiting, ask] at h ⊢
  cases hcurrent : c.current with
  | none => simpa [hcurrent] using h
  | some progress =>
    cases hline : c.line with
    | nil => simp [hcurrent, hline] at h
    | cons first rest => simpa [hcurrent, hline] using h

/-- A pass that has left waits for nothing. -/
theorem progress?_leave (c : Coordinator κ) (id : PassId) : (c.leave id).progress? id = none := by
  refine Option.eq_none_iff_forall_ne_some.2 fun progress hprogress => ?_
  obtain ⟨⟨phase, rest, hline⟩, -⟩ := progress?_eq_some.1 hprogress
  have hmem : (id, phase) ∈ (c.leave id).line := hline ▸ List.mem_cons_self
  simpa using (List.mem_filter.1 hmem).2

/-- No pass that has begun stands among the others when one leaves. -/
theorem mem_waiting_leave {c : Coordinator κ} {id : PassId} {p : PassId × Phase}
    (h : p ∈ (c.leave id).waiting) : p ∈ c.waiting := by
  simp only [waiting, leave] at h ⊢
  cases hline : c.line with
  | nil => simp [hline] at h
  | cons first rest =>
    cases hcurrent : c.current with
    | none =>
      have hprogress : c.progress? id = none := by simp [progress?, hline, hcurrent]
      simp only [hline, hcurrent, hprogress, Option.isSome_none, Bool.false_eq_true, if_false] at h
      exact (List.mem_filter.1 h).1
    | some progress =>
      by_cases hfirst : first.1 = id
      · have hprogress : c.progress? id = some progress := by
          simp [progress?, hline, hcurrent, hfirst]
        simp only [hline, hprogress, Option.isSome_some, Option.isSome_none, Bool.false_eq_true,
          if_true, if_false] at h
        rw [List.filter_cons_of_neg (by simpa using hfirst)] at h
        exact (List.mem_filter.1 h).1
      · have hprogress : c.progress? id = none := by simp [progress?, hline, hcurrent, hfirst]
        simp only [hline, hcurrent, hprogress, Option.isSome_none, Option.isSome_some,
          Bool.false_eq_true, if_true, if_false] at h
        rw [List.filter_cons_of_pos (by simpa using hfirst)] at h
        exact (List.mem_filter.1 h).1

end Coordinator

namespace Course.Quiet

variable {course : Course κ}

theorem new : (new : Course κ).Quiet :=
  ⟨List.nodup_nil, nofun, nofun⟩

/-- Nothing was seen of a pass whose turn it is. -/
theorem of_turn (h : course.Quiet) {id : PassId} {phase : Phase}
    (hturn : course.coordinator.turn? id = some phase) :
    ∀ event ∈ course.seen, event.pass ≠ id := by
  obtain ⟨⟨rest, hline⟩, hcurrent⟩ := Coordinator.turn?_eq_some.1 hturn
  refine h.waiting (id, phase) ?_
  rw [Coordinator.waiting, hcurrent, hline]
  exact List.mem_cons_self

/-- The first pass begins or goes on, and what is seen is of this pass. -/
theorem settle (h : course.Quiet) {id : PassId} {phase : Phase} {rest : List (PassId × Phase)}
    (hknown : id < course.coordinator.asked) (hline : course.coordinator.line = (id, phase) :: rest)
    {events : List (Event κ)} (hevents : ∀ event ∈ events, event.pass = id)
    (r : PassStep κ × Lifecycle κ) :
    Course.Quiet ⟨course.seen ++ events, (course.coordinator.settle r).2⟩ := by
  have hnodup := h.nodup
  rw [hline, List.map_cons, List.nodup_cons] at hnodup
  have hrest : ∀ p ∈ rest, ∀ event ∈ course.seen ++ events, event.pass ≠ p.1 := by
    intro p hp event hevent
    rcases List.mem_append.1 hevent with hbefore | hnew
    · refine h.waiting p ?_ event hbefore
      rw [Coordinator.waiting, hline]
      split
      · exact hp
      · exact List.mem_cons_of_mem _ hp
    · rw [hevents event hnew]
      rintro rfl
      exact hnodup.1 (List.mem_map.2 ⟨p, hp, rfl⟩)
  have hasked : ∀ event ∈ course.seen ++ events, event.pass < course.coordinator.asked := by
    intro event hevent
    rcases List.mem_append.1 hevent with hbefore | hnew
    · exact h.asked event hbefore
    · rw [hevents event hnew]
      exact hknown
  obtain ⟨step, l⟩ := r
  cases step with
  | call callback progress =>
    refine ⟨h.nodup, hasked, fun p hp => hrest p ?_⟩
    simpa [Coordinator.waiting, Coordinator.settle, hline] using hp
  | finish result =>
    refine ⟨?_, hasked, fun p hp => hrest p ?_⟩
    · simpa [Coordinator.settle, hline] using hnodup.2
    · simpa [Coordinator.waiting, Coordinator.settle, hline] using hp
  | outOfRange index =>
    refine ⟨?_, hasked, fun p hp => hrest p ?_⟩
    · simpa [Coordinator.settle, hline] using hnodup.2
    · simpa [Coordinator.waiting, Coordinator.settle, hline] using hp

/-- Every move keeps it so. -/
theorem next (h : course.Quiet) (hc : course.coordinator.Counted)
    (hl : course.coordinator.Lined) (m : Move κ) : (course.next m).Quiet := by
  have hchange := course.coordinator.change hc m
  unfold Course.next
  generalize course.coordinator.events m = events, course.coordinator.apply m = c' at hchange
  -- the first pass has asked
  have hfirst {id : PassId} {phase : Phase} {rest : List (PassId × Phase)}
      (hline : course.coordinator.line = (id, phase) :: rest) : id < course.coordinator.asked :=
    hl.known (id, phase) (hline ▸ List.mem_cons_self)
  have hturned {id : PassId} {phase : Phase} {events : List (Event κ)}
      (hturn : course.coordinator.turn? id = some phase) (r : PassStep κ × Lifecycle κ)
      (hevents : ∀ event ∈ events, event.pass = id) :
      Course.Quiet ⟨course.seen ++ events, (course.coordinator.settle r).2⟩ := by
    obtain ⟨⟨rest, hline⟩, -⟩ := Coordinator.turn?_eq_some.1 hturn
    exact h.settle (hfirst hline) hline hevents r
  have hwaited {id : PassId} {progress : Progress κ} {events : List (Event κ)}
      (hprogress : course.coordinator.progress? id = some progress) (r : PassStep κ × Lifecycle κ)
      (hevents : ∀ event ∈ events, event.pass = id) :
      Course.Quiet ⟨course.seen ++ events, (course.coordinator.settle r).2⟩ := by
    obtain ⟨⟨phase, rest, hline⟩, -⟩ := Coordinator.progress?_eq_some.1 hprogress
    exact h.settle (hfirst hline) hline hevents r
  cases hchange with
  | still =>
    rw [List.append_nil]
    exact h
  | appended =>
    rw [List.append_nil]
    exact ⟨h.nodup, h.asked, h.waiting⟩
  | asked phase =>
    rw [List.append_nil]
    refine ⟨?_, fun event hevent => Nat.lt_succ_of_lt (h.asked event hevent), fun p hp => ?_⟩
    · show ((course.coordinator.line ++ [_]).map Prod.fst).Nodup
      rw [List.map_append, List.nodup_append]
      refine ⟨h.nodup, List.pairwise_singleton .., ?_⟩
      rintro _ hmem _ hlast rfl
      obtain ⟨p, hp, hsame⟩ := List.mem_map.1 hmem
      have hknown := hl.known p hp
      rw [hsame, List.mem_singleton.1 hlast] at hknown
      exact Nat.lt_irrefl _ hknown
    · rcases Coordinator.mem_waiting_ask hp with hbefore | rfl
      · exact h.waiting p hbefore
      · exact fun event hevent => Nat.ne_of_lt (h.asked event hevent)
  | refused hturn => exact hturned hturn _ (List.forall_mem_singleton.2 rfl)
  | opened hturn =>
    exact hturned hturn _ (List.forall_mem_cons.2 ⟨rfl, PassStep.pass_of_mem_events⟩)
  | turned hturn => exact hturned hturn _ PassStep.pass_of_mem_events
  | failed hprogress =>
    exact hwaited hprogress _ (List.forall_mem_cons.2 ⟨rfl, List.forall_mem_singleton.2 rfl⟩)
  | started hprogress =>
    exact hwaited hprogress _ (List.forall_mem_cons.2 ⟨rfl, PassStep.pass_of_mem_events⟩)
  | stopped hprogress =>
    exact hwaited hprogress _ (List.forall_mem_cons.2 ⟨rfl, PassStep.pass_of_mem_events⟩)
  | left id =>
    rw [List.append_nil]
    refine ⟨h.nodup.sublist (List.filter_sublist.map Prod.fst), h.asked, fun p hp => ?_⟩
    exact h.waiting p (Coordinator.mem_waiting_leave hp)

end Course.Quiet

/-! ## The name that is left -/

/-- A stretch ends a pass that was let through and leaves the name of the running hook, or names the
hook of the callback that it begins. -/
inductive Lifecycle.Names (l : Lifecycle κ) : PassStep κ × Lifecycle κ → Prop
  | finish {result : Except LifecycleError Unit} {l' : Lifecycle κ}
      (hpassed : refusal result = false) (hrunning : l'.running = l.running) :
      Names l (.finish result, l')
  | call {callback : κ} {progress : Progress κ} {l' : Lifecycle κ}
      (hrunning : l'.running = some progress.hook.caller) : Names l (.call callback progress, l')

/-- A start pass names the hook whose callback it waits for. -/
theorem Lifecycle.StartStretch.names {reading : Reading} {todo : List (RegisteredHook κ)}
    {l : Lifecycle κ} {r : PassStep κ × Lifecycle κ} (h : StartStretch reading todo l r) :
    l.Names r := by
  cases h with
  | done => exact .finish rfl rfl
  | cancelled => exact .finish rfl rfl
  | call => exact .call rfl

/-- A stop pass names the hook whose callback it waits for. -/
theorem Lifecycle.StopStretch.names {reading : Reading} {hooks : List (RegisteredHook κ)}
    {failures : StopFailures} {l : Lifecycle κ} {r : PassStep κ × Lifecycle κ}
    (h : StopStretch reading hooks failures l r) : l.Names r := by
  cases h with
  | done =>
    refine .finish ?_ rfl
    split <;> rfl
  | cancelled => exact .finish rfl rfl
  | call => exact .call rfl

namespace Course

/-- The hook named as running is that of the callback that began last, if it has not returned. -/
structure Traced (course : Course κ) : Prop where
  running : course.coordinator.lifecycle.running = course.hanging?.map fun call => call.2.caller
  /-- Nothing was seen since a pass began the callback that it waits for. -/
  begun : ∀ id progress, course.coordinator.progress? id = some progress →
    ∃ before, course.seen = before ++ [.began id progress.phase progress.hook]
  /-- The pass of a callback that has not returned has not returned either. -/
  unfinished : ∀ pass hook, course.hanging? = some (pass, hook) →
    ∀ result, .finished pass result ∉ course.seen
  /-- A pass that has returned left no callback behind, if it began any. -/
  returned : ∀ id, course.returned? = some id → course.hanging? ≠ none →
    ∀ phase hook, .began id phase hook ∉ course.seen

namespace Traced

variable {course : Course κ}

theorem new : (new : Course κ).Traced :=
  ⟨rfl, nofun, nofun, nofun⟩

/-- What is not seen and leaves the name alone. -/
theorem unseen (h : course.Traced) {c : Coordinator κ}
    (hrunning : c.lifecycle.running = course.coordinator.lifecycle.running)
    (hprogress : ∀ id progress, c.progress? id = some progress →
      course.coordinator.progress? id = some progress) :
    Traced ⟨course.seen ++ [], c⟩ := by
  rw [List.append_nil]
  exact ⟨hrunning.trans h.running,
    fun id progress hc => h.begun id progress (hprogress id progress hc), h.unfinished, h.returned⟩

/-- The callback that a pass waits for is the one that began last. -/
theorem hanging (h : course.Traced) {id : PassId} {progress : Progress κ}
    (hprogress : course.coordinator.progress? id = some progress) :
    course.hanging? = some (id, progress.hook) := by
  obtain ⟨before, hseen⟩ := h.begun id progress hprogress
  rw [hanging?, hseen, List.foldl_append]
  rfl

section
variable {id : PassId} {seen : List (Event κ)} {c : Coordinator κ}

/-- A pass that begins a callback is named. -/
theorem of_call {l : Lifecycle κ} {callback : κ} {progress : Progress κ}
    (hline : ∃ phase rest, c.line = (id, phase) :: rest)
    (hfresh : ∀ result, .finished id result ∉ seen)
    (hrunning : l.running = some progress.hook.caller) :
    Traced ⟨seen ++ [.began id progress.phase progress.hook],
      (c.settle (.call callback progress, l)).2⟩ := by
  have hlast (last : Option (PassId × RegisteredHook κ)) :
      (seen ++ [Event.began id progress.phase progress.hook]).foldl Event.noteCall last =
        some (id, progress.hook) := by
    rw [List.foldl_append]
    rfl
  have hreturned (last : Option PassId) :
      (seen ++ [Event.began id progress.phase progress.hook]).foldl Event.noteReturn last =
        none := by
    rw [List.foldl_append]
    rfl
  refine ⟨?_, fun id' progress' hprogress => ?_, fun pass hook hpass => ?_, fun id' hid' => ?_⟩
  · show l.running = Option.map _ (List.foldl ..)
    rw [hlast]
    exact hrunning
  · obtain ⟨phase, rest, hline⟩ := hline
    obtain ⟨⟨_, _, hline'⟩, hcurrent⟩ := Coordinator.progress?_eq_some.1 hprogress
    cases hline.symm.trans hline'
    cases hcurrent
    exact ⟨seen, rfl⟩
  · cases (hlast none).symm.trans hpass
    intro result hmem
    rcases List.mem_append.1 hmem with hbefore | hend
    · exact hfresh result hbefore
    · cases List.mem_singleton.1 hend
  · cases (hreturned none).symm.trans hid'

/-- A pass that is over leaves the name of a callback that another pass has begun. -/
theorem of_finish {l : Lifecycle κ} {result : Except LifecycleError Unit}
    (hrunning : l.running = (seen.foldl Event.noteCall none).map fun call => call.2.caller)
    (hunfinished : ∀ pass hook, seen.foldl Event.noteCall none = some (pass, hook) →
      pass ≠ id ∧ ∀ result, .finished pass result ∉ seen)
    (hreturned : ∀ id', (if refusal result then seen.foldl Event.noteReturn none else some id) =
      some id' → seen.foldl Event.noteCall none ≠ none →
        ∀ phase hook, .began id' phase hook ∉ seen) :
    Traced ⟨seen ++ [.finished id result], (c.settle (.finish result, l)).2⟩ := by
  have hhanging : hanging? ⟨seen ++ [.finished id result], (c.settle (.finish result, l)).2⟩ =
      seen.foldl Event.noteCall none := by
    rw [hanging?, List.foldl_append]
    rfl
  have hreturned' : returned? ⟨seen ++ [.finished id result], (c.settle (.finish result, l)).2⟩ =
      if refusal result then seen.foldl Event.noteReturn none else some id := by
    rw [returned?, List.foldl_append]
    rfl
  refine ⟨?_, fun id' progress hprogress => ?_, fun pass hook hpass => ?_, fun id' hid' => ?_⟩
  · rw [hhanging]
    exact hrunning
  · cases (Coordinator.progress?_eq_some.1 hprogress).2
  · rw [hhanging] at hpass
    obtain ⟨hother, hbefore⟩ := hunfinished pass hook hpass
    intro result' hmem
    rcases List.mem_append.1 hmem with hmem | hmem
    · exact hbefore result' hmem
    · cases List.mem_singleton.1 hmem
      exact hother rfl
  · rw [hhanging]
    rw [hreturned'] at hid'
    intro hleft phase hook hmem
    rcases List.mem_append.1 hmem with hmem | hmem
    · exact hreturned id' hid' hleft phase hook hmem
    · cases List.mem_singleton.1 hmem

/-- A stretch of a pass that was not seen before it was let through. -/
theorem enter (h : course.Traced) (hquiet : course.Quiet) {phase : Phase}
    (hturn : course.coordinator.turn? id = some phase) (opened : List (Event κ))
    (hopened : ∀ event ∈ opened, ∃ hooks, event = .opened id hooks) {l : Lifecycle κ}
    {r : PassStep κ × Lifecycle κ} (hr : l.Names r)
    (hl : l.running = course.coordinator.lifecycle.running) :
    Traced ⟨course.seen ++ (opened ++ r.1.events id), (course.coordinator.settle r).2⟩ := by
  have hfresh : ∀ event ∈ course.seen ++ opened, event.pass = id →
      ∃ hooks, event = .opened id hooks := by
    intro event hevent hpass
    rcases List.mem_append.1 hevent with hbefore | hnew
    · exact absurd hpass (hquiet.of_turn hturn event hbefore)
    · exact hopened event hnew
  have hsame : (course.seen ++ opened).foldl Event.noteCall none = course.hanging? := by
    rw [List.foldl_append]
    show opened.foldl Event.noteCall course.hanging? = _
    clear hfresh
    induction opened with
    | nil => rfl
    | cons event rest ih =>
      obtain ⟨⟨hooks, rfl⟩, hrest⟩ := List.forall_mem_cons.1 hopened
      exact ih hrest
  rw [← List.append_assoc]
  cases hr with
  | call hrunning =>
    obtain ⟨⟨rest, hline⟩, -⟩ := Coordinator.turn?_eq_some.1 hturn
    refine .of_call ⟨_, rest, hline⟩ (fun result hmem => ?_) hrunning
    obtain ⟨hooks, heq⟩ := hfresh _ hmem rfl
    cases heq
  | @finish result l' hpassed hrunning =>
    refine .of_finish ?_ (fun pass hook hpass => ?_) fun id' hid' _ phase hook hmem => ?_
    · rw [hsame, hrunning, hl, h.running]
    · rw [hsame] at hpass
      obtain ⟨phase, hbegan⟩ := began_of_hanging hpass
      refine ⟨hquiet.of_turn hturn _ hbegan, fun result hmem => ?_⟩
      rcases List.mem_append.1 hmem with hmem | hmem
      · exact h.unfinished pass hook hpass result hmem
      · obtain ⟨hooks, heq⟩ := hopened _ hmem
        cases heq
    · rw [hpassed] at hid'
      cases hid'
      obtain ⟨hooks, heq⟩ := hfresh _ hmem rfl
      cases heq

/-- A stretch of a pass whose callback has returned. -/
theorem goOn (h : course.Traced) {progress : Progress κ}
    (hprogress : course.coordinator.progress? id = some progress) (result : Except Failure Unit)
    {l : Lifecycle κ} {r : PassStep κ × Lifecycle κ} (hr : l.Names r) (hl : l.running = none) :
    Traced ⟨course.seen ++ (.ended id progress.phase progress.hook result :: r.1.events id),
      (course.coordinator.settle r).2⟩ := by
  have hnone : (course.seen ++ [Event.ended id progress.phase progress.hook result]).foldl
      Event.noteCall none = none := by
    rw [List.foldl_append]
    rfl
  rw [List.append_cons]
  cases hr with
  | call hrunning =>
    obtain ⟨hline, -⟩ := Coordinator.progress?_eq_some.1 hprogress
    refine .of_call hline (fun result hmem => ?_) hrunning
    rcases List.mem_append.1 hmem with hmem | hmem
    · exact h.unfinished _ _ (h.hanging hprogress) result hmem
    · cases List.mem_singleton.1 hmem
  | finish hpassed hrunning =>
    refine .of_finish ?_ (fun pass hook hpass => ?_) fun id' hid' hleft => absurd hnone hleft
    · rw [hnone, hrunning, hl]
      rfl
    · cases hnone.symm.trans hpass

end

/-- Every move keeps it so. -/
theorem next (h : course.Traced) (hquiet : course.Quiet) (hc : course.coordinator.Counted)
    (hl : course.coordinator.Lined) (m : Move κ) : (course.next m).Traced := by
  have hchange := course.coordinator.change hc m
  have hother : ∀ id progress, m.pass? ≠ some id →
      (course.coordinator.apply m).progress? id = some progress →
        course.coordinator.progress? id = some progress :=
    fun id progress hm => Coordinator.progress?_of_apply hc hl hm
  unfold Course.next
  generalize course.coordinator.events m = events, course.coordinator.apply m = c' at hchange hother
  cases hchange with
  | still => exact h.unseen rfl fun _ _ h => h
  | appended => exact h.unseen rfl fun _ _ h => h
  | asked phase => exact h.unseen rfl fun id progress => hother id progress nofun
  | @refused id reading hturn hstate =>
    have hfresh := hquiet.of_turn hturn
    refine .of_finish h.running (fun pass hook hpass => ⟨?_, h.unfinished pass hook hpass⟩)
      fun id' hid' hleft => h.returned id' hid' hleft
    obtain ⟨phase, hbegan⟩ := began_of_hanging hpass
    exact hfresh _ hbegan
  | opened hturn hstate hr =>
    exact h.enter hquiet hturn [_] (List.forall_mem_singleton.2 ⟨_, rfl⟩) hr.names rfl
  | turned hturn hr => exact h.enter hquiet hturn [] nofun hr.names rfl
  | failed hprogress => exact h.goOn hprogress _ (.finish rfl rfl) rfl
  | started hprogress hr => exact h.goOn hprogress _ hr.names rfl
  | stopped hprogress hr => exact h.goOn hprogress _ hr.names rfl
  | left id =>
    refine h.unseen rfl fun id' progress hprogress => ?_
    by_cases hid : id = id'
    · subst hid
      cases (course.coordinator.progress?_leave id).symm.trans hprogress
    · exact hother id' progress (by simpa [Move.pass?] using hid) hprogress

end Traced

variable {course : Course κ}

/-- In every course nothing was seen of the passes that have not begun. -/
theorem Possible.quiet (h : course.Possible) : course.Quiet :=
  h.induction .new fun _ m hpossible hquiet => hquiet.next hpossible.counted hpossible.lined m

/-- In every course the hook named as running is that of the last callback to begin, if it has not
returned. -/
theorem Possible.traced (h : course.Possible) : course.Traced :=
  h.induction .new fun _ m hpossible htraced =>
    htraced.next hpossible.quiet hpossible.counted hpossible.lined m

end Course

/-- In every course the hook of a callback that is executing is named as running. When the pass that
was let through last has returned, no hook is named if the last callback to begin has returned.
Otherwise its hook is named, though its pass never returned, and the pass that did has begun no
callback. -/
theorem running_names_hanging_hook (moves : List (Move κ)) :
    let course := Course.of moves
    let running := course.coordinator.lifecycle.running
    (∀ progress, course.coordinator.current = some progress →
        running = some progress.hook.caller) ∧
      ∀ id, course.returned? = some id →
        (course.hanging? = none → running = none) ∧
          ∀ pass hook, course.hanging? = some (pass, hook) → running = some hook.caller ∧
            (∀ result, .finished pass result ∉ course.seen) ∧
              ∀ phase hook', .began id phase hook' ∉ course.seen := by
  have hpossible : (Course.of moves).Possible := ⟨moves, rfl⟩
  have htraced := hpossible.traced
  refine ⟨fun progress hcurrent => ?_, fun id hreturned => ⟨fun hnone => ?_, ?_⟩⟩
  · obtain ⟨id, rest, hline⟩ := hpossible.lined.first progress hcurrent
    have hprogress := Coordinator.progress?_eq_some.2 ⟨⟨_, rest, hline⟩, hcurrent⟩
    rw [htraced.running, htraced.hanging hprogress]
    rfl
  · rw [htraced.running, hnone]
    rfl
  · intro pass hook hhanging
    refine ⟨?_, htraced.unfinished pass hook hhanging, htraced.returned id hreturned ?_⟩
    · rw [htraced.running, hhanging]
      rfl
    · rw [hhanging]
      nofun

/-- A start pass is given up in the callback of the last of some hooks, and a stop pass goes back
over the others. -/
def startHangs (others : List (Hook Unit)) : List (Move Unit) :=
  others.map (.append "other") ++
    [ .append "hangs" ⟨some (), none, none⟩,
      .ask .start, .enter 0 ⟨0, none⟩, .leave 0,
      .ask .stop, .enter 1 ⟨10, none⟩, .returned 1 (.ok ()) ⟨20, none⟩ ]

/-- If the stop pass begins a callback, no hook is named once it has returned. -/
theorem startHangs_with_stop_names_none :
    let course := Course.of (startHangs [⟨none, some (), none⟩])
    course.returned? = some 1 ∧ course.coordinator.lifecycle.state = .stopped ∧
      course.coordinator.lifecycle.running = none :=
  ⟨rfl, rfl, ((running_names_hanging_hook (startHangs [⟨none, some (), none⟩])).2 1 rfl).1 rfl⟩

/-- If the stop pass begins none, the hook whose start was given up is named, though no pass is at
work and the lifecycle is stopped. -/
theorem startHangs_alone_names_hook :
    let course := Course.of (startHangs [])
    course.returned? = some 1 ∧ course.coordinator.current.isNone ∧
      course.coordinator.lifecycle.state = .stopped ∧
      course.coordinator.lifecycle.running = some "hangs" :=
  ⟨rfl, rfl, rfl, rfl⟩

end ServiceHost
