import ServiceHost.Proofs.Lifecycle.Running

/-!
# The status of a lifecycle

The state and the count of a lifecycle outlive every pass, also one that failed, was given up or
panicked, and a stop pass takes the count for an index into hooks that it looks up itself. So this
module says what the two are worth in every course. The count stays within the hooks and is zero
while no pass was let through or after the lifecycle was stopped (`Coordinator.Counted`); what is
read in the middle of a stretch is no worse (`Coordinator.views`). A started lifecycle counts the
hooks of the start pass that was let through last (`Course.Launched`). And the loop of a stop pass
that looks at the count in each of its turns never fails to find a hook or to take one off
(`Lifecycle.stopTurns_eq`).
-/

namespace ServiceHost

variable {κ : Type}

/-! ## In the middle of a stretch -/

namespace Lifecycle

/-- The lifecycles that can be read while a stretch of a start pass runs, one for each turn of its
loop. -/
def startViews : List (RegisteredHook κ) → Lifecycle κ → List (Lifecycle κ)
  | [], l => [l]
  | hook :: rest, l =>
    match hook.onStart with
    | none => l :: startViews rest { l with started := l.started + 1 }
    | some _ => [l]

/-- The lifecycles that can be read while a stretch of a stop pass runs, one for each turn of its
loop. -/
def stopViews (hooks : List (RegisteredHook κ)) : Nat → Lifecycle κ → List (Lifecycle κ)
  | 0, l => [l]
  | count + 1, l =>
    match hooks[count]?.bind (·.onStop) with
    | none => l :: stopViews hooks count { l with started := count }
    | some _ => [l]

/-- What is seen in the middle of a start has the same hooks and state, and counts no more than were
left to do. -/
theorem of_mem_startViews {todo : List (RegisteredHook κ)} {l view : Lifecycle κ}
    (h : view ∈ startViews todo l) :
    view.hooks = l.hooks ∧ view.state = l.state ∧ view.started ≤ l.started + todo.length := by
  induction todo generalizing l with
  | nil =>
    cases List.mem_singleton.1 h
    exact ⟨rfl, rfl, Nat.le_refl _⟩
  | cons hook rest ih =>
    have hfirst : l.started ≤ l.started + (hook :: rest).length := Nat.le_add_right _ _
    unfold startViews at h
    split at h
    · rcases List.mem_cons.1 h with rfl | hrest
      · exact ⟨rfl, rfl, hfirst⟩
      · obtain ⟨hhooks, hstate, hle⟩ := ih hrest
        refine ⟨hhooks, hstate, Nat.le_trans hle ?_⟩
        show l.started + 1 + rest.length ≤ l.started + (rest.length + 1)
        omega
    · cases List.mem_singleton.1 h
      exact ⟨rfl, rfl, hfirst⟩

/-- What is seen in the middle of a stop has the same hooks and state, and counts no more than
before. -/
theorem of_mem_stopViews {hooks : List (RegisteredHook κ)} {count : Nat} {l view : Lifecycle κ}
    (h : view ∈ stopViews hooks count l) (hcount : l.started = count) :
    view.hooks = l.hooks ∧ view.state = l.state ∧ view.started ≤ count := by
  induction count generalizing l with
  | zero =>
    cases List.mem_singleton.1 h
    exact ⟨rfl, rfl, Nat.le_of_eq hcount⟩
  | succ count ih =>
    unfold stopViews at h
    split at h
    · rcases List.mem_cons.1 h with rfl | hrest
      · exact ⟨rfl, rfl, Nat.le_of_eq hcount⟩
      · obtain ⟨hhooks, hstate, hle⟩ := ih hrest rfl
        exact ⟨hhooks, hstate, Nat.le_succ_of_le hle⟩
    · cases List.mem_singleton.1 h
      exact ⟨rfl, rfl, Nat.le_of_eq hcount⟩

/-! ## The loop of a stop pass, turn by turn -/

/-- Takes the last counted hook off the count, if there is one. -/
def uncount? (l : Lifecycle κ) : Option (Lifecycle κ) :=
  if l.started = 0 then none else some { l with started := l.started - 1 }

/-- The loop of a stop pass as it looks at the count anew in each turn, for so many turns. It fails
if it looks for a hook that is not there, takes a hook off a count of zero, or has turns left to
do. -/
def stopTurns (reading : Reading) (hooks : List (RegisteredHook κ)) (failures : StopFailures) :
    Nat → Lifecycle κ → Option (PassStep κ × Lifecycle κ)
  | 0, _ => none
  | turns + 1, l =>
    if l.started = 0 then
      some (.finish (if failures.isEmpty then .ok () else .error (.stopFailed failures)),
        { l with state := .stopped })
    else
      hooks[l.started - 1]?.bind fun hook =>
        match hook.onStop with
        | none => l.uncount?.bind (stopTurns reading hooks failures turns)
        | some callback =>
          match reading.contextError with
          | some reason =>
            some (.finish (.error (.cancelled .stop hook.caller reason failures)), l)
          | none =>
            l.uncount?.map fun l =>
              (.call callback (.stopping hook hooks failures reading.now),
                { l with running := some hook.caller })

/-- A loop that begins within its hooks does not fail, and comes where `stopFrom` comes. -/
theorem stopTurns_eq (reading : Reading) (hooks : List (RegisteredHook κ)) (failures : StopFailures)
    (l : Lifecycle κ) (hle : l.started ≤ hooks.length) :
    stopTurns reading hooks failures (l.started + 1) l =
      some (stopFrom reading hooks failures l.started l) := by
  generalize hcount : l.started = count at hle
  induction count generalizing l with
  | zero => simp only [stopTurns, hcount, if_true, stopFrom]
  | succ count ih =>
    have hsome : l.started ≠ 0 := by omega
    have hless : l.uncount? = some { l with started := count } := by
      rw [uncount?, if_neg hsome, hcount]
      rfl
    unfold stopTurns
    rw [if_neg hsome, hcount, Nat.add_sub_cancel]
    simp only [List.getElem?_eq_getElem (show count < hooks.length from hle), Option.bind_some,
      stopFrom, hless]
    cases hooks[count].onStop with
    | none => exact ih { l with started := count } rfl (Nat.le_of_succ_le hle)
    | some callback =>
      cases reading.contextError with
      | some reason => rfl
      | none => rfl

end Lifecycle

namespace Coordinator

/-- The lifecycles that can be read in the middle of a move. -/
def views (c : Coordinator κ) : Move κ → List (Lifecycle κ)
  | .enter id _ =>
    match c.turn? id with
    | some .start =>
      if c.lifecycle.Startable then
        Lifecycle.startViews c.lifecycle.hooks
          { c.lifecycle with state := .starting, startRecords := [] }
      else []
    | some .stop =>
      Lifecycle.stopViews c.lifecycle.hooks c.lifecycle.started
        { c.lifecycle with state := .stopping, stopRecords := [] }
    | none => []
  | .returned id result reading =>
    match c.progress? id, result with
    | some (.starting hook rest begun), .ok () =>
      let recorded := { c.lifecycle with
        running := none
        startRecords := c.lifecycle.startRecords ++ [Lifecycle.recordOf hook begun reading] }
      recorded :: Lifecycle.startViews rest { recorded with started := recorded.started + 1 }
    | some (.stopping hook hooks _ begun), _ =>
      Lifecycle.stopViews hooks c.lifecycle.started { c.lifecycle with
        running := none
        stopRecords := c.lifecycle.stopRecords ++ [Lifecycle.recordOf hook begun reading] }
    | _, _ => []
  | .append .. => []
  | .ask _ => []
  | .leave _ => []

/-- What is read in the middle of a move is the count of a pass that is under way, within the
hooks. -/
theorem Counted.view {c : Coordinator κ} (hc : c.Counted) {m : Move κ} {view : Lifecycle κ}
    (h : view ∈ c.views m) :
    view.started ≤ view.hooks.length ∧ (view.state = .starting ∨ view.state = .stopping) := by
  cases m with
  | append => cases h
  | ask => cases h
  | leave => cases h
  | enter id reading =>
    simp only [views] at h
    split at h
    · split at h
      · next hstate =>
        obtain ⟨hhooks, hview, hle⟩ := Lifecycle.of_mem_startViews h
        have hzero := hc.idle hstate
        refine ⟨?_, .inl hview⟩
        rw [hhooks]
        simp only [hzero, Nat.zero_add] at hle
        exact hle
      · cases h
    · obtain ⟨hhooks, hview, hle⟩ := Lifecycle.of_mem_stopViews h rfl
      refine ⟨?_, .inr hview⟩
      rw [hhooks]
      exact Nat.le_trans hle hc.started
    · cases h
  | returned id result reading =>
    simp only [views] at h
    split at h
    · next hook rest begun hprogress =>
      obtain ⟨hstate, hcount⟩ := hc.starting _ _ _ (current_of_progress? hprogress)
      rcases List.mem_cons.1 h with rfl | hrest
      · exact ⟨hc.started, .inl hstate⟩
      · obtain ⟨hhooks, hview, hle⟩ := Lifecycle.of_mem_startViews hrest
        refine ⟨?_, .inl (hview.trans hstate)⟩
        rw [hhooks]
        exact Nat.le_trans hle hcount
    · next hook hooks failures begun hprogress =>
      obtain ⟨hstate, -, -⟩ := hc.stopping _ _ _ _ (current_of_progress? hprogress)
      obtain ⟨hhooks, hview, hle⟩ := Lifecycle.of_mem_stopViews h rfl
      refine ⟨?_, .inr (hview.trans hstate)⟩
      rw [hhooks]
      exact Nat.le_trans hle hc.started
    · cases h

end Coordinator

/-! ## The pass that started a lifecycle -/

namespace Course

/-- The start pass that was let through last, with the hooks that it goes over and what was seen
since. -/
def Latest (seen : List (Event κ)) (id : PassId) (hooks : List (RegisteredHook κ))
    (since : List (Event κ)) : Prop :=
  (∃ before, seen = before ++ .opened id hooks :: since) ∧
    ∀ id' hooks', .opened id' hooks' ∉ since

/-- A start that was the latest stays so until another one is opened. -/
theorem Latest.append {seen since more : List (Event κ)} {id : PassId}
    {hooks : List (RegisteredHook κ)} (h : Latest seen id hooks since)
    (hmore : ∀ id' hooks', .opened id' hooks' ∉ more) :
    Latest (seen ++ more) id hooks (since ++ more) := by
  obtain ⟨⟨before, rfl⟩, hsince⟩ := h
  refine ⟨⟨before, by rw [List.append_assoc, List.cons_append]⟩, fun id' hooks' hmem => ?_⟩
  rcases List.mem_append.1 hmem with hmem | hmem
  · exact hsince id' hooks' hmem
  · exact hmore id' hooks' hmem

/-- The end of a stretch lets no start pass through. -/
theorem opened_notMem_events (step : PassStep κ) (id id' : PassId)
    (hooks : List (RegisteredHook κ)) : .opened id' hooks ∉ step.events id := by
  cases step with
  | call => exact fun h => nomatch List.mem_singleton.1 h
  | finish => exact fun h => nomatch List.mem_singleton.1 h
  | outOfRange => exact List.not_mem_nil

/-- A start pass is the one that was let through last, and what it has counted and has still before
it are its hooks. Once the lifecycle is started, they are all counted. -/
structure Launched (course : Course κ) : Prop where
  starting : ∀ id hook rest begun,
    course.coordinator.progress? id = some (.starting hook rest begun) →
      ∃ hooks since, Latest course.seen id hooks since ∧
        course.coordinator.lifecycle.started + 1 + rest.length = hooks.length
  started : course.coordinator.lifecycle.state = .started →
    ∃ id hooks since, Latest course.seen id hooks since ∧ .finished id (.ok ()) ∈ since ∧
      course.coordinator.lifecycle.started = hooks.length

namespace Launched

variable {course : Course κ}

theorem new : (new : Course κ).Launched :=
  ⟨nofun, nofun⟩

/-- What lets no start pass through and leaves the count and the state alone. -/
theorem unmoved (h : course.Launched) {c : Coordinator κ} {events : List (Event κ)}
    (hevents : ∀ id hooks, .opened id hooks ∉ events)
    (hcount : c.lifecycle.started = course.coordinator.lifecycle.started)
    (hstate : c.lifecycle.state = course.coordinator.lifecycle.state)
    (hprogress : ∀ id progress, c.progress? id = some progress →
      course.coordinator.progress? id = some progress) :
    Launched ⟨course.seen ++ events, c⟩ := by
  refine ⟨fun id hook rest begun hc => ?_, fun hc => ?_⟩
  · obtain ⟨hooks, since, hlatest, hsum⟩ := h.starting id hook rest begun (hprogress _ _ hc)
    exact ⟨hooks, since ++ events, hlatest.append hevents, by rw [hcount]; exact hsum⟩
  · obtain ⟨id, hooks, since, hlatest, hfinished, hall⟩ := h.started (hstate.symm.trans hc)
    exact ⟨id, hooks, since ++ events, hlatest.append hevents, List.mem_append_left _ hfinished,
      hcount.trans hall⟩

/-- A lifecycle that is not started, and not being started either. -/
theorem of_not_started {seen : List (Event κ)} {c : Coordinator κ}
    (hstate : c.lifecycle.state ≠ .started)
    (hcurrent : ∀ hook rest begun, c.current ≠ some (.starting hook rest begun)) :
    Launched ⟨seen, c⟩ :=
  ⟨fun _ _ _ _ h => absurd (Coordinator.current_of_progress? h) (hcurrent _ _ _),
    (absurd · hstate)⟩

/-- A stretch of the start pass that was let through last. -/
theorem of_startStretch {seen since : List (Event κ)} {c : Coordinator κ} {id : PassId}
    {phase : Phase} {others : List (PassId × Phase)} {reading : Reading}
    {hooks todo : List (RegisteredHook κ)} {l : Lifecycle κ} {r : PassStep κ × Lifecycle κ}
    (hlatest : Latest seen id hooks since) (hline : c.line = (id, phase) :: others)
    (hr : Lifecycle.StartStretch reading todo l r) (hstate : l.state = .starting)
    (hcount : l.started + todo.length = hooks.length) :
    Launched ⟨seen ++ r.1.events id, (c.settle r).2⟩ := by
  have hlatest' := hlatest.append (opened_notMem_events r.1 id)
  cases hr with
  | done =>
    refine ⟨fun _ _ _ _ h => (nomatch Coordinator.current_of_progress? h), fun _ => ?_⟩
    exact ⟨id, hooks, _, hlatest', List.mem_append_right _ (List.mem_singleton_self _), hcount⟩
  | cancelled => exact of_not_started nofun nofun
  | @call passed hook rest callback htodo =>
    refine ⟨fun id' hook' rest' begun' h => ?_, (nomatch hstate.symm.trans ·)⟩
    obtain ⟨⟨_, _, hline'⟩, hcurrent⟩ := Coordinator.progress?_eq_some.1 h
    cases hline.symm.trans hline'
    cases hcurrent
    refine ⟨hooks, _, hlatest', ?_⟩
    rw [htodo, List.length_append, List.length_cons] at hcount
    show l.started + passed.length + 1 + rest.length = hooks.length
    omega

/-- After a stretch of a stop pass the lifecycle is not started. -/
theorem of_stopStretch {seen : List (Event κ)} {c : Coordinator κ} {reading : Reading}
    {hooks : List (RegisteredHook κ)} {failures : StopFailures} {l : Lifecycle κ}
    {r : PassStep κ × Lifecycle κ} (hr : Lifecycle.StopStretch reading hooks failures l r)
    (hstate : l.state = .stopping) : Launched ⟨seen, (c.settle r).2⟩ := by
  cases hr with
  | done => exact of_not_started nofun nofun
  | cancelled => exact of_not_started (fun h => nomatch hstate.symm.trans h) nofun
  | call => exact of_not_started (fun h => nomatch hstate.symm.trans h) nofun

/-- Every move keeps it so. -/
theorem next (h : course.Launched) (hc : course.coordinator.Counted)
    (hl : course.coordinator.Lined) (m : Move κ) : (course.next m).Launched := by
  have hchange := course.coordinator.change hc m
  have hother : ∀ id progress, m.pass? ≠ some id →
      (course.coordinator.apply m).progress? id = some progress →
        course.coordinator.progress? id = some progress :=
    fun id progress hm => Coordinator.progress?_of_apply hc hl hm
  unfold Course.next
  generalize course.coordinator.events m = events, course.coordinator.apply m = c' at hchange hother
  cases hchange with
  | still => exact h.unmoved nofun rfl rfl fun _ _ h => h
  | appended => exact h.unmoved nofun rfl rfl fun _ _ h => h
  | asked => exact h.unmoved nofun rfl rfl fun id progress => hother id progress nofun
  | refused =>
    exact h.unmoved (fun _ _ hmem => nomatch List.mem_singleton.1 hmem) rfl rfl
      fun _ _ hprogress => nomatch Coordinator.current_of_progress? hprogress
  | @opened id reading r hturn hstate hr =>
    obtain ⟨⟨others, hline⟩, -⟩ := Coordinator.turn?_eq_some.1 hturn
    have hlatest : Latest (course.seen ++ [.opened id course.coordinator.lifecycle.hooks]) id
        course.coordinator.lifecycle.hooks [] :=
      ⟨⟨course.seen, rfl⟩, nofun⟩
    rw [List.append_cons]
    refine .of_startStretch hlatest hline hr rfl ?_
    show course.coordinator.lifecycle.started + _ = _
    rw [hc.idle hstate, Nat.zero_add]
  | turned hturn hr => exact .of_stopStretch hr rfl
  | failed => exact .of_not_started nofun nofun
  | @started id reading hook rest begun r hprogress hr =>
    obtain ⟨⟨phase, others, hline⟩, hcurrent⟩ := Coordinator.progress?_eq_some.1 hprogress
    obtain ⟨hooks, since, hlatest, hsum⟩ := h.starting id hook rest begun hprogress
    have hended : ∀ id' hooks', Event.opened id' hooks' ∉ [Event.ended id .start hook (.ok ())] :=
      fun _ _ hmem => nomatch List.mem_singleton.1 hmem
    have hlatest' := hlatest.append hended
    rw [List.append_cons]
    exact .of_startStretch hlatest' hline hr (hc.starting _ _ _ hcurrent).1 hsum
  | stopped hprogress hr =>
    exact .of_stopStretch hr (hc.stopping _ _ _ _ (Coordinator.current_of_progress? hprogress)).1
  | left id =>
    refine h.unmoved nofun rfl rfl fun id' progress hprogress => ?_
    by_cases hid : id = id'
    · subst hid
      cases (course.coordinator.progress?_leave id).symm.trans hprogress
    · exact hother id' progress (by simpa [Move.pass?] using hid) hprogress

end Launched

/-- In every course a started lifecycle was started by the pass let through last. -/
theorem Possible.launched {course : Course κ} (h : course.Possible) : course.Launched :=
  h.induction .new fun _ m hpossible hlaunched =>
    hlaunched.next hpossible.counted hpossible.lined m

end Course

/-- A start pass is let through only at its turn and if the lifecycle can be started, and goes over
all its hooks. -/
theorem Coordinator.of_opened {c : Coordinator κ} {m : Move κ} {id : PassId}
    {hooks : List (RegisteredHook κ)} (h : .opened id hooks ∈ c.events m) :
    c.turn? id = some .start ∧ c.lifecycle.Startable ∧ hooks = c.lifecycle.hooks ∧
      ∃ reading, m = .enter id reading := by
  cases m with
  | append => cases h
  | ask => cases h
  | leave => cases h
  | enter other reading =>
    simp only [events] at h
    split at h
    · cases h
    · next hturn =>
      split at h
      · next hstate =>
        rcases List.mem_cons.1 h with hfirst | hrest
        · cases hfirst
          exact ⟨hturn, hstate, rfl, reading, rfl⟩
        · exact absurd hrest (Course.opened_notMem_events _ _ _ _)
      · exact absurd h (Course.opened_notMem_events _ _ _ _)
    · exact absurd h (Course.opened_notMem_events _ _ _ _)
  | returned other result reading =>
    simp only [events] at h
    split at h
    · cases h
    · rcases List.mem_cons.1 h with h | h
      · cases h
      · exact absurd h (Course.opened_notMem_events _ _ _ _)

/-- In every course the count is within the hooks, and zero in a lifecycle that was not started or
was stopped; between the turns of a pass it is within the hooks as well, and the state is that of
the pass. A started lifecycle counts the hooks of the start pass that was let through last, which
has succeeded. A start pass is let through only with a count of zero. And a stop pass finds every
hook that it looks for and takes no hook off a count of zero, when it begins and when it goes on. -/
theorem count_within_hooks (moves : List (Move κ)) :
    let course := Course.of moves
    let c := course.coordinator
    let l := c.lifecycle
    l.started ≤ l.hooks.length ∧
    (l.state = .notStarted ∨ l.state = .stopped → l.started = 0) ∧
    (∀ m, ∀ view ∈ c.views m, view.started ≤ view.hooks.length ∧
      (view.state = .starting ∨ view.state = .stopping)) ∧
    (l.state = .started → ∃ id hooks since, Course.Latest course.seen id hooks since ∧
      .finished id (.ok ()) ∈ since ∧ l.started = hooks.length) ∧
    (∀ m id hooks, .opened id hooks ∈ c.events m → l.started = 0 ∧ hooks = l.hooks) ∧
    (∀ id reading, c.turn? id = some .stop →
      Lifecycle.stopTurns reading l.hooks [] (l.started + 1)
        { l with state := .stopping, stopRecords := [] } = some (l.begin .stop reading)) ∧
    ∀ id hook hooks failures begun,
      c.progress? id = some (.stopping hook hooks failures begun) → ∀ result reading,
        Lifecycle.stopTurns reading hooks (Lifecycle.noteFailure failures hook result)
          (l.started + 1)
          { l with
            running := none
            stopRecords := l.stopRecords ++ [Lifecycle.recordOf hook begun reading] } =
          some (l.resume (.stopping hook hooks failures begun) result reading) := by
  have hpossible : (Course.of moves).Possible := ⟨moves, rfl⟩
  have hc := hpossible.counted
  refine ⟨hc.started, hc.idle, fun m view => hc.view, hpossible.launched.started, ?_, ?_, ?_⟩
  · intro m id hooks hopened
    obtain ⟨-, hstate, hhooks, -⟩ := Coordinator.of_opened hopened
    exact ⟨hc.idle hstate, hhooks⟩
  · intro id reading _
    exact Lifecycle.stopTurns_eq reading _ [] _ hc.started
  · intro id hook hooks failures begun hprogress result reading
    have hcurrent := Coordinator.current_of_progress? hprogress
    exact Lifecycle.stopTurns_eq reading hooks _ _ (hc.stopping _ _ _ _ hcurrent).2.1

/-- A lifecycle is started with one hook, and then another is appended. -/
def lateHook : List (Move Unit) :=
  [ .append "early" ⟨some (), some (), none⟩,
    .ask .start, .enter 0 ⟨0, none⟩, .returned 0 (.ok ()) ⟨1, none⟩,
    .append "late" ⟨some (), some (), none⟩ ]

/-- The late hook is there, and the count is that of the hooks which the start pass went over. -/
theorem lateHook_uncounted :
    let course := Course.of lateHook
    let l := course.coordinator.lifecycle
    l.state = .started ∧ l.hooks.length = 2 ∧ l.started = 1 ∧
      ∃ id hooks since, Course.Latest course.seen id hooks since ∧
        .finished id (.ok ()) ∈ since ∧ l.started = hooks.length :=
  ⟨rfl, rfl, rfl, (count_within_hooks lateHook).2.2.2.1 rfl⟩

end ServiceHost
