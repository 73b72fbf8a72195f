import ServiceHost.Proofs.Lifecycle.Cycle
import ServiceHost.Proofs.Lifecycle.Line

/-!
# Stopping mirrors starting

In every course the stop callbacks begun in a cycle are those of the hooks that count as started,
the last one first, as far as the stop passes have come, whether these passes were completed,
cancelled, given up or ended in a panic, and all of them once the lifecycle is stopped. The
invariant is `Mirrors`: the count says how many of the started hooks were not turned to yet, and the
stop callbacks begun are those of the others. A start pass counts a hook after its callback and a
stop pass takes it off the count before, so the count splits the started hooks at the right place
wherever a pass is cut off (`Mirrors.of_startStretch`, `Accounted.of_stopStretch`).
-/

namespace ServiceHost

variable {κ : Type}

/-- How a lifecycle and the pass at its gate stand to the cycle that they are in. -/
structure Mirrors (c : Coordinator κ) (cycle : Cycle κ) : Prop where
  hooks : cycle.hooks <+: c.lifecycle.hooks
  succeeded : cycle.succeeded = cycle.started.filter RegisteredHook.starts
  counted : c.lifecycle.started ≤ cycle.started.length
  /-- The stop callbacks begun are those of the started hooks that are not counted any more. -/
  stops : cycle.stopsBegun =
    ((cycle.started.drop c.lifecycle.started).filter RegisteredHook.stops).reverse
  known : c.lifecycle.state ≠ .notStarted
  /-- Before the first stop pass every started hook is counted. -/
  unturned : c.lifecycle.state ≠ .stopping → c.lifecycle.state ≠ .stopped →
    c.lifecycle.started = cycle.started.length
  full : c.lifecycle.state = .started → cycle.started = cycle.hooks
  stopped : c.lifecycle.state = .stopped → c.lifecycle.started = 0
  starting : ∀ hook rest begun, c.current = some (.starting hook rest begun) →
    c.lifecycle.state = .starting ∧ cycle.hooks = cycle.started ++ hook :: rest ∧
      hook.starts = true
  stopping : ∀ hook hooks failures begun, c.current = some (.stopping hook hooks failures begun) →
    c.lifecycle.state = .stopping ∧ cycle.started <+: hooks

/-- Before the first cycle nothing is counted and no pass waits for a callback. -/
structure Unopened (c : Coordinator κ) : Prop where
  startable : c.lifecycle.Startable
  started : c.lifecycle.started = 0
  current : c.current = none

/-- How a lifecycle stands to the cycle that it is in, if there was one. -/
def Accounted (c : Coordinator κ) : Option (Cycle κ) → Prop
  | none => Unopened c
  | some cycle => Mirrors c cycle

section
variable {c : Coordinator κ} {cycle : Cycle κ} {l : Lifecycle κ} {r : PassStep κ × Lifecycle κ}
  {reading : Reading}

/-- The stop callbacks begun come first among those owed, and are all of them once no hook is
counted. -/
theorem Mirrors.stops_prefix_owed (h : Mirrors c cycle) : cycle.stopsBegun <+: cycle.owed := by
  have howed : cycle.owed = cycle.stopsBegun ++
      ((cycle.started.take c.lifecycle.started).filter RegisteredHook.stops).reverse := by
    rw [h.stops, ← List.reverse_append, ← List.filter_append, List.take_append_drop]
    rfl
  exact ⟨_, howed.symm⟩

theorem Mirrors.stops_all (h : Mirrors c cycle) (hzero : c.lifecycle.started = 0) :
    cycle.stopsBegun = cycle.owed := by
  rw [h.stops, hzero, List.drop_zero]
  rfl

/-- During a start pass, and after it until a stop pass begins, all started hooks are counted and no
stop callback has begun. -/
theorem Mirrors.of_counted (hhooks : cycle.hooks <+: c.lifecycle.hooks)
    (hsucceeded : cycle.succeeded = cycle.started.filter RegisteredHook.starts)
    (hstops : cycle.stopsBegun = []) (hcount : c.lifecycle.started = cycle.started.length)
    (hknown : ¬ c.lifecycle.Startable) (hfull : c.lifecycle.state = .started →
      cycle.started = cycle.hooks)
    (hstarting : ∀ hook rest begun, c.current = some (.starting hook rest begun) →
      c.lifecycle.state = .starting ∧ cycle.hooks = cycle.started ++ hook :: rest ∧
        hook.starts = true)
    (hstopping : ∀ hook hooks failures begun,
      c.current ≠ some (.stopping hook hooks failures begun)) : Mirrors c cycle where
  hooks := hhooks
  succeeded := hsucceeded
  counted := Nat.le_of_eq hcount
  stops := by rw [hstops, hcount, List.drop_length]; rfl
  known h := hknown (.inl h)
  unturned _ _ := hcount
  full := hfull
  stopped h := absurd (.inr h) hknown
  starting := hstarting
  stopping _ _ _ _ h := absurd h (hstopping _ _ _ _)

/-- Hooks without a start callback leave no trace among the start callbacks. -/
theorem filter_starts_eq_nil {passed : List (RegisteredHook κ)}
    (hpassed : ∀ h ∈ passed, h.onStart = none) : passed.filter RegisteredHook.starts = [] :=
  List.filter_eq_nil_iff.2 fun h hmem => by simp [RegisteredHook.starts, hpassed h hmem]

/-- A stretch of a start pass, which has the hooks `behind` behind it, leaves every started hook
counted, wherever it ends. -/
theorem Mirrors.of_startStretch (behind : List (RegisteredHook κ)) {todo : List (RegisteredHook κ)}
    (hr : Lifecycle.StartStretch reading todo l r) (hcycle : cycle.hooks = behind ++ todo)
    (hsucceeded : cycle.succeeded = behind.filter RegisteredHook.starts)
    (hstops : cycle.stopsBegun = []) (hcount : l.started = behind.length)
    (hstate : l.state = .starting) (hhooks : cycle.hooks <+: l.hooks) :
    Mirrors (c.settle r).2 cycle := by
  have hstarted : cycle.started = behind ++ reached 0 todo := by
    rw [Cycle.started, hcycle, hsucceeded, ← List.countP_eq_length_filter]
    exact reached_append 0 behind todo
  have hfilter {passed : List (RegisteredHook κ)} (hpassed : ∀ h ∈ passed, h.onStart = none) :
      cycle.succeeded = (behind ++ passed).filter RegisteredHook.starts := by
    rw [List.filter_append, filter_starts_eq_nil hpassed, List.append_nil, hsucceeded]
  cases hr with
  | done hall =>
    have hbehind : cycle.started = behind ++ todo := by
      have := reached_zero hall []
      rw [List.append_nil] at this
      rw [hstarted, this, reached, List.append_nil]
    refine .of_counted hhooks (hbehind ▸ hfilter hall) hstops ?_ (by rintro (h | h) <;> cases h)
      (fun _ => hbehind.trans hcycle.symm) (by rintro _ _ _ ⟨⟩) (by rintro _ _ _ _ ⟨⟩)
    show l.started + todo.length = _
    rw [hbehind, List.length_append, hcount]
  | @cancelled passed hook rest callback _ htodo hpassed hstart =>
    have hbehind : cycle.started = behind ++ passed := by
      rw [hstarted, htodo, reached_zero hpassed, reached_zero_cons hstart, List.append_nil]
    refine .of_counted hhooks (hbehind ▸ hfilter hpassed) hstops ?_
      (by rintro (h | h) <;> cases h) (by rintro ⟨⟩) (by rintro _ _ _ ⟨⟩) (by rintro _ _ _ _ ⟨⟩)
    show l.started + passed.length = _
    rw [hbehind, List.length_append, hcount]
  | @call passed hook rest callback htodo hpassed hstart =>
    have hbehind : cycle.started = behind ++ passed := by
      rw [hstarted, htodo, reached_zero hpassed, reached_zero_cons hstart, List.append_nil]
    refine .of_counted hhooks (hbehind ▸ hfilter hpassed) hstops ?_ ?_ ?_ ?_
      (by rintro _ _ _ _ ⟨⟩)
    · show l.started + passed.length = _
      rw [hbehind, List.length_append, hcount]
    · rintro (h | h) <;> cases hstate.symm.trans h
    · intro h
      cases hstate.symm.trans h
    · rintro _ _ _ ⟨⟩
      refine ⟨hstate, ?_, ?_⟩
      · rw [hcycle, hbehind, htodo, List.append_assoc]
      · rw [RegisteredHook.starts, hstart]
        rfl

/-- A stretch of a start pass notes nothing in the cycle at its end. -/
theorem Cycle.noteAll_startStretch {todo : List (RegisteredHook κ)} (pass : PassId)
    (hr : Lifecycle.StartStretch reading todo l r) :
    noteAll (some cycle) (r.1.events pass) = some cycle := by
  cases hr <;> rfl

/-- The started hooks that a stop pass has before it are counted, and so it takes the last of them
that has a stop callback off the count, together with those after it. -/
theorem started_split {hooks below passed : List (RegisteredHook κ)} {hook : RegisteredHook κ}
    (hfirst : cycle.started <+: hooks) (hcounted : l.started ≤ cycle.started.length)
    (htake : hooks.take l.started = below ++ hook :: passed) :
    cycle.started = below ++ hook :: (passed ++ cycle.started.drop l.started) := by
  obtain ⟨more, rfl⟩ := hfirst
  rw [List.take_append_of_le_length hcounted] at htake
  calc cycle.started
      = cycle.started.take l.started ++ cycle.started.drop l.started :=
        (List.take_append_drop ..).symm
    _ = below ++ hook :: (passed ++ cycle.started.drop l.started) := by
        rw [htake, List.append_assoc, List.cons_append]

/-- Hooks without a stop callback leave no trace among the stop callbacks. -/
theorem filter_stops_append {passed : List (RegisteredHook κ)}
    (hpassed : ∀ h ∈ passed, h.onStop = none) (rest : List (RegisteredHook κ)) :
    (passed ++ rest).filter RegisteredHook.stops = rest.filter RegisteredHook.stops := by
  have hnone : passed.filter RegisteredHook.stops = [] :=
    List.filter_eq_nil_iff.2 fun h hmem => by simp [RegisteredHook.stops, hpassed h hmem]
  rw [List.filter_append, hnone, List.nil_append]

/-- A stretch of a stop pass begins the stop callback of the last started hook that is counted and
has one, and takes that hook off the count together with those after it. -/
theorem Accounted.of_stopStretch {hooks : List (RegisteredHook κ)} {failures : StopFailures}
    (pass : PassId) (hr : Lifecycle.StopStretch reading hooks failures l r)
    (hfirst : cycle.started <+: hooks) (hstate : l.state = .stopping)
    (hhooks : cycle.hooks <+: l.hooks)
    (hsucceeded : cycle.succeeded = cycle.started.filter RegisteredHook.starts)
    (hcounted : l.started ≤ cycle.started.length)
    (hstops : cycle.stopsBegun =
      ((cycle.started.drop l.started).filter RegisteredHook.stops).reverse) :
    Accounted (c.settle r).2 (Cycle.noteAll (some cycle) (r.1.events pass)) := by
  cases hr with
  | done hall =>
    have htake : hooks.take l.started = cycle.started.take l.started := by
      obtain ⟨more, rfl⟩ := hfirst
      exact List.take_append_of_le_length hcounted
    refine ⟨hhooks, hsucceeded, Nat.zero_le _, ?_, nofun, nofun, nofun, fun _ => rfl, nofun, nofun⟩
    show cycle.stopsBegun = ((cycle.started.drop 0).filter _).reverse
    rw [hstops, List.drop_zero, ← filter_stops_append (htake ▸ hall), List.take_append_drop]
  | @cancelled below hook passed _ _ htake hpassed =>
    have hsplit := started_split hfirst hcounted htake
    have hbusy {state : LifecycleState} (h : l.state = state) : LifecycleState.stopping = state :=
      hstate.symm.trans h
    refine ⟨hhooks, hsucceeded, ?_, ?_, (nomatch hbusy ·), fun h _ => absurd hstate h,
      (nomatch hbusy ·), (nomatch hbusy ·), nofun, nofun⟩
    · show below.length + 1 ≤ cycle.started.length
      rw [hsplit, List.length_append, List.length_cons]
      omega
    · show cycle.stopsBegun = ((cycle.started.drop (below.length + 1)).filter _).reverse
      have hdrop : cycle.started.drop (below.length + 1) =
          passed ++ cycle.started.drop l.started := by
        have := congrArg (List.drop (below.length + 1)) hsplit
        rwa [List.drop_length_add_append] at this
      rw [hdrop, filter_stops_append hpassed, hstops]
  | @call below hook passed callback htake hpassed hstop =>
    have hsplit := started_split hfirst hcounted htake
    have hbusy {state : LifecycleState} (h : l.state = state) : LifecycleState.stopping = state :=
      hstate.symm.trans h
    refine ⟨hhooks, hsucceeded, ?_, ?_, (nomatch hbusy ·), fun h _ => absurd hstate h,
      (nomatch hbusy ·), (nomatch hbusy ·), nofun, ?_⟩
    · show below.length ≤ cycle.started.length
      rw [hsplit, List.length_append]
      omega
    · show cycle.stopsBegun ++ [hook] = ((cycle.started.drop below.length).filter _).reverse
      have hdrop : cycle.started.drop below.length =
          hook :: (passed ++ cycle.started.drop l.started) := by
        have := congrArg (List.drop below.length) hsplit
        rwa [List.drop_left] at this
      rw [hdrop, List.filter_cons_of_pos (by simp [RegisteredHook.stops, hstop]),
        List.reverse_cons, filter_stops_append hpassed, hstops]
    · rintro _ _ _ _ ⟨⟩
      exact ⟨hstate, hfirst⟩

end

/-! ## Every move keeps the account -/

/-- A new lifecycle is in no cycle. -/
theorem Unopened.empty : Unopened (Coordinator.empty : Coordinator κ) :=
  ⟨.inl rfl, rfl, rfl⟩

/-- A start pass that is let through begins a cycle of its own, over all hooks there are. -/
theorem Accounted.of_opened {c : Coordinator κ} {reading : Reading} {r : PassStep κ × Lifecycle κ}
    (cycle? : Option (Cycle κ)) (pass : PassId) (hzero : c.lifecycle.started = 0)
    (hr : Lifecycle.StartStretch reading c.lifecycle.hooks
      { c.lifecycle with state := .starting, startRecords := [] } r) :
    Accounted (c.settle r).2
      (Cycle.noteAll cycle? (.opened pass c.lifecycle.hooks :: r.1.events pass)) := by
  let cycle : Cycle κ := ⟨c.lifecycle.hooks, [], [], []⟩
  have hnote : Cycle.noteAll cycle? (.opened pass c.lifecycle.hooks :: r.1.events pass) =
      some cycle := Cycle.noteAll_startStretch pass hr
  rw [hnote]
  exact .of_startStretch [] hr rfl rfl rfl hzero rfl (List.prefix_refl _)

/-- In a lifecycle that was never started a stop pass finds nothing to stop. -/
theorem Unopened.apply {c : Coordinator κ} (h : Unopened c) (hc : c.Counted) (m : Move κ) :
    Accounted (c.apply m) (Cycle.noteAll none (c.events m)) := by
  have hwaiting {id : PassId} {progress : Progress κ} : c.progress? id ≠ some progress :=
    fun hprogress => nomatch h.current.symm.trans (Coordinator.current_of_progress? hprogress)
  have hchange := c.change hc m
  generalize c.events m = events, c.apply m = c' at hchange
  cases hchange with
  | still => exact h
  | appended => exact ⟨h.startable, h.started, h.current⟩
  | asked => exact ⟨h.startable, h.started, h.current⟩
  | refused _ hstate => exact absurd h.startable hstate
  | opened _ _ hr => exact .of_opened none _ h.started hr
  | turned _ hr =>
    have hnone {below passed : List (RegisteredHook κ)} {hook : RegisteredHook κ} :
        c.lifecycle.hooks.take c.lifecycle.started ≠ below ++ hook :: passed := by
      rw [h.started, List.take_zero]
      simp
    cases hr with
    | done => exact ⟨.inr rfl, rfl, rfl⟩
    | cancelled hcounted => exact absurd hcounted hnone
    | call hcounted => exact absurd hcounted hnone
  | failed hprogress => exact absurd hprogress hwaiting
  | started hprogress => exact absurd hprogress hwaiting
  | stopped hprogress => exact absurd hprogress hwaiting
  | left id =>
    refine ⟨h.startable, h.started, ?_⟩
    rcases c.leave_current id with hcurrent | hcurrent
    · exact hcurrent
    · exact hcurrent.trans h.current

/-- A move keeps a lifecycle in step with its cycle, or begins a new one. -/
theorem Mirrors.apply {c : Coordinator κ} {cycle : Cycle κ} (h : Mirrors c cycle) (hc : c.Counted)
    (m : Move κ) : Accounted (c.apply m) (Cycle.noteAll (some cycle) (c.events m)) := by
  have hchange := c.change hc m
  generalize c.events m = events, c.apply m = c' at hchange
  cases hchange with
  | still => exact h
  | appended registered =>
    exact { h with hooks := h.hooks.trans (List.prefix_append ..) }
  | asked => exact { h with }
  | refused => exact { h with starting := nofun, stopping := nofun }
  | opened _ hstate hr => exact .of_opened _ _ (hc.idle hstate) hr
  | @turned id reading r hturn hr =>
    have hfirst : cycle.started <+: c.lifecycle.hooks :=
      (reached_prefix_hooks _ _).trans h.hooks
    exact .of_stopStretch id hr hfirst rfl h.hooks h.succeeded h.counted h.stops
  | failed hprogress =>
    have ⟨hstate, hhooks, _⟩ := h.starting _ _ _ (Coordinator.current_of_progress? hprogress)
    have hcount := h.unturned (hstate ▸ nofun) (hstate ▸ nofun)
    refine .of_counted h.hooks h.succeeded ?_ hcount (by rintro (h | h) <;> cases h) nofun nofun
      nofun
    rw [h.stops, hcount, List.drop_length]
    rfl
  | @started id reading hook rest begun r hprogress hr =>
    have ⟨hstate, hhooks, hstarts⟩ := h.starting _ _ _ (Coordinator.current_of_progress? hprogress)
    have hcount := h.unturned (hstate ▸ nofun) (hstate ▸ nofun)
    let ahead : Cycle κ := { cycle with succeeded := cycle.succeeded ++ [hook] }
    have hnote : Cycle.noteAll (some cycle) (.ended id .start hook (.ok ()) :: r.1.events id) =
        some ahead := Cycle.noteAll_startStretch id hr
    rw [hnote]
    refine .of_startStretch (cycle.started ++ [hook]) hr ?_ ?_ ?_ ?_ hstate h.hooks
    · rw [List.append_assoc]
      exact hhooks
    · show cycle.succeeded ++ [hook] = _
      rw [List.filter_append, ← h.succeeded, List.filter_cons_of_pos hstarts]
      rfl
    · show cycle.stopsBegun = []
      rw [h.stops, hcount, List.drop_length]
      rfl
    · show c.lifecycle.started + 1 = _
      rw [hcount, List.length_append]
      rfl
  | @stopped id result reading hook hooks failures begun r hprogress hr =>
    have ⟨hstate, hfirst⟩ := h.stopping _ _ _ _ (Coordinator.current_of_progress? hprogress)
    let ahead : Cycle κ := { cycle with stopsEnded := cycle.stopsEnded ++ [(hook, result)] }
    have hnote : Cycle.noteAll (some cycle) (.ended id .stop hook result :: r.1.events id) =
        Cycle.noteAll (some ahead) (r.1.events id) := by
      cases result <;> rfl
    rw [hnote]
    exact .of_stopStretch id hr hfirst hstate h.hooks h.succeeded h.counted h.stops
  | left id =>
    rcases c.leave_current id with hcurrent | hcurrent
    · exact { h with starting := hcurrent ▸ nofun, stopping := hcurrent ▸ nofun }
    · exact { h with starting := hcurrent ▸ h.starting, stopping := hcurrent ▸ h.stopping }

/-- What holds of an account holds after every move. -/
theorem Accounted.apply {c : Coordinator κ} {cycle? : Option (Cycle κ)} (h : Accounted c cycle?)
    (hc : c.Counted) (m : Move κ) : Accounted (c.apply m) (Cycle.noteAll cycle? (c.events m)) :=
  match cycle?, h with
  | none, h => Unopened.apply h hc m
  | some _, h => Mirrors.apply h hc m

/-- Every course leaves its lifecycle in step with the cycle that it is in. -/
theorem Course.Possible.accounted {course : Course κ} (h : course.Possible) :
    Accounted course.coordinator course.cycle? := by
  obtain ⟨moves, rfl⟩ := h
  let P (course : Course κ) : Prop :=
    course.coordinator.Counted ∧ Accounted course.coordinator course.cycle?
  have hnew : P .new := ⟨.empty, Unopened.empty⟩
  have hnext (course : Course κ) (m : Move κ) (h : P course) : P (course.next m) := by
    refine ⟨h.1.apply m, ?_⟩
    rw [Course.cycle?_next]
    exact h.2.apply h.1 m
  exact (run_induction hnew hnext moves).2

/-- In every course, whatever passes came in whatever order and however they ended, the hooks that
count as started in its cycle come first among those the start pass went over, their start callbacks
are those that succeeded, and the stop callbacks begun come first among those owed, which are their
stop callbacks from the last hook back, and are all of them once the lifecycle is stopped. So each
stop callback that began has a started hook of its own. -/
theorem Course.stops_mirror_starts (moves : List (Move κ)) (cycle : Cycle κ)
    (hcycle : (Course.of moves).cycle? = some cycle) :
    cycle.started <+: cycle.hooks ∧
      cycle.succeeded = cycle.started.filter RegisteredHook.starts ∧
      cycle.stopsBegun <+: cycle.owed ∧
      ((Course.of moves).coordinator.lifecycle.state = .stopped →
        cycle.stopsBegun = cycle.owed) ∧
      cycle.stopsBegun.Sublist cycle.started.reverse := by
  have h : Mirrors (Course.of moves).coordinator cycle := by
    have := Possible.accounted ⟨moves, rfl⟩
    rwa [hcycle] at this
  refine ⟨reached_prefix_hooks _ _, h.succeeded, h.stops_prefix_owed, ?_, ?_⟩
  · intro hstopped
    exact h.stops_all (h.stopped hstopped)
  · have howed : cycle.owed.Sublist cycle.started.reverse := List.filter_sublist.reverse
    exact h.stops_prefix_owed.sublist.trans howed

/-- A course in which the second of three hooks has no start callback, the first stop pass is given
up in the middle of the last hook, the next one finds its context done, and the third one goes
through. -/
def retriedStop : List (Move Nat) :=
  [.append "a" ⟨some 0, some 1, none⟩, .append "b" ⟨none, some 2, none⟩,
    .append "c" ⟨some 3, some 4, none⟩,
    .ask .start, .enter 0 ⟨0, none⟩, .returned 0 (.ok ()) ⟨1, none⟩, .returned 0 (.ok ()) ⟨2, none⟩,
    .ask .stop, .enter 1 ⟨3, none⟩, .leave 1,
    .ask .stop, .enter 2 ⟨4, some .canceled⟩,
    .ask .stop, .enter 3 ⟨5, none⟩, .returned 3 (.ok ()) ⟨6, none⟩, .returned 3 (.ok ()) ⟨7, none⟩]

/-- The three stop callbacks begin once each, over three stop passes. -/
theorem retriedStop_mirrors :
    ∃ cycle, (Course.of retriedStop).cycle? = some cycle ∧
      (Course.of retriedStop).coordinator.lifecycle.state = .stopped ∧
      cycle.stopsBegun.map RegisteredHook.caller = ["c", "b", "a"] ∧
      cycle.stopsBegun = cycle.owed :=
  ⟨_, rfl, rfl, rfl, (Course.stops_mirror_starts retriedStop _ rfl).2.2.2.1 rfl⟩

end ServiceHost
