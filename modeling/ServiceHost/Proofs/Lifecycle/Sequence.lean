import ServiceHost.Proofs.Lifecycle.Gate
import ServiceHost.Proofs.Lifecycle.Status
import ServiceHost.Proofs.Lifecycle.Symmetry

/-!
# The sequence of callbacks

Since the start pass that was let through last, callbacks began in the order of its hooks: start
callbacks forward, each after those before it had succeeded, and stop callbacks backward. This is
what `Course.Follows` says of the events seen since; the cycle that they make up
(`Course.stops_mirror_starts`) says which of them succeeded. Once the start pass has succeeded, all
start callbacks began, and once the lifecycle is stopped then, so did all stop callbacks
(`Course.Possible.sequence`).
-/

namespace ServiceHost

variable {κ : Type}

/-- The hook whose callback of that phase begins. -/
def Event.began? (phase : Phase) : Event κ → Option (RegisteredHook κ)
  | .began _ begun hook => if begun = phase then some hook else none
  | .opened .. => none
  | .ended .. => none
  | .finished .. => none

/-- The hooks whose callbacks of that phase began, in this order. -/
def begunOf (phase : Phase) (events : List (Event κ)) : List (RegisteredHook κ) :=
  events.filterMap (Event.began? phase)

@[simp] theorem begunOf_append (phase : Phase) (events more : List (Event κ)) :
    begunOf phase (events ++ more) = begunOf phase events ++ begunOf phase more :=
  List.filterMap_append

/-- What begins no callback of that phase. -/
theorem begunOf_append_of_none {phase : Phase} {events more : List (Event κ)}
    (h : begunOf phase more = []) : begunOf phase (events ++ more) = begunOf phase events := by
  rw [begunOf_append, h, List.append_nil]

/-- The cycle that a course is in goes on with what is seen next. -/
theorem Course.cycle?_append {course : Course κ} {cycle : Cycle κ} (h : course.cycle? = some cycle)
    (events : List (Event κ)) (c : Coordinator κ) :
    Course.cycle? ⟨course.seen ++ events, c⟩ = Cycle.noteAll (some cycle) events := by
  rw [cycle?, Cycle.ofEvents, Cycle.noteAll_append]
  exact congrArg (Cycle.noteAll · events) h

namespace Course

/-- The start pass that was let through last is one that was let through. -/
theorem Latest.mem {seen since : List (Event κ)} {id : PassId} {hooks : List (RegisteredHook κ)}
    (h : Latest seen id hooks since) : .opened id hooks ∈ seen := by
  obtain ⟨⟨before, rfl⟩, -⟩ := h
  exact List.mem_append_right _ List.mem_cons_self

/-- A pass that was let through as a start pass stands in the line as one. -/
theorem Possible.start_of_opened {course : Course κ} (h : course.Possible) {id : PassId}
    {hooks : List (RegisteredHook κ)} (hopened : .opened id hooks ∈ course.seen) {phase : Phase}
    (hline : (id, phase) ∈ course.coordinator.line) : phase = .start := by
  refine h.induction (P := fun course => .opened id hooks ∈ course.seen →
    (id, phase) ∈ course.coordinator.line → phase = .start) nofun ?_ hopened hline
  intro course m hpossible ih hopened hline
  -- a pass of which something was seen has asked
  have hbefore (hasked : id < course.coordinator.asked) :
      (id, phase) ∈ course.coordinator.line := by
    rcases Coordinator.mem_line_apply hpossible.counted hline with hmem | ⟨asked, -, hlast⟩
    · exact hmem
    · cases hlast
      exact absurd hasked (Nat.lt_irrefl _)
  rcases List.mem_append.1 hopened with hseen | hnow
  · exact ih hseen (hbefore (hpossible.quiet.asked _ hseen))
  · obtain ⟨hturn, -, -⟩ := Coordinator.of_opened hnow
    obtain ⟨⟨rest, hfirst⟩, -⟩ := Coordinator.turn?_eq_some.1 hturn
    have hmem := hbefore (hpossible.lined.known (id, .start) (hfirst ▸ List.mem_cons_self))
    have hnodup := hpossible.quiet.nodup
    rw [hfirst] at hmem
    rw [hfirst, List.map_cons, List.nodup_cons] at hnodup
    rcases List.mem_cons.1 hmem with hsame | hrest
    · cases hsame
      rfl
    · exact absurd (List.mem_map_of_mem hrest) hnodup.1

/-- How the callbacks that began since a start pass was let through stand to the cycle that it
began. -/
structure Follows (course : Course κ) (id : PassId) (since : List (Event κ)) (cycle : Cycle κ) :
    Prop where
  latest : Latest course.seen id cycle.hooks since
  noted : course.cycle? = some cycle
  starts : begunOf .start since <+: cycle.hooks.filter RegisteredHook.starts
  succeeded : cycle.succeeded <+: begunOf .start since
  starting : ∀ hook rest begun,
    course.coordinator.current = some (.starting hook rest begun) →
      begunOf .start since = cycle.succeeded ++ [hook]
  stops : cycle.stopsBegun = begunOf .stop since
  /-- A start pass that has succeeded has come past all its hooks. -/
  done : .finished id (.ok ()) ∈ since → cycle.started = cycle.hooks

namespace Follows

variable {course : Course κ} {seen since : List (Event κ)} {c : Coordinator κ} {id pass : PassId}
  {cycle cycle' : Cycle κ} {reading : Reading} {l : Lifecycle κ} {r : PassStep κ × Lifecycle κ}

/-- What is seen of a move by which no callback begins and no start pass is let through. -/
theorem uneventful (h : course.Follows id since cycle) {events : List (Event κ)}
    (hopened : ∀ id' hooks, .opened id' hooks ∉ events)
    (hbegan : ∀ phase, begunOf phase events = [])
    (hnoted : Cycle.noteAll (some cycle) events = some cycle')
    (hcycle : cycle'.hooks = cycle.hooks ∧ cycle'.succeeded = cycle.succeeded ∧
      cycle'.stopsBegun = cycle.stopsBegun)
    (hdone : .finished id (.ok ()) ∈ events → cycle.started = cycle.hooks)
    (hcurrent : ∀ progress, c.current = some progress →
      course.coordinator.current = some progress) :
    Follows ⟨course.seen ++ events, c⟩ id (since ++ events) cycle' := by
  obtain ⟨hhooks, hsucceeded, hstops⟩ := hcycle
  have hsame (phase : Phase) : begunOf phase (since ++ events) = begunOf phase since :=
    begunOf_append_of_none (hbegan phase)
  refine ⟨?_, (cycle?_append h.noted events c).trans hnoted, ?_, ?_, ?_, ?_, ?_⟩
  · rw [hhooks]
    exact h.latest.append hopened
  · rw [hsame, hhooks]
    exact h.starts
  · rw [hsame, hsucceeded]
    exact h.succeeded
  · intro hook rest begun hstarting
    rw [hsame, hsucceeded]
    exact h.starting hook rest begun (hcurrent _ hstarting)
  · rw [hsame, hstops]
    exact h.stops
  · intro hfinished
    have hstarted : cycle'.started = cycle.started := by
      rw [Cycle.started, hsucceeded, hhooks]
      rfl
    rw [hstarted, hhooks]
    exact (List.mem_append.1 hfinished).elim h.done hdone

/-- A move of which nothing is seen. -/
theorem unseen (h : course.Follows id since cycle)
    (hcurrent : ∀ progress, c.current = some progress →
      course.coordinator.current = some progress) :
    Follows ⟨course.seen ++ [], c⟩ id (since ++ []) cycle :=
  h.uneventful nofun (fun _ => rfl) rfl ⟨rfl, rfl, rfl⟩ nofun hcurrent

/-- A pass other than the start pass, or one that has failed, comes to its end. -/
theorem finish (h : course.Follows id since cycle) {result : Except LifecycleError Unit}
    (hdone : pass = id → result = .ok () → cycle.started = cycle.hooks) :
    Follows ⟨course.seen ++ [.finished pass result], (c.settle (.finish result, l)).2⟩ id
      (since ++ [.finished pass result]) cycle := by
  refine h.uneventful (fun _ _ hmem => nomatch List.mem_singleton.1 hmem) (fun _ => rfl) rfl
    ⟨rfl, rfl, rfl⟩ (fun hmem => ?_) nofun
  cases List.mem_singleton.1 hmem
  exact hdone rfl rfl

/-- The start callback that began last has succeeded. -/
theorem endStart (h : course.Follows id since cycle) (pass : PassId) {hook : RegisteredHook κ}
    {rest : List (RegisteredHook κ)} {begun : Nat}
    (hhooks : cycle.hooks = cycle.started ++ hook :: rest)
    (hcurrent : course.coordinator.current = some (.starting hook rest begun)) :
    Follows ⟨course.seen ++ [.ended pass .start hook (.ok ())],
      { course.coordinator with current := none }⟩ id
      (since ++ [.ended pass .start hook (.ok ())])
      { cycle with succeeded := cycle.succeeded ++ [hook] } := by
  have hsame (phase : Phase) :
      begunOf phase (since ++ [.ended pass .start hook (.ok ())]) = begunOf phase since :=
    begunOf_append_of_none rfl
  refine ⟨h.latest.append fun _ _ hmem => (nomatch List.mem_singleton.1 hmem),
    cycle?_append h.noted _ _, ?_, ?_, nofun, ?_, ?_⟩
  · exact hsame .start ▸ h.starts
  · exact (hsame .start).trans (h.starting _ _ _ hcurrent) ▸ List.prefix_refl _
  · exact hsame .stop ▸ h.stops
  · -- the start pass is still at the hook
    intro hfinished
    rcases List.mem_append.1 hfinished with hbefore | hnow
    · rw [h.done hbefore] at hhooks
      exact absurd (List.self_eq_append_right.1 hhooks) (List.cons_ne_nil _ _)
    · cases List.mem_singleton.1 hnow

/-- A stretch of a start pass that has the hooks `behind` behind it, all of whose callbacks so far
have succeeded. -/
theorem startStretch (h : course.Follows id since cycle) (behind : List (RegisteredHook κ))
    {todo : List (RegisteredHook κ)} (hstarts : begunOf .start since = cycle.succeeded)
    (hhooks : cycle.hooks = behind ++ todo)
    (hsucceeded : cycle.succeeded = behind.filter RegisteredHook.starts)
    (hr : Lifecycle.StartStretch reading todo l r) (hmirrors : Mirrors (c.settle r).2 cycle) :
    Follows ⟨course.seen ++ r.1.events pass, (c.settle r).2⟩ id (since ++ r.1.events pass)
      cycle := by
  cases hr with
  | done => exact h.finish fun _ _ => hmirrors.full rfl
  | cancelled => exact h.finish fun _ herror => nomatch herror
  | @call passed hook rest callback htodo hpassed hstart =>
    have hbegun :
        begunOf .start (since ++ [.began pass .start hook]) = cycle.succeeded ++ [hook] := by
      rw [begunOf_append, hstarts]
      rfl
    have hstop : begunOf .stop (since ++ [.began pass .start hook]) = begunOf .stop since :=
      begunOf_append_of_none rfl
    refine ⟨h.latest.append (opened_notMem_events _ _), cycle?_append h.noted _ _, ?_, ?_, ?_, ?_,
      ?_⟩
    · have hstarts' : hook.starts = true := by rw [RegisteredHook.starts, hstart]; rfl
      refine hbegun ▸ ⟨rest.filter RegisteredHook.starts, ?_⟩
      rw [hsucceeded, hhooks, htodo, List.filter_append, List.filter_append,
        filter_starts_eq_nil hpassed, List.nil_append, List.filter_cons_of_pos hstarts',
        List.append_assoc, List.singleton_append]
    · exact hbegun ▸ List.prefix_append _ _
    · rintro _ _ _ ⟨⟩
      exact hbegun
    · exact h.stops.trans hstop.symm
    · intro hfinished
      rcases List.mem_append.1 hfinished with hbefore | hnow
      · exact h.done hbefore
      · cases List.mem_singleton.1 hnow

/-- A stretch of a stop pass. -/
theorem stopStretch (h : course.Follows id since cycle) {hooks : List (RegisteredHook κ)}
    {failures : StopFailures} (hr : Lifecycle.StopStretch reading hooks failures l r)
    (hother : pass ≠ id) :
    ∃ cycle', Follows ⟨course.seen ++ r.1.events pass, (c.settle r).2⟩ id
      (since ++ r.1.events pass) cycle' := by
  cases hr with
  | done => exact ⟨cycle, h.finish fun hsame => absurd hsame hother⟩
  | cancelled => exact ⟨cycle, h.finish fun hsame => absurd hsame hother⟩
  | @call below hook passed callback =>
    have hstart : begunOf .start (since ++ [.began pass .stop hook]) = begunOf .start since :=
      begunOf_append_of_none rfl
    have hstop : begunOf .stop (since ++ [.began pass .stop hook]) =
        begunOf .stop since ++ [hook] := by
      rw [begunOf_append]
      rfl
    refine ⟨{ cycle with stopsBegun := cycle.stopsBegun ++ [hook] },
      h.latest.append (opened_notMem_events _ _), cycle?_append h.noted _ _, ?_, ?_, nofun, ?_, ?_⟩
    · exact hstart ▸ h.starts
    · exact hstart ▸ h.succeeded
    · exact hstop ▸ congrArg (· ++ [hook]) h.stops
    · intro hfinished
      rcases List.mem_append.1 hfinished with hbefore | hnow
      · exact h.done hbefore
      · cases List.mem_singleton.1 hnow

/-- A start pass is let through. -/
theorem opened (seen : List (Event κ)) (pass : PassId) (hzero : c.lifecycle.started = 0)
    (hr : Lifecycle.StartStretch reading c.lifecycle.hooks
      { c.lifecycle with state := .starting, startRecords := [] } r) :
    Follows ⟨seen ++ .opened pass c.lifecycle.hooks :: r.1.events pass, (c.settle r).2⟩ pass
      (r.1.events pass) ⟨c.lifecycle.hooks, [], [], []⟩ := by
  have hmirrors := Accounted.of_opened none pass hzero hr
  rw [show Cycle.noteAll none (.opened pass _ :: r.1.events pass) = _ from
    Cycle.noteAll_startStretch pass hr] at hmirrors
  have hnew : Follows ⟨seen ++ [.opened pass c.lifecycle.hooks], { c with current := none }⟩ pass []
      ⟨c.lifecycle.hooks, [], [], []⟩ := by
    refine ⟨⟨⟨seen, rfl⟩, nofun⟩, ?_, List.nil_prefix, List.nil_prefix, nofun, rfl, nofun⟩
    rw [cycle?, Cycle.ofEvents, Cycle.noteAll_append]
    rfl
  rw [List.append_cons]
  exact hnew.startStretch [] rfl rfl rfl hr hmirrors

/-- The cycle is accounted for by the lifecycle. -/
theorem mirrors (h : course.Follows id since cycle) (hpossible : course.Possible) :
    Mirrors course.coordinator cycle := by
  have := hpossible.accounted
  rwa [h.noted] at this

/-- Every move keeps it so, or lets another start pass through. -/
theorem next (h : course.Follows id since cycle) (hpossible : course.Possible) (m : Move κ) :
    ∃ id' since' cycle', (course.next m).Follows id' since' cycle' := by
  have hc := hpossible.counted
  have hmirrors := h.mirrors hpossible
  -- no stop pass is the start pass
  have hother {pass : PassId} (hline : (pass, .stop) ∈ course.coordinator.line) : pass ≠ id := by
    rintro rfl
    cases hpossible.start_of_opened h.latest.mem hline
  have hafter := (hpossible.next m).accounted
  rw [cycle?_next, h.noted] at hafter
  have hchange := course.coordinator.change hc m
  unfold Course.next at hafter ⊢
  generalize course.coordinator.events m = events, course.coordinator.apply m = c' at hchange hafter
  cases hchange with
  | still => exact ⟨id, _, cycle, h.unseen fun _ h => h⟩
  | appended => exact ⟨id, _, cycle, h.unseen fun _ h => h⟩
  | asked => exact ⟨id, _, cycle, h.unseen fun _ h => h⟩
  | refused => exact ⟨id, _, cycle, h.finish fun _ herror => nomatch herror⟩
  | @opened pass reading r hturn hstate hr =>
    exact ⟨pass, _, _, opened course.seen pass (hc.idle hstate) hr⟩
  | turned hturn hr =>
    obtain ⟨⟨rest, hline⟩, -⟩ := Coordinator.turn?_eq_some.1 hturn
    exact ⟨id, _, h.stopStretch hr (hother (hline ▸ List.mem_cons_self))⟩
  | @failed pass source reading hook rest begun hprogress =>
    refine ⟨id, _, cycle, h.uneventful ?_ (fun _ => rfl) rfl ⟨rfl, rfl, rfl⟩ ?_ nofun⟩
    · simp
    · simp
  | @started pass reading hook rest begun r hprogress hr =>
    have hcurrent := Coordinator.current_of_progress? hprogress
    have ⟨_, hhooks, hstarts⟩ := hmirrors.starting _ _ _ hcurrent
    have hended := h.endStart pass hhooks hcurrent
    rw [show Cycle.noteAll (some cycle) (.ended pass .start hook (.ok ()) :: r.1.events pass) = _
      from Cycle.noteAll_startStretch pass hr] at hafter
    refine ⟨id, since ++ .ended pass .start hook (.ok ()) :: r.1.events pass,
      { cycle with succeeded := cycle.succeeded ++ [hook] }, ?_⟩
    rw [List.append_cons, List.append_cons since]
    refine hended.startStretch (cycle.started ++ [hook]) ?_ ?_ ?_ hr hafter
    · exact (begunOf_append_of_none rfl).trans (h.starting _ _ _ hcurrent)
    · rw [List.append_assoc]
      exact hhooks
    · show cycle.succeeded ++ [hook] = _
      rw [List.filter_append, ← hmirrors.succeeded, List.filter_cons_of_pos hstarts]
      rfl
  | @stopped pass result reading hook hooks failures begun r hprogress hr =>
    have hended : Follows ⟨course.seen ++ [.ended pass .stop hook result], course.coordinator⟩ id
        (since ++ [.ended pass .stop hook result])
        { cycle with stopsEnded := cycle.stopsEnded ++ [(hook, result)] } := by
      refine h.uneventful ?_ (fun _ => rfl) ?_ ⟨rfl, rfl, rfl⟩ ?_ fun _ h => h
      · exact fun _ _ hmem => nomatch List.mem_singleton.1 hmem
      · cases result <;> rfl
      · exact fun hmem => nomatch List.mem_singleton.1 hmem
    obtain ⟨cycle', hstretch⟩ := hended.stopStretch (c := course.coordinator) hr
      (hother (hpossible.lined.mem_line hprogress))
    refine ⟨id, since ++ .ended pass .stop hook result :: r.1.events pass, cycle', ?_⟩
    rw [List.append_cons, List.append_cons since]
    exact hstretch
  | left left =>
    refine ⟨id, _, cycle, h.unseen fun progress hcurrent => ?_⟩
    rcases course.coordinator.leave_current left with hnone | hsame
    · cases hnone.symm.trans hcurrent
    · exact hsame ▸ hcurrent

end Follows

/-- In every course in which a start pass was let through, the callbacks follow the cycle that it
began. -/
theorem Possible.follows {course : Course κ} (h : course.Possible) :
    (∀ id hooks, .opened id hooks ∉ course.seen) ∨
      ∃ id since cycle, course.Follows id since cycle := by
  refine h.induction (P := fun course => (∀ id hooks, .opened id hooks ∉ course.seen) ∨
    ∃ id since cycle, course.Follows id since cycle) (.inl nofun) ?_
  rintro course m hpossible (hnone | ⟨id, since, cycle, hfollows⟩)
  · by_cases hopened : ∃ id hooks, .opened id hooks ∈ course.coordinator.events m
    · obtain ⟨id, hooks, hopened⟩ := hopened
      obtain ⟨hturn, hstate, -, reading, rfl⟩ := Coordinator.of_opened hopened
      have hr := Lifecycle.beginStart_stretch reading hstate
      refine .inr ⟨id, (course.coordinator.lifecycle.beginStart reading).1.events id,
        ⟨course.coordinator.lifecycle.hooks, [], [], []⟩, ?_⟩
      rw [Course.next, Coordinator.apply_enter reading hturn,
        Coordinator.events_enter reading hturn, if_pos ⟨rfl, hstate⟩]
      exact .opened course.seen id (hpossible.counted.idle hstate) hr
    · refine .inl fun id hooks hmem => ?_
      rcases List.mem_append.1 hmem with hbefore | hnow
      · exact hnone id hooks hbefore
      · exact hopened ⟨id, hooks, hnow⟩
  · exact .inr (hfollows.next hpossible m)

/-- There is one start pass that was let through last. -/
theorem Latest.unique {seen since since' : List (Event κ)} {id id' : PassId}
    {hooks hooks' : List (RegisteredHook κ)} (h : Latest seen id hooks since)
    (h' : Latest seen id' hooks' since') : id = id' ∧ hooks = hooks' ∧ since = since' := by
  obtain ⟨⟨before, rfl⟩, hsince⟩ := h
  obtain ⟨⟨before', hseen⟩, hsince'⟩ := h'
  rcases List.append_eq_append_iff.1 hseen with ⟨more, -, hrest⟩ | ⟨more, -, hrest⟩
  · rcases List.cons_eq_append_iff.1 hrest with ⟨-, hsame⟩ | ⟨more', -, hsame⟩
    · cases hsame
      exact ⟨rfl, rfl, rfl⟩
    · exact absurd (hsame ▸ List.mem_append_right _ List.mem_cons_self) (hsince id' hooks')
  · rcases List.cons_eq_append_iff.1 hrest with ⟨-, hsame⟩ | ⟨more', -, hsame⟩
    · cases hsame
      exact ⟨rfl, rfl, rfl⟩
    · exact absurd (hsame ▸ List.mem_append_right _ List.mem_cons_self) (hsince' id hooks)

/-- Since the start pass that was let through last, start callbacks began in the order of its hooks
and stop callbacks in the reverse order. Once the pass has succeeded, all start callbacks began, and
once the lifecycle is stopped then, all stop callbacks did. -/
theorem Possible.sequence {course : Course κ} (h : course.Possible) {id : PassId}
    {hooks : List (RegisteredHook κ)} {since : List (Event κ)}
    (hlatest : Latest course.seen id hooks since) :
    begunOf .start since <+: hooks.filter RegisteredHook.starts ∧
      (begunOf .stop since).Sublist (hooks.filter RegisteredHook.stops).reverse ∧
      (.finished id (.ok ()) ∈ since →
        begunOf .start since = hooks.filter RegisteredHook.starts ∧
          (course.coordinator.lifecycle.state = .stopped →
            begunOf .stop since = (hooks.filter RegisteredHook.stops).reverse)) := by
  obtain ⟨id', since', cycle, hfollows⟩ :=
    h.follows.resolve_left fun hnone => hnone id hooks hlatest.mem
  obtain ⟨rfl, rfl, rfl⟩ := hlatest.unique hfollows.latest
  have hmirrors := hfollows.mirrors h
  have howed : cycle.owed.Sublist (cycle.hooks.filter RegisteredHook.stops).reverse :=
    ((reached_prefix_hooks _ _).sublist.filter _).reverse
  refine ⟨hfollows.starts, ?_, fun hfinished => ⟨?_, fun hstopped => ?_⟩⟩
  · rw [← hfollows.stops]
    exact hmirrors.stops_prefix_owed.sublist.trans howed
  · -- all start callbacks have succeeded, and so began
    have hall : cycle.succeeded = cycle.hooks.filter RegisteredHook.starts := by
      rw [hmirrors.succeeded, hfollows.done hfinished]
    have hle := hfollows.succeeded.length_le
    rw [hall] at hle
    exact hfollows.starts.eq_of_length_le hle
  · rw [← hfollows.stops, hmirrors.stops_all (hmirrors.stopped hstopped), Cycle.owed,
      hfollows.done hfinished]

/-- A start pass that is let through from some point on goes over the hooks appended before that
point, and after those over later ones. -/
theorem hooks_prefix_of_opened (moves more : List (Move κ)) {id : PassId}
    {hooks : List (RegisteredHook κ)} (hopened : .opened id hooks ∈ (of (moves ++ more)).seen)
    (hlater : .opened id hooks ∉ (of moves).seen) :
    (of moves).coordinator.lifecycle.hooks <+: hooks := by
  induction more using List.reverseRecOn with
  | nil =>
    rw [List.append_nil] at hopened
    exact absurd hopened hlater
  | append_singleton more m ih =>
    rw [← List.append_assoc, of_concat] at hopened
    rcases List.mem_append.1 hopened with hbefore | hnow
    · exact ih hbefore
    · obtain ⟨-, -, rfl, -⟩ := Coordinator.of_opened hnow
      rw [hooks_of, hooks_of, List.filterMap_append]
      exact List.prefix_append _ _

/-- Two hooks that were appended one after the other before a start pass is let through. If the
pass succeeds, the start callback of the first begins before that of the second, and when the
lifecycle is stopped then, the stop callback of the second has begun before that of the first. -/
theorem in_order (moves more : List (Move κ)) {id : PassId} {hooks : List (RegisteredHook κ)}
    {since : List (Event κ)} {first second : RegisteredHook κ}
    (hbefore : [first, second].Sublist (of moves).coordinator.lifecycle.hooks)
    (hstarts : ∀ hook ∈ [first, second], hook.starts = true)
    (hstops : ∀ hook ∈ [first, second], hook.stops = true)
    (hlater : .opened id hooks ∉ (of moves).seen)
    (hlatest : Latest (of (moves ++ more)).seen id hooks since)
    (hfinished : .finished id (.ok ()) ∈ since) :
    [first, second].Sublist (begunOf .start since) ∧
      ((of (moves ++ more)).coordinator.lifecycle.state = .stopped →
        [second, first].Sublist (begunOf .stop since)) := by
  have hpossible : (of (moves ++ more)).Possible := ⟨_, rfl⟩
  obtain ⟨-, -, hall⟩ := hpossible.sequence hlatest
  obtain ⟨hstart, hstop⟩ := hall hfinished
  have hover := hbefore.trans (hooks_prefix_of_opened moves more hlatest.mem hlater).sublist
  refine ⟨?_, fun hstopped => ?_⟩
  · rw [hstart, ← List.filter_eq_self.2 hstarts]
    exact hover.filter _
  · have hreverse := (hover.filter RegisteredHook.stops).reverse
    rwa [List.filter_eq_self.2 hstops, ← hstop hstopped] at hreverse

end Course

end ServiceHost
