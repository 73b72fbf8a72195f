import ServiceHost.Proofs.App.Contexts
import ServiceHost.Proofs.Lifecycle.Symmetry

/-!
# A start and its rollback

A call that starts an application, while no other pass stands at the gate, ends in one of four ways
(`StartReturned`): the application is started; the start was refused and nothing has changed; it
failed, and everything that had started was stopped again; or it failed, and so did the rollback,
somewhere on its way back. `Solo` says where such a call can be on its way, and what was seen since
it came; every move at the host keeps it (`Solo.step`). What the passes do in between is read off
`StartStretch` and `StopStretch`, and what they have left to do off the cycle that they are in
(`Course.accounted`).
-/

namespace ServiceHost

variable {κ : Type}

/-! ## What a start returns -/

/-- Hooks may have been appended, and nothing else has changed. -/
def Lifecycle.SameButHooks (l l' : Lifecycle κ) : Prop :=
  ∃ hooks, l' = { l with hooks }

/-- No stop callback began. -/
def StopFree (events : List (Event κ)) : Prop :=
  ∀ pass hook, Event.began pass .stop hook ∉ events

/-- How the lifecycle is left by a start that was called at `base` and has returned, and what was
seen in between. -/
inductive StartReturned (base course : Course κ) (events : List (Event κ)) :
    Except LifecycleError Unit → Prop
  | started (hstate : course.coordinator.lifecycle.state = .started) (hfree : StopFree events) :
      StartReturned base course events (.ok ())
  | refused {state action}
      (hsame : base.coordinator.lifecycle.SameButHooks course.coordinator.lifecycle)
      (hquiet : ∀ pass phase hook, Event.began pass phase hook ∉ events) :
      StartReturned base course events (.error (.invalidTransition state action))
  /-- Every stop callback owed has run once, from the last hook back, and has succeeded. -/
  | undone {e cycle} (he : e.FailedStart) (hcycle : Cycle.ofEvents events = some cycle)
      (hstate : course.coordinator.lifecycle.state = .stopped)
      (hzero : course.coordinator.lifecycle.started = 0) (hbegun : cycle.stopsBegun = cycle.owed)
      (hended : cycle.stopsEnded = cycle.owed.map fun hook => (hook, .ok ())) :
      StartReturned base course events (.error e)
  /-- The rollback has come as far as it could, and to its end if stop callbacks failed. -/
  | halfUndone {e undo cycle} (he : e.FailedStart) (hundo : undo.FailedStop)
      (hcycle : Cycle.ofEvents events = some cycle) (hbegun : cycle.stopsBegun <+: cycle.owed)
      (hall : ∀ failures, undo = .stopFailed failures → cycle.stopsBegun = cycle.owed) :
      StartReturned base course events (.error (.rollback e undo))

/-! ## The way of a start -/

/-- The events since the call, and so those of the whole course, are in that cycle. -/
structure Opened (course : Course κ) (events : List (Event κ)) (cycle : Cycle κ) : Prop where
  now : course.cycle? = some cycle
  own : Cycle.ofEvents events = some cycle

/-- No stop callback began or returned. -/
def Cycle.Unstopped (cycle : Cycle κ) : Prop :=
  cycle.stopsBegun = [] ∧ cycle.stopsEnded = []

/-- What a start leaves behind that is given up in the middle of a callback, of its start pass or of
its rollback. -/
inductive Abandoned (course : Course κ) (events : List (Event κ)) (call : AppCall) : Prop
  | starting {cycle} (hstage : call.stage = .starting) (hline : course.coordinator.line = [])
      (hcurrent : course.coordinator.current = none) (hopened : Opened course events cycle)
      (hfresh : cycle.Unstopped) : Abandoned course events call
  | stopping {e cycle} (he : e.FailedStart) (hstage : call.stage = .rollingBack e)
      (hown : Cycle.ofEvents events = some cycle) (hbegun : cycle.stopsBegun <+: cycle.owed) :
      Abandoned course events call

/-- Where a start can be that was called at `base`, if its pass is the only one, and what was seen
since. -/
inductive Solo (base course : Course κ) (events : List (Event κ)) : CallState → Prop
  | asking {ctx} (hline : course.coordinator.line = [])
      (hcurrent : course.coordinator.current = none) (hnone : events = [])
      (hsame : base.coordinator.lifecycle.SameButHooks course.coordinator.lifecycle) :
      Solo base course events (.launching .starting (some ctx))
  | entering {call} (hstage : call.stage = .starting)
      (hline : course.coordinator.line = [(call.pass, .start)])
      (hcurrent : course.coordinator.current = none) (hnone : events = [])
      (hsame : base.coordinator.lifecycle.SameButHooks course.coordinator.lifecycle) :
      Solo base course events (.waiting call)
  | starting {call cycle hook rest begun} (hstage : call.stage = .starting)
      (hline : course.coordinator.line = [(call.pass, .start)])
      (hcurrent : course.coordinator.current = some (.starting hook rest begun))
      (hopened : Opened course events cycle) (hfresh : cycle.Unstopped) (hfree : StopFree events) :
      Solo base course events (.waiting call)
  | failed {e cycle} (he : e.FailedStart) (hline : course.coordinator.line = [])
      (hcurrent : course.coordinator.current = none) (hopened : Opened course events cycle)
      (hfresh : cycle.Unstopped) : Solo base course events (.launching (.rollingBack e) none)
  | turning {call e cycle} (he : e.FailedStart) (hstage : call.stage = .rollingBack e)
      (hline : course.coordinator.line = [(call.pass, .stop)])
      (hcurrent : course.coordinator.current = none) (hopened : Opened course events cycle)
      (hfresh : cycle.Unstopped) : Solo base course events (.waiting call)
  /-- Every stop callback that began has returned but the last, and if the pass knows of no failure,
  they have all succeeded. -/
  | stopping {call e cycle hook hooks failures begun} (he : e.FailedStart)
      (hstage : call.stage = .rollingBack e)
      (hline : course.coordinator.line = [(call.pass, .stop)])
      (hcurrent : course.coordinator.current = some (.stopping hook hooks failures begun))
      (hopened : Opened course events cycle)
      (hbegun : cycle.stopsBegun = cycle.stopsEnded.map Prod.fst ++ [hook])
      (hfailures : failures = [] → ∀ ended ∈ cycle.stopsEnded, ended.2 = .ok ()) :
      Solo base course events (.waiting call)
  | abandoned {call state} (hreports : CallState.Reports call state)
      (h : Abandoned course events call) : Solo base course events state
  | ended {result} (h : StartReturned base course events result) :
      Solo base course events (.ended result)
  | dropped : Solo base course events .dropped

section
variable {base course : Course κ} {events : List (Event κ)} {state : CallState} {call : AppCall}
  {cycle : Cycle κ} {c : Coordinator κ} {reading : Reading} {r : PassStep κ × Lifecycle κ}
  {l : Lifecycle κ} {e : LifecycleError}

/-- A stretch of the start pass leads to the end of the start, to the rollback or to a callback. -/
theorem Solo.of_startStretch {todo : List (RegisteredHook κ)} (hstage : call.stage = .starting)
    (hr : Lifecycle.StartStretch reading todo l r) (hcourse : course.coordinator = (c.settle r).2)
    (hline : c.line = [(call.pass, .start)]) (hopened : Opened course events cycle)
    (hfresh : cycle.Unstopped) (hfree : StopFree events) :
    Solo base course events (call.onward r.1) := by
  cases hr with
  | done =>
    rw [AppCall.onward, AppCall.conclude_started hstage]
    exact .ended (.started (by rw [hcourse]; rfl) hfree)
  | cancelled =>
    rw [AppCall.onward, AppCall.conclude_failed hstage (.cancelled ..)]
    refine .failed (.cancelled ..) ?_ (by rw [hcourse]; rfl) hopened hfresh
    rw [hcourse]
    show c.line.drop 1 = []
    rw [hline]
    rfl
  | call =>
    rw [AppCall.onward]
    exact .starting hstage (by rw [hcourse]; exact hline) (by rw [hcourse]; rfl) hopened hfresh
      hfree

/-- A stretch of the stop pass leads to the end of the rollback or to a callback. -/
theorem Solo.of_stopStretch (cycle : Cycle κ) {hooks : List (RegisteredHook κ)}
    {failures : StopFailures} (he : e.FailedStart) (hstage : call.stage = .rollingBack e)
    (hr : Lifecycle.StopStretch reading hooks failures l r)
    (hcourse : course.coordinator = (c.settle r).2) (hline : c.line = [(call.pass, .stop)])
    (hnow : course.cycle? = Cycle.noteAll (some cycle) (r.1.events call.pass))
    (hown : Cycle.ofEvents events = Cycle.noteAll (some cycle) (r.1.events call.pass))
    (haccounted : Accounted course.coordinator course.cycle?)
    (hbegun : cycle.stopsBegun = cycle.stopsEnded.map Prod.fst)
    (hfailures : failures = [] → ∀ ended ∈ cycle.stopsEnded, ended.2 = .ok ()) :
    Solo base course events (call.onward r.1) := by
  cases hr with
  | done =>
    have hmirrors : Mirrors course.coordinator cycle := by rwa [hnow] at haccounted
    have hzero : course.coordinator.lifecycle.started = 0 := by rw [hcourse]; rfl
    have howed := hmirrors.stops_all hzero
    rw [AppCall.onward]
    cases failures with
    | nil =>
      have hended : cycle.stopsEnded = cycle.owed.map fun hook => (hook, .ok ()) := by
        rw [← howed, hbegun, List.map_map]
        refine (List.map_congr_left fun ended hmem => ?_).trans (List.map_id _) |>.symm
        exact Prod.ext rfl (hfailures rfl ended hmem).symm
      rw [List.isEmpty_nil, if_pos rfl, AppCall.conclude_undone hstage]
      exact .ended (.undone he hown (by rw [hcourse]; rfl) hzero howed hended)
    | cons failure rest =>
      rw [List.isEmpty_cons, if_neg Bool.false_ne_true, AppCall.conclude_halfUndone hstage]
      exact .ended (.halfUndone he (.stopFailed _) hown hmirrors.stops_prefix_owed fun _ _ => howed)
  | cancelled =>
    have hmirrors : Mirrors course.coordinator cycle := by rwa [hnow] at haccounted
    rw [AppCall.onward, AppCall.conclude_halfUndone hstage]
    exact .ended (.halfUndone he (.cancelled ..) hown hmirrors.stops_prefix_owed nofun)
  | @call _ hook =>
    rw [AppCall.onward]
    refine .stopping he hstage (by rw [hcourse]; exact hline) (by rw [hcourse]; rfl) ⟨hnow, hown⟩
      ?_ hfailures
    show cycle.stopsBegun ++ [hook] = _
    rw [hbegun]

/-- Appending a hook changes nothing for the call. -/
theorem Solo.append (h : Solo base course events state) (callSite : String) (hook : Hook κ) :
    Solo base (course.next (.append callSite hook)) events state := by
  obtain ⟨hooks, hnext⟩ := course.next_append callSite hook
  have hcycle : (course.next (.append callSite hook)).cycle? = course.cycle? := by
    rw [hnext]
    rfl
  have hopened {cycle : Cycle κ} (h : Opened course events cycle) :
      Opened (course.next (.append callSite hook)) events cycle := ⟨hcycle.trans h.now, h.own⟩
  have hsame (h : base.coordinator.lifecycle.SameButHooks course.coordinator.lifecycle) :
      base.coordinator.lifecycle.SameButHooks
        (course.next (.append callSite hook)).coordinator.lifecycle := by
    obtain ⟨_, hl⟩ := h
    exact ⟨hooks, by rw [hnext, hl]⟩
  have hstill : (course.next (.append callSite hook)).coordinator.line = course.coordinator.line ∧
      (course.next (.append callSite hook)).coordinator.current = course.coordinator.current := by
    rw [hnext]
    exact ⟨rfl, rfl⟩
  obtain ⟨hl, hc⟩ := hstill
  cases h with
  | asking hline hcurrent hnone hbase =>
    exact .asking (hl.trans hline) (hc.trans hcurrent) hnone (hsame hbase)
  | entering hstage hline hcurrent hnone hbase =>
    exact .entering hstage (hl.trans hline) (hc.trans hcurrent) hnone (hsame hbase)
  | starting hstage hline hcurrent hcycle hfresh hfree =>
    exact .starting hstage (hl.trans hline) (hc.trans hcurrent) (hopened hcycle) hfresh hfree
  | failed he hline hcurrent hcycle hfresh =>
    exact .failed he (hl.trans hline) (hc.trans hcurrent) (hopened hcycle) hfresh
  | turning he hstage hline hcurrent hcycle hfresh =>
    exact .turning he hstage (hl.trans hline) (hc.trans hcurrent) (hopened hcycle) hfresh
  | stopping he hstage hline hcurrent hcycle hbegun hfailures =>
    exact .stopping he hstage (hl.trans hline) (hc.trans hcurrent) (hopened hcycle) hbegun hfailures
  | dropped => exact .dropped
  | abandoned hreports h =>
    refine .abandoned hreports ?_
    cases h with
    | starting hstage hline hcurrent hcycle hfresh =>
      exact .starting hstage (hl.trans hline) (hc.trans hcurrent) (hopened hcycle) hfresh
    | stopping he hstage hown hbegun => exact .stopping he hstage hown hbegun
  | ended h =>
    refine .ended ?_
    cases h with
    | started hstate hfree => exact .started (by rw [hnext]; exact hstate) hfree
    | refused hbase hquiet => exact .refused (hsame hbase) hquiet
    | undone he hcycle hstate hzero hbegun hended =>
      exact .undone he hcycle (by rw [hnext]; exact hstate) (by rw [hnext]; exact hzero) hbegun
        hended
    | halfUndone he hundo hcycle hbegun hall => exact .halfUndone he hundo hcycle hbegun hall

/-- The pass of the call stands alone in the line. -/
theorem Solo.ask {stage : CallStage} {context : Option Context}
    (h : Solo base course events (.launching stage context)) (ctx : Context) :
    Solo base (course.next (.ask stage.phase)) events
      (.waiting ⟨stage, course.coordinator.asked, ctx⟩) := by
  have hcycle : (course.next (.ask stage.phase)).cycle? = course.cycle? :=
    course.cycle?_next _
  have hline (hline : course.coordinator.line = []) :
      (course.next (.ask stage.phase)).coordinator.line =
        [(course.coordinator.asked, stage.phase)] := by
    show course.coordinator.line ++ _ = _
    rw [hline]
    rfl
  cases h with
  | asking hempty hcurrent hnone hsame =>
    exact .entering rfl (hline hempty) hcurrent hnone hsame
  | failed he hempty hcurrent hopened hfresh =>
    exact .turning he rfl (hline hempty) hcurrent ⟨hcycle.trans hopened.now, hopened.own⟩ hfresh
  | abandoned hreports => cases hreports

/-- No stop callback begins at the end of a stretch of a start pass. -/
theorem stopFree_of_startStretch {todo : List (RegisteredHook κ)} (pass : PassId)
    (hr : Lifecycle.StartStretch reading todo l r) : StopFree (r.1.events pass) := by
  intro pass' hook hmem
  cases hr <;> cases List.mem_singleton.1 hmem

/-- The pass of the call begins. -/
theorem Solo.enter {phase : Phase} (h : Solo base course events (.waiting call))
    (hc : course.coordinator.Counted)
    (haccounted : Accounted (course.next (.enter call.pass reading)).coordinator
      (course.next (.enter call.pass reading)).cycle?)
    (hturn : course.coordinator.turn? call.pass = some phase) :
    Solo base (course.next (.enter call.pass reading))
      (events ++ course.coordinator.events (.enter call.pass reading))
      (call.onward (course.coordinator.lifecycle.begin phase reading).1) := by
  have hnext := course.cycle?_next (.enter call.pass reading)
  have hcourse : (course.next (.enter call.pass reading)).coordinator =
      (course.coordinator.settle (course.coordinator.lifecycle.begin phase reading)).2 :=
    Coordinator.apply_enter reading hturn
  obtain ⟨⟨rest, hfirst⟩, hidle⟩ := Coordinator.turn?_eq_some.1 hturn
  cases h with
  | abandoned hreports => cases hreports
  | starting _ _ hcurrent => cases hidle.symm.trans hcurrent
  | stopping _ _ _ hcurrent => cases hidle.symm.trans hcurrent
  | entering hstage hline hcurrent hnone hsame =>
    subst hnone
    cases hfirst.symm.trans hline
    by_cases hstate : course.coordinator.lifecycle.Startable
    · have hevents : course.coordinator.events (.enter call.pass reading) =
          .opened call.pass course.coordinator.lifecycle.hooks ::
            (course.coordinator.lifecycle.begin .start reading).1.events call.pass := by
        simp only [Coordinator.events, hturn, if_pos hstate]
      rw [hevents] at hnext ⊢
      have hr := Lifecycle.beginStart_stretch reading hstate
      have hnote (cycle? : Option (Cycle κ)) := @Cycle.noteAll_startStretch κ
        ⟨course.coordinator.lifecycle.hooks, [], [], []⟩ _ _ reading _ call.pass hr
      refine .of_startStretch hstage hr hcourse hline ⟨hnext.trans (hnote none), hnote none⟩
        ⟨rfl, rfl⟩ ?_
      intro pass hook hmem
      rcases List.mem_cons.1 hmem with hmem | hmem
      · cases hmem
      · exact stopFree_of_startStretch call.pass hr pass hook hmem
    · have hevents : course.coordinator.events (.enter call.pass reading) =
          [.finished call.pass (.error (.invalidTransition course.coordinator.lifecycle.state
            "start"))] := by
        simp only [Coordinator.events, hturn, if_neg hstate, Lifecycle.begin,
          Lifecycle.beginStart_of_not_startable reading hstate]
        rfl
      rw [hevents]
      rw [Lifecycle.begin, Lifecycle.beginStart_of_not_startable reading hstate] at hcourse ⊢
      rw [AppCall.onward, AppCall.conclude_refused hstage]
      refine .ended (.refused (by rw [hcourse]; exact hsame) ?_)
      intro pass phase hook hmem
      cases List.mem_singleton.1 hmem
  | @turning _ e cycle he hstage hline hcurrent hopened hfresh =>
    cases hfirst.symm.trans hline
    have hevents : course.coordinator.events (.enter call.pass reading) =
        (course.coordinator.lifecycle.begin .stop reading).1.events call.pass := by
      simp only [Coordinator.events, hturn]
    rw [hevents] at hnext ⊢
    rw [hopened.now] at hnext
    have hown := Cycle.noteAll_append none events
      ((course.coordinator.lifecycle.begin .stop reading).1.events call.pass)
    rw [show Cycle.noteAll none events = some cycle from hopened.own] at hown
    have hr := Lifecycle.beginStop_stretch reading hc.started
    refine .of_stopStretch cycle he hstage hr hcourse hline hnext hown haccounted ?_ ?_
    · rw [hfresh.1, hfresh.2]
      rfl
    · intro _ ended hmem
      rw [hfresh.2] at hmem
      cases hmem

/-- The callback that the pass of the call waits for has returned. -/
theorem Solo.resume {progress : Progress κ} {result : Except Failure Unit}
    (h : Solo base course events (.waiting call)) (hc : course.coordinator.Counted)
    (haccounted : Accounted (course.next (.returned call.pass result reading)).coordinator
      (course.next (.returned call.pass result reading)).cycle?)
    (hprogress : course.coordinator.progress? call.pass = some progress) :
    Solo base (course.next (.returned call.pass result reading))
      (events ++ course.coordinator.events (.returned call.pass result reading))
      (call.onward (course.coordinator.lifecycle.resume progress result reading).1) := by
  have hnext := course.cycle?_next (.returned call.pass result reading)
  have hcourse : (course.next (.returned call.pass result reading)).coordinator =
      (course.coordinator.settle
        (course.coordinator.lifecycle.resume progress result reading)).2 :=
    Coordinator.apply_returned result reading hprogress
  have hevents : course.coordinator.events (.returned call.pass result reading) =
      .ended call.pass progress.phase progress.hook result ::
        (course.coordinator.lifecycle.resume progress result reading).1.events call.pass := by
    simp only [Coordinator.events, hprogress]
  obtain ⟨⟨_, rest, hfirst⟩, hwaiting⟩ := Coordinator.progress?_eq_some.1 hprogress
  have hown := Cycle.noteAll_append none events
    (.ended call.pass progress.phase progress.hook result ::
      (course.coordinator.lifecycle.resume progress result reading).1.events call.pass)
  rw [hevents] at hnext ⊢
  cases h with
  | abandoned hreports => cases hreports
  | entering _ _ hcurrent => cases hcurrent.symm.trans hwaiting
  | turning _ _ _ hcurrent => cases hcurrent.symm.trans hwaiting
  | @starting _ cycle hook todo begun hstage hline hcurrent hopened hfresh hfree =>
    cases hcurrent.symm.trans hwaiting
    rw [hopened.now] at hnext
    rw [show Cycle.noteAll none events = some cycle from hopened.own] at hown
    cases result with
    | error source =>
      rw [Lifecycle.resume, AppCall.onward, AppCall.conclude_failed hstage (.hookFailed ..)]
      refine .failed (.hookFailed ..) ?_ (by rw [hcourse]; rfl) ⟨hnext, hown⟩ hfresh
      rw [hcourse]
      show course.coordinator.line.drop 1 = []
      rw [hline]
      rfl
    | ok =>
      have hr := Lifecycle.resume_starting_stretch hook todo begun reading
        course.coordinator.lifecycle
      have hnote := @Cycle.noteAll_startStretch κ
        { cycle with succeeded := cycle.succeeded ++ [hook] } _ _ reading _ call.pass hr
      refine .of_startStretch hstage hr hcourse hline ⟨hnext.trans hnote, hown.trans hnote⟩
        hfresh ?_
      intro pass hook hmem
      rcases List.mem_append.1 hmem with hmem | hmem
      · exact hfree pass hook hmem
      rcases List.mem_cons.1 hmem with hmem | hmem
      · cases hmem
      · exact stopFree_of_startStretch call.pass hr pass hook hmem
  | @stopping _ e cycle hook hooks failures begun he hstage hline hcurrent hopened hbegun
      hfailures =>
    cases hcurrent.symm.trans hwaiting
    rw [hopened.now] at hnext
    rw [show Cycle.noteAll none events = some cycle from hopened.own] at hown
    have hle := (hc.stopping _ _ _ _ hcurrent).2.1
    have hr := Lifecycle.resume_stopping_stretch hook failures begun result reading hle
    let ahead : Cycle κ := { cycle with stopsEnded := cycle.stopsEnded ++ [(hook, result)] }
    refine .of_stopStretch ahead he hstage hr hcourse hline ?_ ?_ haccounted ?_ ?_
    · cases result <;> exact hnext
    · cases result <;> exact hown
    · show cycle.stopsBegun = _
      rw [hbegun, List.map_append]
      rfl
    · intro hnone ended hmem
      cases result with
      | error source => exact absurd hnone (by simp [Lifecycle.noteFailure])
      | ok =>
        rcases List.mem_append.1 hmem with hmem | hmem
        · exact hfailures hnone ended hmem
        · rw [List.mem_singleton.1 hmem]

/-- The call is given up in the middle of a callback. -/
theorem Solo.giveUp (h : Solo base course events (.waiting call))
    (haccounted : Accounted (course.next (.leave call.pass)).coordinator
      (course.next (.leave call.pass)).cycle?)
    (hturn : course.coordinator.turn? call.pass = none) (reason : ContextError) :
    Solo base (course.next (.leave call.pass)) events (.givenUp call reason) := by
  have hcycle : (course.next (.leave call.pass)).cycle? = course.cycle? := course.cycle?_next _
  have hleave {phase : Phase} (hline : course.coordinator.line = [(call.pass, phase)]) :
      (course.next (.leave call.pass)).coordinator.line = [] := by
    show course.coordinator.line.filter _ = []
    rw [hline]
    simp
  have hturned {phase : Phase} (hline : course.coordinator.line = [(call.pass, phase)])
      (hcurrent : course.coordinator.current = none) : False := by
    have := Coordinator.turn?_eq_some.2 ⟨⟨[], hline⟩, hcurrent⟩
    cases hturn.symm.trans this
  refine .abandoned (.givenUp reason) ?_
  cases h with
  | abandoned hreports => cases hreports
  | entering _ hline hcurrent => exact (hturned hline hcurrent).elim
  | turning _ _ hline hcurrent => exact (hturned hline hcurrent).elim
  | starting hstage hline hcurrent hopened hfresh =>
    refine .starting hstage (hleave hline) ?_ ⟨hcycle.trans hopened.now, hopened.own⟩ hfresh
    have hprogress := Coordinator.progress?_eq_some.2 ⟨⟨_, [], hline⟩, hcurrent⟩
    show (if (course.coordinator.progress? call.pass).isSome then none else _) = none
    rw [hprogress]
    rfl
  | @stopping _ _ cycle _ _ _ _ he hstage _ _ hopened =>
    have hmirrors : Mirrors (course.next (.leave call.pass)).coordinator cycle := by
      rwa [hcycle, hopened.now] at haccounted
    exact .stopping he hstage hopened.own hmirrors.stops_prefix_owed

/-- The call that was given up reads the hook that is running. -/
theorem Solo.readRunning {reason : ContextError}
    (h : Solo base course events (.givenUp call reason)) (running : Option String) :
    Solo base course events (.reporting call reason running) := by
  cases h with
  | abandoned hreports h =>
    cases hreports
    exact .abandoned (.reporting reason running) h

/-- The call that was given up makes its report. -/
theorem Solo.report {reason : ContextError} {running : Option String}
    (h : Solo base course events (.reporting call reason running)) (records : HookRecords) :
    Solo base course events (call.conclude (.error (call.report reason running records))) := by
  cases h with
  | abandoned hreports h =>
    cases hreports
    unfold AppCall.report
    cases h with
    | starting hstage hline hcurrent hopened hfresh =>
      rw [hstage, show CallStage.phase .starting = .start from rfl,
        AppCall.conclude_failed hstage (.timeout ..)]
      exact .failed (.timeout ..) hline hcurrent hopened hfresh
    | stopping he hstage hown hbegun =>
      rw [AppCall.conclude_halfUndone hstage, hstage]
      exact .ended (.halfUndone he (.timeout ..) hown hbegun nofun)

end

/-- A start that was called at `base` is the only call of the host. -/
structure Host.Alone (base : Course κ) (host : Host κ) : Prop where
  possible : host.course.Possible
  only : ∃ events state fate, host.calls = [⟨state, fate⟩] ∧
    host.course.seen = base.seen ++ events ∧ Solo base host.course events state

/-- Every move but another call keeps a start on its way. -/
theorem Host.Alone.step {base : Course κ} {host : Host κ} (h : host.Alone base) {m : HostMove κ}
    (hm : ∀ phase context, m ≠ .call phase context) : (host.step m).Alone base := by
  obtain ⟨hpossible, events, state, fate, hcalls, hseen, hsolo⟩ := h
  have hcall {n : Nat} {state' : CallState} {fate' : Fate}
      (h : host.calls[n]? = some ⟨state', fate'⟩) : n = 0 ∧ state' = state ∧ fate' = fate := by
    rw [hcalls] at h
    cases n with
    | zero =>
      cases h
      exact ⟨rfl, rfl, rfl⟩
    | succ n => cases h
  have hset (call : HostCall) : host.calls.set 0 call = [call] := by
    rw [hcalls]
    rfl
  have hnext {course : Course κ} {m : Move κ} (h : course.seen = base.seen ++ events) :
      (course.next m).seen = base.seen ++ (events ++ course.coordinator.events m) := by
    rw [← List.append_assoc, ← h]
    rfl
  have hchange := host.change m
  generalize host.step m = host' at hchange
  cases hchange with
  | still => exact ⟨hpossible, events, state, fate, hcalls, hseen, hsolo⟩
  | outside => exact ⟨hpossible, events, state, fate, hcalls, hseen, hsolo⟩
  | appended callSite hook =>
    refine ⟨hpossible.next _, events, state, fate, hcalls, ?_, hsolo.append callSite hook⟩
    exact (List.append_nil _).trans hseen
  | called phase context => exact absurd rfl (hm phase context)
  | @launched n stage context fate' hlaunching =>
    obtain ⟨rfl, rfl, rfl⟩ := hcall hlaunching
    refine ⟨hpossible.next _, events, _, _, hset _, ?_, hsolo.ask _⟩
    exact (List.append_nil _).trans hseen
  | @entered n call fate' phase hwaiting hturn =>
    obtain ⟨rfl, rfl, rfl⟩ := hcall hwaiting
    exact ⟨hpossible.next _, _, _, _, hset _, hnext hseen,
      hsolo.enter hpossible.counted (hpossible.next _).accounted hturn⟩
  | @resumed n call fate' progress result hwaiting hprogress =>
    obtain ⟨rfl, rfl, rfl⟩ := hcall hwaiting
    exact ⟨hpossible.next _, _, _, _, hset _, hnext hseen,
      hsolo.resume hpossible.counted (hpossible.next _).accounted hprogress⟩
  | @gaveUp n call fate' reason hwaiting hdone hturn =>
    obtain ⟨rfl, rfl, rfl⟩ := hcall hwaiting
    refine ⟨hpossible.next _, events, _, _, hset _, ?_,
      hsolo.giveUp (hpossible.next _).accounted hturn _⟩
    exact (List.append_nil _).trans hseen
  | @runningRead n call reason fate' hgiven =>
    obtain ⟨rfl, rfl, rfl⟩ := hcall hgiven
    exact ⟨hpossible, events, _, _, hset _, hseen, hsolo.readRunning _⟩
  | @recordsRead n call reason running fate' hreporting =>
    obtain ⟨rfl, rfl, rfl⟩ := hcall hreporting
    exact ⟨hpossible, events, _, _, hset _, hseen, hsolo.report _⟩
  | @dropped n call fate' hwaiting =>
    obtain ⟨rfl, rfl, rfl⟩ := hcall hwaiting
    refine ⟨hpossible.next _, events, _, _, hset _, ?_, .dropped⟩
    exact (List.append_nil _).trans hseen
  | @dismissed n stage context fate' hlaunching =>
    obtain ⟨rfl, rfl, rfl⟩ := hcall hlaunching
    exact ⟨hpossible, events, _, _, hset _, hseen, .dropped⟩

/-- The one call at the host has to undo a start, or was given up and is about to report it. -/
inductive Host.RollsBack (host : Host κ) : Prop
  | reporting {call state fate} (hcalls : host.calls = [⟨state, fate⟩])
      (hreports : CallState.Reports call state)
  | launching {start fate} (hcalls : host.calls = [⟨.launching (.rollingBack start) none, fate⟩])
  | waiting {call start fate} (hcalls : host.calls = [⟨.waiting call, fate⟩])
      (hstage : call.stage = .rollingBack start)

/-- A call that rolls back under a context of its own is not aware of older scopes. -/
theorem Host.RollsBack.unaware {host : Host κ} (h : host.RollsBack) {scopes : Scopes}
    (hown : host.OwnContext scopes.count) {other : Context} (hother : scopes.Knows other) :
    host.Unaware other.lineage := by
  refine ⟨fun scope hscope => Nat.lt_of_lt_of_le (hother scope hscope) hown.count, ?_, ?_⟩
  · intro stage ctx fate hmem
    cases h with
    | reporting hcalls hreports =>
      rw [hcalls] at hmem
      cases List.mem_singleton.1 hmem
      cases hreports
    | launching hcalls =>
      rw [hcalls] at hmem
      cases List.mem_singleton.1 hmem
    | waiting hcalls =>
      rw [hcalls] at hmem
      cases List.mem_singleton.1 hmem
  · intro call fate hmem scope hscope hold
    cases h with
    | reporting hcalls hreports =>
      rw [hcalls] at hmem
      cases List.mem_singleton.1 hmem
      cases hreports
    | launching hcalls =>
      rw [hcalls] at hmem
      cases List.mem_singleton.1 hmem
    | @waiting call' start fate' hcalls hstage =>
      rw [hcalls] at hmem
      cases List.mem_singleton.1 hmem
      obtain ⟨first, launched, hfirst, _, hcontext⟩ :=
        hown.waiting (by rw [hcalls]; exact List.mem_singleton_self _) hstage
      have hnew : first ≤ scope := by
        rw [hcontext] at hscope
        rcases List.mem_cons.1 hscope with rfl | hscope
        · exact Nat.le_succ _
        · exact Nat.le_of_eq (List.mem_singleton.1 hscope).symm
      have hlt := hother scope hold
      exact absurd (Nat.lt_of_lt_of_le hlt (Nat.le_trans hfirst hnew)) (Nat.lt_irrefl _)

/-- A start at whose coming no pass stands at the gate, and which stays the only call, returns as
`StartReturned` says, however its callbacks, its context and the time behave. Its rollback runs
under a new context with the deadline of the settings, and cancelling any context that was made
before the call, such as that of the start, changes nothing from the beginning of the rollback on.
-/
theorem start_or_rollback {base : Course κ} (hbase : base.Possible)
    (hgate : base.coordinator.line = []) (now : Nat) (scopes : Scopes) (allowed : Phase → Nat)
    {ctx : Context} (hctx : scopes.Knows ctx) {moves : List (HostMove κ)}
    (hmoves : ∀ m ∈ moves, ∀ phase context, m ≠ .call phase context) {host : Host κ}
    (hhost : host = (Host.step ⟨now, scopes, base, [], allowed⟩
      (.call .start (some ctx))).run moves) :
    (∀ result fate, host.calls = [⟨.ended result, fate⟩] →
        ∃ events, host.course.seen = base.seen ++ events ∧
          StartReturned base host.course events result) ∧
      (∀ call start fate, host.calls = [⟨.waiting call, fate⟩] →
        call.stage = .rollingBack start → ∃ scope launched, scopes.count ≤ scope ∧
          launched ≤ host.now ∧
          call.context = ⟨[scope + 1, scope], some (launched + allowed .stop)⟩) ∧
      (host.RollsBack → ∀ other, scopes.Knows other → ∀ more : List (HostMove κ),
        (∀ m ∈ more, ∀ phase context, m ≠ .call phase context) →
        ((host.step (.cancel other)).run more).course = (host.run more).course ∧
          ((host.step (.cancel other)).run more).calls = (host.run more).calls) := by
  let P (host : Host κ) : Prop :=
    host.Alone base ∧ host.OwnContext scopes.count ∧ host.allowed = allowed
  have hcalled : Host.step ⟨now, scopes, base, [], allowed⟩ (.call .start (some ctx)) =
      ⟨now, scopes, base, [⟨.launching .starting (some ctx), .unsettled⟩], allowed⟩ :=
    if_pos (by rintro _ ⟨⟩; exact hctx)
  rw [hcalled] at hhost
  have hfirst :
      P ⟨now, scopes, base, [⟨.launching .starting (some ctx), .unsettled⟩], allowed⟩ := by
    have hcurrent : base.coordinator.current = none := by
      cases hcurrent : base.coordinator.current with
      | none => rfl
      | some progress =>
        obtain ⟨id, rest, hline⟩ := hbase.lined.first progress hcurrent
        cases hgate.symm.trans hline
    refine ⟨⟨hbase, [], _, _, rfl, (List.append_nil _).symm, .asking hgate hcurrent rfl ⟨_, rfl⟩⟩,
      ⟨Nat.le_refl _, fun hmem => ?_, fun hmem => ?_⟩, rfl⟩
    · cases List.mem_singleton.1 hmem
    · cases List.mem_singleton.1 hmem
  obtain ⟨halone, hown, hallowed⟩ : P host := by
    rw [hhost]
    refine Host.run_induction hfirst fun host m hm h => ?_
    exact ⟨h.1.step (hmoves m hm), h.2.1.step m, (host.step_allowed m).trans h.2.2⟩
  refine ⟨?_, ?_, ?_⟩
  · intro result fate hover
    obtain ⟨_, events, state, fate', hcalls, hseen, hsolo⟩ := halone
    cases hcalls.symm.trans hover
    cases hsolo with
    | ended h => exact ⟨events, hseen, h⟩
    | abandoned hreports => cases hreports
  · intro call start fate hcalls hstage
    rw [← hallowed]
    exact hown.waiting (by rw [hcalls]; exact List.mem_singleton_self _) hstage
  · intro hrolls other hother more hmore
    have hknows : host.scopes.Knows other := by
      intro scope hscope
      exact Nat.lt_of_lt_of_le (hother scope hscope) hown.count
    have hcancel : host.step (.cancel other) =
        host.recancelled (other.lineage.take 1 ++ host.scopes.cancelled) := if_pos hknows
    rw [hcancel]
    refine Host.run_hidden (hrolls.unaware hown hother) (fun scope hoff => ?_) hmore
    rw [List.mem_append, or_iff_right fun hmem => hoff (List.mem_of_mem_take hmem)]

/-- A new lifecycle with two hooks. -/
def twoHooks : Course Nat :=
  .of [.append "a" ⟨some 0, some 1, none⟩, .append "b" ⟨some 2, some 3, none⟩]

/-- The start runs out of time in the middle of the second hook, and the first is stopped again. -/
def startTimesOut : List (HostMove Nat) :=
  [.launch 0, .enter 0, .returned 0 (.ok ()), .tick 10, .giveUp 0 .deadlineExceeded, .readRunning 0,
    .readRecords 0, .launch 0, .enter 0, .returned 0 (.ok ())]

/-- A start that runs out of time is undone. -/
theorem startTimesOut_undone :
    ∃ (host : Host Nat) (fate : Fate) (records : HookRecords) (events : List (Event Nat)),
      host = (Host.step ⟨0, ⟨1, []⟩, twoHooks, [], fun _ => 100⟩
          (.call .start (some ⟨[0], some 10⟩))).run startTimesOut ∧
        host.calls =
          [⟨.ended (.error (.timeout .start (some "b") .deadlineExceeded records)), fate⟩] ∧
        StartReturned twoHooks host.course events
          (.error (.timeout .start (some "b") .deadlineExceeded records)) := by
  have hbase : twoHooks.Possible := ⟨_, rfl⟩
  have hctx : (Scopes.mk 1 []).Knows ⟨[0], some 10⟩ := by decide
  have hmoves : ∀ m ∈ startTimesOut, ∀ phase context, m ≠ HostMove.call phase context := by
    intro m hm phase context
    rintro rfl
    simp [startTimesOut] at hm
  obtain ⟨hreturned, -⟩ :=
    start_or_rollback hbase rfl 0 ⟨1, []⟩ (fun _ => 100) hctx hmoves rfl
  obtain ⟨events, -, h⟩ := hreturned _ _ rfl
  exact ⟨_, _, _, events, rfl, rfl, h⟩

end ServiceHost
