import ServiceHost.Proofs.App.Calls
import ServiceHost.Proofs.App.Contexts
import ServiceHost.Proofs.Lifecycle.Symmetry

/-!
# Competing starts

Any number of calls may start one application at the same time. One of them is let through, and the
others stand in the line behind it until they are refused or given up. `Went` says what comes of
such a call, and of the lifecycle, when its pass begins or goes on, and `Host.Matched` how calls and
passes belong together: each waits for a pass of its own and of its own phase, and has a start to
undo only after its start pass was let through, or given up in the line (`Fate.overtaken`). Every
move but a stop keeps this.
-/

namespace ServiceHost

variable {κ : Type}

/-- The stage of a call that is about to step up to the gate or waits for its pass. -/
def CallState.stage? : CallState → Option CallStage
  | .launching stage _ => some stage
  | .waiting call => some call.stage
  | _ => none

/-- The call has a start to undo, or has given one up and is about to report it. -/
def CallState.Undoes (state : CallState) : Prop :=
  (∃ start, state.stage? = some (.rollingBack start)) ∨
    ∃ call, call.stage = .starting ∧ state.Reports call

/-- A call that is about to ask for a pass undoes a start if it rolls back. -/
theorem CallState.undoes_launching {stage : CallStage} {context : Option Context} :
    (CallState.launching stage context).Undoes ↔ ∃ start, stage = .rollingBack start := by
  constructor
  · rintro (⟨start, hstage⟩ | ⟨call, -, hreports⟩)
    · exact ⟨start, Option.some.inj hstage⟩
    · cases hreports
  · rintro ⟨start, hstage⟩
    exact .inl ⟨start, congrArg some hstage⟩

/-- So does a call that waits for its pass. -/
theorem CallState.undoes_waiting {call : AppCall} :
    (CallState.waiting call).Undoes ↔ ∃ start, call.stage = .rollingBack start := by
  constructor
  · rintro (⟨start, hstage⟩ | ⟨call, -, hreports⟩)
    · exact ⟨start, Option.some.inj hstage⟩
    · cases hreports
  · rintro ⟨start, hstage⟩
    exact .inl ⟨start, congrArg some hstage⟩

/-- A call that is over has nothing to undo. -/
theorem CallState.not_undoes_ended (result : Except LifecycleError Unit) :
    ¬ (CallState.ended result).Undoes := by
  rintro (⟨start, hstage⟩ | ⟨call, -, hreports⟩)
  · cases hstage
  · cases hreports

theorem CallState.not_undoes_dropped : ¬ CallState.dropped.Undoes := by
  rintro (⟨start, hstage⟩ | ⟨call, -, hreports⟩)
  · cases hstage
  · cases hreports

/-- Only a start has to be undone when its pass is over. -/
theorem AppCall.starting_of_conclude_undoes {call : AppCall} {result : Except LifecycleError Unit}
    (h : (call.conclude result).Undoes) : call.stage = .starting := by
  unfold conclude at h
  cases hstage : call.stage with
  | starting => rfl
  | rollingBack start =>
    rw [hstage] at h
    cases result <;> exact absurd h (CallState.not_undoes_ended _)
  | stopping =>
    rw [hstage] at h
    exact absurd h (CallState.not_undoes_ended _)

/-! ## One step of a pass -/

/-- A start pass has the lifecycle to itself, when it is let through and while it lasts. -/
def Coordinator.Free (c : Coordinator κ) : Prop :=
  c.lifecycle.Startable ∨
    c.lifecycle.state = .starting ∧ ∃ progress, c.current = some progress ∧ progress.phase = .start

/-- What comes of a call whose pass begins or goes on, for a call that started. -/
inductive Went (c : Coordinator κ) (call : AppCall) (c' : Coordinator κ) : CallState → Prop
  | refused {state action} (hstage : call.stage = .starting) (hstate : ¬ c.lifecycle.Startable)
      (hsame : c'.lifecycle = c.lifecycle) (hcurrent : c'.current = none) :
      Went c call c' (.ended (.error (.invalidTransition state action)))
  | won (hstage : call.stage = .starting) (hfree : c.Free)
      (hstate : c'.lifecycle.state = .started) (hcurrent : c'.current = none) :
      Went c call c' (.ended (.ok ()))
  | failed {start} (hstage : call.stage = .starting) (hfree : c.Free)
      (hstate : c'.lifecycle.state = .startFailed) (hcurrent : c'.current = none) :
      Went c call c' (.launching (.rollingBack start) none)
  | starting {progress} (hstage : call.stage = .starting) (hfree : c.Free)
      (hstate : c'.lifecycle.state = .starting) (hcurrent : c'.current = some progress)
      (hphase : progress.phase = .start) : Went c call c' (.waiting call)
  | undone {start e} (hstage : call.stage = .rollingBack start)
      (hstate : c'.lifecycle.state = .stopped ∨ c'.lifecycle.state = .stopping)
      (hcurrent : c'.current = none) : Went c call c' (.ended (.error e))
  | undoing {start progress} (hstage : call.stage = .rollingBack start)
      (hstate : c'.lifecycle.state = .stopping) (hcurrent : c'.current = some progress)
      (hphase : progress.phase = .stop) : Went c call c' (.waiting call)

section
variable {c c' : Coordinator κ} {call : AppCall} {reading : Reading} {r : PassStep κ × Lifecycle κ}
  {l : Lifecycle κ}

/-- A call that goes on waits for the same pass. -/
theorem Went.same {state : CallState} (h : Went c call c' state) (call' : AppCall)
    (hwaiting : state = .waiting call') : call' = call := by
  cases h <;> cases hwaiting <;> rfl

/-- A stretch of a start pass starts the application, fails or goes on. -/
theorem Went.of_startStretch {todo : List (RegisteredHook κ)} (hstage : call.stage = .starting)
    (hfree : c.Free) (hr : Lifecycle.StartStretch reading todo l r) (hstate : l.state = .starting) :
    Went c call (c.settle r).2 (call.onward r.1) := by
  cases hr with
  | done =>
    rw [AppCall.onward, AppCall.conclude_started hstage]
    exact .won hstage hfree rfl rfl
  | cancelled =>
    rw [AppCall.onward, AppCall.conclude_failed hstage (.cancelled ..)]
    exact .failed hstage hfree rfl rfl
  | call => exact .starting hstage hfree hstate rfl rfl

/-- A stretch of the stop pass of a rollback ends it or goes on. -/
theorem Went.of_stopStretch {start : LifecycleError} {hooks : List (RegisteredHook κ)}
    {failures : StopFailures} (hstage : call.stage = .rollingBack start)
    (hr : Lifecycle.StopStretch reading hooks failures l r) (hstate : l.state = .stopping) :
    Went c call (c.settle r).2 (call.onward r.1) := by
  cases hr with
  | done =>
    cases failures with
    | nil =>
      rw [AppCall.onward, List.isEmpty_nil, if_pos rfl, AppCall.conclude_undone hstage]
      exact .undone hstage (.inl rfl) rfl
    | cons =>
      rw [AppCall.onward, List.isEmpty_cons, if_neg Bool.false_ne_true,
        AppCall.conclude_halfUndone hstage]
      exact .undone hstage (.inl rfl) rfl
  | cancelled =>
    rw [AppCall.onward, AppCall.conclude_halfUndone hstage]
    exact .undone hstage (.inr hstate) rfl
  | call => exact .undoing hstage hstate rfl rfl

/-- The stage of a call that started is told by the phase of its pass. -/
theorem stage_of_phase (hstage : call.stage ≠ .stopping) :
    (call.stage.phase = .start → call.stage = .starting) ∧
      (call.stage.phase = .stop → ∃ start, call.stage = .rollingBack start) := by
  cases hcase : call.stage with
  | starting => exact ⟨fun _ => rfl, nofun⟩
  | rollingBack start => exact ⟨nofun, fun _ => ⟨start, rfl⟩⟩
  | stopping => exact absurd hcase hstage

/-- What comes of a call whose pass begins. -/
theorem Went.of_enter {phase : Phase} (hc : c.Counted) (hstage : call.stage ≠ .stopping)
    (hphase : call.stage.phase = phase) (hturn : c.turn? call.pass = some phase) :
    Went c call (c.apply (.enter call.pass reading))
      (call.onward (c.lifecycle.begin phase reading).1) := by
  rw [Coordinator.apply_enter reading hturn]
  cases phase with
  | start =>
    have hstarting := (stage_of_phase hstage).1 hphase
    by_cases hstate : c.lifecycle.Startable
    · have hr := Lifecycle.beginStart_stretch reading hstate
      exact .of_startStretch hstarting (.inl hstate) hr rfl
    · rw [Lifecycle.begin, Lifecycle.beginStart_of_not_startable reading hstate, AppCall.onward,
        AppCall.conclude_refused hstarting]
      exact .refused hstarting hstate rfl rfl
  | stop =>
    obtain ⟨start, hundoing⟩ := (stage_of_phase hstage).2 hphase
    exact .of_stopStretch hundoing (Lifecycle.beginStop_stretch reading hc.started) rfl

/-- What comes of a call whose pass goes on after a callback. -/
theorem Went.of_returned {progress : Progress κ} (result : Except Failure Unit) (hc : c.Counted)
    (hstage : call.stage ≠ .stopping) (hphase : call.stage.phase = progress.phase)
    (hprogress : c.progress? call.pass = some progress) :
    Went c call (c.apply (.returned call.pass result reading))
      (call.onward (c.lifecycle.resume progress result reading).1) := by
  rw [Coordinator.apply_returned result reading hprogress]
  have hcurrent := Coordinator.current_of_progress? hprogress
  cases progress with
  | starting hook rest begun =>
    have hstarting := (stage_of_phase hstage).1 hphase
    have hstate := (hc.starting _ _ _ hcurrent).1
    have hfree : c.Free := .inr ⟨hstate, _, hcurrent, rfl⟩
    cases result with
    | error source =>
      rw [Lifecycle.resume, AppCall.onward, AppCall.conclude_failed hstarting (.hookFailed ..)]
      exact .failed hstarting hfree rfl rfl
    | ok => exact .of_startStretch hstarting hfree (Lifecycle.resume_starting_stretch ..) hstate
  | stopping hook hooks failures begun =>
    obtain ⟨start, hundoing⟩ := (stage_of_phase hstage).2 hphase
    have ⟨hstate, hle, _⟩ := hc.stopping _ _ _ _ hcurrent
    exact .of_stopStretch hundoing (Lifecycle.resume_stopping_stretch _ _ _ _ _ hle) hstate

end

/-! ## Calls and their passes -/

/-- How a call that started stands to the passes: it waits for a pass of its own phase, its start
pass was let through before it began to wait for a callback, and it undoes a start only after its
start pass was let through or given up in the line. -/
structure HostCall.Fits (c : Coordinator κ) (hostCall : HostCall) : Prop where
  starts : hostCall.state.stage? ≠ some .stopping
  fresh : hostCall.state.stage? = some .starting → hostCall.fate ≠ .overtaken
  undoing : hostCall.state.Undoes → hostCall.fate ≠ .unsettled
  known : ∀ call, hostCall.state = .waiting call → call.pass < c.asked
  phase : ∀ call phase, hostCall.state = .waiting call → (call.pass, phase) ∈ c.line →
    phase = call.stage.phase
  begun : ∀ call progress, hostCall.state = .waiting call → call.stage = .starting →
    c.progress? call.pass = some progress → hostCall.fate = .passed

section
variable {c : Coordinator κ} {call : AppCall} {fate fate' : Fate} {state : CallState} {m : Move κ}

/-- A call that waits for no pass. -/
theorem HostCall.Fits.of_idle {hostCall : HostCall} (hidle : ∀ call, hostCall.state ≠ .waiting call)
    (hstarts : hostCall.state.stage? ≠ some .stopping)
    (hfresh : hostCall.state.stage? = some .starting → hostCall.fate ≠ .overtaken)
    (hundoing : hostCall.state.Undoes → hostCall.fate ≠ .unsettled) : hostCall.Fits c where
  starts := hstarts
  fresh := hfresh
  undoing := hundoing
  known call hwaiting := absurd hwaiting (hidle call)
  phase call _ hwaiting := absurd hwaiting (hidle call)
  begun call _ hwaiting := absurd hwaiting (hidle call)

/-- A call that is over. -/
theorem HostCall.Fits.of_ended {result : Except LifecycleError Unit} :
    HostCall.Fits c ⟨.ended result, fate⟩ :=
  .of_idle nofun nofun nofun fun hundoes => absurd hundoes (CallState.not_undoes_ended result)

theorem HostCall.Fits.of_dropped : HostCall.Fits c ⟨.dropped, fate⟩ :=
  .of_idle nofun nofun nofun fun hundoes => absurd hundoes CallState.not_undoes_dropped

/-- A call that was given up. -/
theorem HostCall.Fits.of_reports (hreports : state.Reports call)
    (hfate : call.stage = .starting → fate ≠ .unsettled) : HostCall.Fits c ⟨state, fate⟩ := by
  have hidle : (∀ call', state ≠ .waiting call') ∧ state.stage? = none := by
    cases hreports <;> exact ⟨nofun, rfl⟩
  refine .of_idle hidle.1 (hidle.2 ▸ nofun) (hidle.2 ▸ nofun) ?_
  rintro (⟨start, hrolls⟩ | ⟨call', hstage, hsame⟩)
  · cases hidle.2.symm.trans hrolls
  · obtain rfl : call' = call := by
      cases hreports <;> cases hsame <;> rfl
    exact hfate hstage

/-- A call that is about to undo a start. -/
theorem HostCall.Fits.of_rolling {start : LifecycleError} {context : Option Context}
    (hfate : fate ≠ .unsettled) : HostCall.Fits c ⟨.launching (.rollingBack start) context, fate⟩ :=
  .of_idle nofun nofun nofun fun _ => hfate

/-- A call that was given up makes its report. -/
theorem HostCall.Fits.report {reason : ContextError} {running : Option String}
    (h : HostCall.Fits c ⟨.reporting call reason running, fate⟩) (records : HookRecords) :
    HostCall.Fits c
      ⟨call.conclude (.error (.timeout call.stage.phase running reason records)), fate⟩ := by
  cases hstage : call.stage with
  | starting =>
    rw [show CallStage.phase .starting = .start from rfl,
      AppCall.conclude_failed hstage (.timeout ..)]
    exact .of_rolling (h.undoing (.inr ⟨call, hstage, .reporting reason running⟩))
  | rollingBack start =>
    rw [AppCall.conclude_halfUndone hstage]
    exact .of_ended
  | stopping =>
    simp only [AppCall.conclude, hstage, CallStage.after]
    exact .of_ended

/-- A move of another pass does not concern the call. -/
theorem HostCall.Fits.other {hostCall : HostCall} (h : hostCall.Fits c) (hc : c.Counted)
    (hl : c.Lined) (hm : ∀ call, hostCall.state = .waiting call → m.pass? ≠ some call.pass) :
    hostCall.Fits (c.apply m) := by
  refine { h with known := ?_, phase := ?_, begun := ?_ }
  · intro call hwaiting
    exact Nat.lt_of_lt_of_le (h.known call hwaiting) (Coordinator.asked_le_apply hc m)
  · intro call phase hwaiting hmem
    rcases Coordinator.mem_line_apply hc hmem with hmem | ⟨_, _, hnew⟩
    · exact h.phase call phase hwaiting hmem
    · have hasked : call.pass = c.asked := congrArg Prod.fst hnew
      exact absurd (h.known call hwaiting) (hasked ▸ Nat.lt_irrefl _)
  · intro call progress hwaiting hstage hprogress
    exact h.begun call progress hwaiting hstage
      (Coordinator.progress?_of_apply hc hl (hm call hwaiting) hprogress)

/-- A move of no pass does not concern the call. -/
theorem HostCall.Fits.unmoved {hostCall : HostCall} (h : hostCall.Fits c) (hc : c.Counted)
    (hl : c.Lined) (m : Move κ) (hm : m.pass? = none) : hostCall.Fits (c.apply m) :=
  h.other hc hl fun _ _ hpass => nomatch hm.symm.trans hpass

/-- The pass of a call begins or goes on. -/
theorem HostCall.Fits.went (h : HostCall.Fits c ⟨.waiting call, fate⟩) (hc : c.Counted)
    (hm : m.pass? = some call.pass) (hwent : Went c call (c.apply m) state)
    (hfree : call.stage = .starting → c.Free → fate' = .passed)
    (hkept : ∀ start, call.stage = .rollingBack start → fate' = fate) :
    HostCall.Fits (c.apply m) ⟨state, fate'⟩ := by
  have hknown : ∀ call', CallState.waiting call = .waiting call' →
      call'.pass < (c.apply m).asked := by
    rintro _ ⟨⟩
    exact Nat.lt_of_lt_of_le (h.known call rfl) (Coordinator.asked_le_apply hc m)
  have hphase : ∀ call' phase, CallState.waiting call = .waiting call' →
      (call'.pass, phase) ∈ (c.apply m).line → phase = call'.stage.phase := by
    rintro _ phase ⟨⟩ hmem
    rcases Coordinator.mem_line_apply hc hmem with hmem | ⟨_, rfl, _⟩
    · exact h.phase call phase rfl hmem
    · cases hm
  cases hwent with
  | refused => exact .of_ended
  | won => exact .of_ended
  | failed hstage hopen =>
    cases hfree hstage hopen
    exact .of_rolling nofun
  | starting hstage hopen =>
    cases hfree hstage hopen
    exact ⟨h.starts, nofun, fun _ => nofun, hknown, hphase, fun _ _ _ _ _ => rfl⟩
  | undone => exact .of_ended
  | undoing hstage =>
    cases hkept _ hstage
    refine ⟨h.starts, h.fresh, h.undoing, hknown, hphase, ?_⟩
    rintro _ _ ⟨⟩ hstarting
    cases hstage.symm.trans hstarting

end

/-- The calls that start at a host, and their passes. -/
structure Host.Matched (host : Host κ) : Prop where
  possible : host.course.Possible
  fits : ∀ {n : Nat} {hostCall : HostCall}, host.calls[n]? = some hostCall →
    hostCall.Fits host.coordinator
  distinct : ∀ {i j : Nat} {a b : AppCall} {fate fate' : Fate},
    host.calls[i]? = some ⟨.waiting a, fate⟩ → host.calls[j]? = some ⟨.waiting b, fate'⟩ →
    a.pass = b.pass → i = j

namespace Host

section
variable {host host' : Host κ} {n : Nat} {new : HostCall}

/-- A host without calls. -/
theorem Matched.of_none (hpossible : host.course.Possible) (hcalls : host.calls = []) :
    host.Matched := by
  refine ⟨hpossible, ?_, ?_⟩
  · intro n hostCall h
    rw [hcalls] at h
    cases h
  · intro i j a b fate fate' h
    rw [hcalls] at h
    cases h

/-- One call changes, and the others still fit. -/
theorem Matched.set (h : host.Matched) (hcalls : host'.calls = host.calls.set n new)
    (hpossible : host'.course.Possible) (hnew : new.Fits host'.coordinator)
    (hothers : ∀ {i hostCall}, i ≠ n → host.calls[i]? = some hostCall →
      hostCall.Fits host'.coordinator)
    (hpass : ∀ {call i other fate}, new.state = .waiting call → i ≠ n →
      host.calls[i]? = some ⟨.waiting other, fate⟩ → call.pass ≠ other.pass) : host'.Matched := by
  refine ⟨hpossible, ?_, ?_⟩
  · intro i hostCall hcall
    rw [hcalls] at hcall
    rcases getElem?_set_cases hcall with ⟨rfl, rfl⟩ | ⟨hi, hcall⟩
    · exact hnew
    · exact hothers hi hcall
  · intro i j a b fate fate' hcall hcall' hsame
    rw [hcalls] at hcall hcall'
    rcases getElem?_set_cases hcall with ⟨hi, hnew⟩ | ⟨hi, hold⟩
    · rcases getElem?_set_cases hcall' with ⟨hj, _⟩ | ⟨hj, hold'⟩
      · exact hi.trans hj.symm
      · exact absurd hsame (hpass (congrArg HostCall.state hnew.symm) hj hold')
    · rcases getElem?_set_cases hcall' with ⟨_, hnew⟩ | ⟨_, hold'⟩
      · exact absurd hsame.symm (hpass (congrArg HostCall.state hnew.symm) hi hold)
      · exact h.distinct hold hold' hsame

/-- A call moves its own pass, and waits for the same pass afterwards, if for any. -/
theorem Matched.move (h : host.Matched) {call : AppCall} {fate : Fate} {m : Move κ}
    (hcall : host.calls[n]? = some ⟨.waiting call, fate⟩) (hm : m.pass? = some call.pass)
    (hcourse : host'.course = host.course.next m) (hcalls : host'.calls = host.calls.set n new)
    (hnew : new.Fits (host.coordinator.apply m))
    (hsame : ∀ call', new.state = .waiting call' → call' = call) : host'.Matched := by
  have happly : host'.coordinator = host.coordinator.apply m := by
    rw [coordinator, hcourse]
    rfl
  have hdistinct {i : Nat} {other : AppCall} {fate' : Fate} (hi : i ≠ n)
      (hother : host.calls[i]? = some ⟨.waiting other, fate'⟩) : call.pass ≠ other.pass :=
    fun hpass => hi (h.distinct hcall hother hpass).symm
  refine h.set hcalls (hcourse ▸ h.possible.next m) (happly ▸ hnew) ?_ ?_
  · rintro i ⟨state, fate'⟩ hi hother
    rw [happly]
    refine (h.fits hother).other h.possible.counted h.possible.lined ?_
    rintro other rfl hpass
    exact hdistinct hi hother (Option.some.inj (hm.symm.trans hpass))
  · intro call' i other fate' hwaiting hi hother
    rw [hsame call' hwaiting]
    exact hdistinct hi hother

/-- A call that waits for its pass is of the phase that has its turn. -/
theorem Matched.phase_of_turn? (h : host.Matched) {call : AppCall} {fate : Fate} {phase : Phase}
    (hcall : host.calls[n]? = some ⟨.waiting call, fate⟩)
    (hturn : host.coordinator.turn? call.pass = some phase) : call.stage.phase = phase := by
  obtain ⟨⟨rest, hline⟩, _⟩ := Coordinator.turn?_eq_some.1 hturn
  exact ((h.fits hcall).phase call phase rfl (hline ▸ List.mem_cons_self)).symm

/-- A call that waits for a callback is of the phase of the callback. -/
theorem Matched.phase_of_progress? (h : host.Matched) {call : AppCall} {fate : Fate}
    {progress : Progress κ} (hcall : host.calls[n]? = some ⟨.waiting call, fate⟩)
    (hprogress : host.coordinator.progress? call.pass = some progress) :
    call.stage.phase = progress.phase :=
  ((h.fits hcall).phase call _ rfl (h.possible.lined.mem_line hprogress)).symm

/-- The pass of a call that waits begins. -/
theorem Matched.went_of_turn? (h : host.Matched) {call : AppCall} {fate : Fate} {phase : Phase}
    (hcall : host.calls[n]? = some ⟨.waiting call, fate⟩)
    (hturn : host.coordinator.turn? call.pass = some phase) (reading : Reading) :
    Went host.coordinator call (host.coordinator.apply (.enter call.pass reading))
      (call.onward (host.coordinator.lifecycle.begin phase reading).1) :=
  .of_enter h.possible.counted (fun hstage => (h.fits hcall).starts (congrArg some hstage))
    (h.phase_of_turn? hcall hturn) hturn

/-- The pass of a call that waits goes on after a callback. -/
theorem Matched.went_of_progress? (h : host.Matched) {call : AppCall} {fate : Fate}
    {progress : Progress κ} (hcall : host.calls[n]? = some ⟨.waiting call, fate⟩)
    (hprogress : host.coordinator.progress? call.pass = some progress)
    (result : Except Failure Unit) (reading : Reading) :
    Went host.coordinator call (host.coordinator.apply (.returned call.pass result reading))
      (call.onward (host.coordinator.lifecycle.resume progress result reading).1) :=
  .of_returned result h.possible.counted
    (fun hstage => (h.fits hcall).starts (congrArg some hstage))
    (h.phase_of_progress? hcall hprogress) hprogress

/-- A start pass that is given up was let through if it waited for a callback, and was overtaken if
it stood in the line. -/
theorem Matched.gave_up (h : host.Matched) {call : AppCall} {fate : Fate}
    (hcall : host.calls[n]? = some ⟨.waiting call, fate⟩) (reason : ContextError) :
    HostCall.Fits (host.coordinator.apply (.leave call.pass)) ⟨.givenUp call reason,
      if call.stage = .starting ∧ host.coordinator.progress? call.pass = none then .overtaken
      else fate⟩ := by
  refine .of_reports (.givenUp reason) fun hstage => ?_
  cases hprogress : host.coordinator.progress? call.pass with
  | none =>
    rw [if_pos ⟨hstage, rfl⟩]
    rintro ⟨⟩
  | some progress =>
    have hpassed := (h.fits hcall).begun call progress rfl hstage hprogress
    cases hpassed
    rw [if_neg fun hnone => Option.some_ne_none progress hnone.2]
    rintro ⟨⟩

/-- Every move but a stop keeps calls and passes together. -/
theorem Matched.step (h : host.Matched) {m : HostMove κ} (hm : ∀ context, m ≠ .call .stop context) :
    (host.step m).Matched := by
  have hc := h.possible.counted
  have hchange := host.change m
  generalize host.step m = host' at hchange
  cases hchange with
  | still => exact h
  | outside => exact ⟨h.possible, h.fits, h.distinct⟩
  | appended callSite hook =>
    refine ⟨h.possible.next _, ?_, h.distinct⟩
    intro n hostCall hcall
    exact (h.fits hcall).unmoved hc h.possible.lined (.append callSite hook) rfl
  | called phase context =>
    cases phase with
    | stop => exact absurd rfl (hm context)
    | start =>
      refine ⟨h.possible, ?_, ?_⟩
      · intro i hostCall hcall
        rcases getElem?_concat_cases hcall with rfl | hold
        · exact .of_idle nofun nofun nofun nofun
        · exact h.fits hold
      · intro i j a b fate fate' hcall hcall' hsame
        rcases getElem?_concat_cases hcall with hnew | hold
        · cases hnew
        rcases getElem?_concat_cases hcall' with hnew | hold'
        · cases hnew
        exact h.distinct hold hold' hsame
  | @launched n stage context fate hcall =>
    have hfits := h.fits hcall
    have hundoing : (CallState.waiting ⟨stage, host.coordinator.asked,
        (host.contextFor stage context).1⟩).Undoes → fate ≠ .unsettled := fun hundoes =>
      hfits.undoing (CallState.undoes_launching.2 (CallState.undoes_waiting.1 hundoes))
    refine h.set rfl (h.possible.next _) ⟨hfits.starts, hfits.fresh, hundoing, ?_, ?_, ?_⟩
      (fun _ hother => (h.fits hother).unmoved hc h.possible.lined (.ask stage.phase) rfl) ?_
    · rintro _ ⟨⟩
      exact Nat.lt_succ_self _
    · rintro _ phase ⟨⟩ hmem
      rcases List.mem_append.1 hmem with hmem | hmem
      · exact absurd (h.possible.lined.known _ hmem) (Nat.lt_irrefl _)
      · cases List.mem_singleton.1 hmem
        rfl
    · rintro _ progress ⟨⟩ _ hprogress
      -- a pass that has just asked does not wait for a callback
      have hbefore := Coordinator.progress?_of_apply hc h.possible.lined
        (show Move.pass? (.ask stage.phase : Move κ) ≠ _ from nofun) hprogress
      obtain ⟨⟨_, rest, hline⟩, _⟩ := Coordinator.progress?_eq_some.1 hbefore
      exact absurd (h.possible.lined.known _ (hline ▸ List.mem_cons_self)) (Nat.lt_irrefl _)
    · rintro _ i other fate' ⟨⟩ _ hother hsame
      exact absurd ((h.fits hother).known other rfl) (hsame ▸ Nat.lt_irrefl _)
  | @entered n call fate phase hcall hturn =>
    have hwent := h.went_of_turn? hcall hturn (host.reading call.context)
    refine h.move hcall rfl rfl rfl ((h.fits hcall).went hc rfl hwent ?_ ?_) hwent.same
    · intro hstage hfree
      rcases hfree with hstate | ⟨_, progress, hcurrent, _⟩
      · exact if_pos ⟨hstage, hstate⟩
      · cases (Coordinator.current_of_turn? hturn).symm.trans hcurrent
    · intro start hstage
      refine if_neg ?_
      rintro ⟨hstarting, _⟩
      cases hstage.symm.trans hstarting
  | @resumed n call fate progress result hcall hprogress =>
    have hwent := h.went_of_progress? hcall hprogress result (host.reading call.context)
    refine h.move hcall rfl rfl rfl ((h.fits hcall).went hc rfl hwent ?_ fun _ _ => rfl) hwent.same
    exact fun hstage _ => (h.fits hcall).begun call progress rfl hstage hprogress
  | gaveUp hcall => exact h.move hcall rfl rfl rfl (h.gave_up hcall _) nofun
  | runningRead hcall =>
    exact h.set rfl h.possible
      (.of_reports (.reporting ..) fun hstage =>
        (h.fits hcall).undoing (.inr ⟨_, hstage, .givenUp _⟩))
      (fun _ hother => h.fits hother) nofun
  | @recordsRead n call reason running fate hcall =>
    exact h.set rfl h.possible ((h.fits hcall).report _) (fun _ hother => h.fits hother)
      fun hwaiting => absurd hwaiting (call.conclude_not_waiting _ _)
  | dropped hcall =>
    exact h.move hcall rfl rfl rfl .of_dropped nofun
  | dismissed hcall =>
    exact h.set rfl h.possible .of_dropped (fun _ hother => h.fits hother) nofun

end

end Host

end ServiceHost
