import ServiceHost.Proofs.App.Calls
import ServiceHost.Proofs.Shutdown.Delivery

/-!
# Running an application

A run registers a receiver, starts the application, waits for a signal and stops the application
again, while at the same lifecycle and at the same broadcaster anything else may happen that is not
another call: hooks are appended, callbacks return, contexts are done, signals are sent by anyone at
any time (`Run`, `RunMove`). The passes that a run asks for are a start pass and, once this is over,
a stop pass, in all its moves together (`Stands`, `Host.Standing`): none of them ever finds another
pass before it at the gate.
-/

namespace ServiceHost

variable {κ : Type}

/-! ## Runs -/

/-- How far a run has come. -/
inductive RunState where
  /-- It waits for the call of that number to be over, or for a signal once it has started. -/
  | going (stage : RunStage) (call : Nat)
  | ended (result : Except LifecycleError Signal)
  | dropped

/-- A run of an application, at its lifecycle and its broadcaster. -/
structure Run (κ : Type) where
  host : Host κ
  broadcaster : Broadcaster
  /-- The subscriber that the run is. -/
  receiver : Nat
  state : RunState

/-- What can happen while an application runs. -/
inductive RunMove (κ : Type) where
  | host (m : HostMove κ)
  | signal (m : SignalMove)
  /-- The run goes on, if it can. -/
  | poll
  | drop

/-- The signal that is sent by a move. -/
def RunMove.signal? : RunMove κ → Option Signal
  | .signal m => m.signal?
  | .host _ => none
  | .poll => none
  | .drop => none

/-- The subscriber whose receiver a move takes from or gives up. -/
def SignalMove.subscriber? : SignalMove → Option Nat
  | .receive subscriber => some subscriber
  | .close subscriber => some subscriber
  | .register => none
  | .broadcast _ => none
  | .shutdown => none

/-- Nothing is sent by a subscriber. -/
theorem SignalMove.signal?_eq_none {m : SignalMove} {subscriber : Nat}
    (h : m.subscriber? = some subscriber) : m.signal? = none := by
  cases m with
  | receive => rfl
  | close => rfl
  | register => cases h
  | broadcast => cases h
  | shutdown => cases h

/-- The call was given up, and has not made its report. -/
def Host.isReporting (host : Host κ) (n : Nat) : Bool :=
  match host.calls[n]? with
  | some ⟨.givenUp .., _⟩ => true
  | some ⟨.reporting .., _⟩ => true
  | _ => false

namespace Run

/-- A run begins: it registers its receiver and calls for the start. -/
def begin (host : Host κ) (broadcaster : Broadcaster) : Run κ :=
  let (receiver, broadcaster) := broadcaster.register
  ⟨host.step (.call .start none), broadcaster, receiver, .going .starting host.calls.length⟩

/-- The call is over that the run waits for. -/
def follow (run : Run κ) (call : Nat) : AfterCall → Run κ
  | .wait => { run with state := .going .waiting call }
  | .finish result =>
    { run with broadcaster := run.broadcaster.close run.receiver, state := .ended result }

@[simp] theorem follow_host (run : Run κ) (call : Nat) (next : AfterCall) :
    (run.follow call next).host = run.host := by
  cases next <;> rfl

/-- The run goes on if its call is over, or if it waits for a signal and one is there. -/
def poll (run : Run κ) : Run κ :=
  match run.state with
  | .going .waiting _ =>
    match run.broadcaster.take run.receiver with
    | (none, _) => run
    | (some signal, broadcaster) =>
      { run with
        broadcaster
        host := run.host.step (.call .stop none)
        state := .going (.stopping signal) run.host.calls.length }
  | .going stage call =>
    match run.host.calls[call]? with
    | some ⟨.ended result, _⟩ => run.follow call (stage.after result)
    | _ => run
  | _ => run

/-- The run is dropped, and its call and its receiver with it. While its call reports it does not
wait, and cannot be. -/
def drop (run : Run κ) : Run κ :=
  match run.state with
  | .going _ call =>
    if run.host.isReporting call then run
    else
      { run with
        host := run.host.step (.drop call)
        broadcaster := run.broadcaster.close run.receiver
        state := .dropped }
  | _ => run

/-- The run after a move. Nobody else has its receiver. -/
def step (run : Run κ) : RunMove κ → Run κ
  | .host m => { run with host := run.host.step m }
  | .signal m =>
    if m.subscriber? = some run.receiver then run
    else { run with broadcaster := run.broadcaster.apply m }
  | .poll => run.poll
  | .drop => run.drop

/-- The run after more moves. -/
def run (run : Run κ) (moves : List (RunMove κ)) : Run κ :=
  moves.foldl step run

end Run

/-- The phases of the passes that are asked for by a move. -/
def Host.asks (host : Host κ) : HostMove κ → List Phase
  | .launch n =>
    match host.calls[n]? with
    | some ⟨.launching stage _, _⟩ => [stage.phase]
    | _ => []
  | _ => []

namespace Run

/-- The same of a move at a run. -/
def asks (run : Run κ) : RunMove κ → List Phase
  | .host m => run.host.asks m
  | _ => []

/-- The phases of the passes that are asked for in more moves, in this order. -/
def passes (run : Run κ) : List (RunMove κ) → List Phase
  | [] => []
  | m :: rest => run.asks m ++ (run.step m).passes rest

end Run

/-! ## The passes of a run -/

namespace CallStage

/-- The call that comes to the stage. -/
def call : CallStage → Phase
  | starting => .start
  | rollingBack _ => .start
  | stopping => .stop

/-- The passes that were made before a run comes to the stage. -/
def before : CallStage → List Phase
  | starting => []
  | rollingBack _ => [.start]
  | stopping => [.start]

/-- The passes of a run up to that of the stage. -/
def passes (stage : CallStage) : List Phase :=
  stage.before ++ [stage.phase]

/-- At every stage a run has asked for a start, and then perhaps for a stop. -/
theorem passes_isPrefix (stage : CallStage) : stage.passes <+: [.start, .stop] := by
  cases stage with
  | starting => exact ⟨[.stop], rfl⟩
  | rollingBack => exact ⟨[], rfl⟩
  | stopping => exact ⟨[], rfl⟩

end CallStage

/-- Where a call of a run stands: at the gate there is its pass, or none, and these are the passes
that were asked for so far. -/
inductive Stands (c : Coordinator κ) : Phase → CallState → List Phase → Prop
  | asking (stage : CallStage) (context : Option Context) (hline : c.line = []) :
      Stands c stage.call (.launching stage context) stage.before
  | standing {call : AppCall} (hline : c.line = [(call.pass, call.stage.phase)]) :
      Stands c call.stage.call (.waiting call) call.stage.passes
  | reporting {call : AppCall} {state : CallState} (hreports : state.Reports call)
      (hline : c.line = []) : Stands c call.stage.call state call.stage.passes
  | succeeded {phase : Phase} (hline : c.line = [])
      (hstopped : phase = .stop → c.lifecycle.state = .stopped ∧ c.lifecycle.started = 0) :
      Stands c phase (.ended (.ok ())) (CallStage.ofPhase phase).passes
  | failed (stage : CallStage) (hline : c.line = []) (e : LifecycleError) :
      Stands c stage.call (.ended (.error e)) stage.passes
  | dropped {phase : Phase} {passes : List Phase} (hline : c.line = [])
      (hpasses : passes <+: [.start, .stop]) : Stands c phase .dropped passes

namespace Stands

variable {c c' : Coordinator κ} {phase : Phase} {state : CallState} {passes : List Phase}
  {call : AppCall}

/-- A run asks for a start pass and then for a stop pass at most. -/
theorem passes_isPrefix (h : Stands c phase state passes) : passes <+: [.start, .stop] := by
  cases h with
  | asking stage => exact (List.prefix_append ..).trans stage.passes_isPrefix
  | standing => exact CallStage.passes_isPrefix _
  | reporting => exact CallStage.passes_isPrefix _
  | succeeded => exact CallStage.passes_isPrefix _
  | failed => exact CallStage.passes_isPrefix _
  | dropped _ hpasses => exact hpasses

/-- While the start pass stands at the gate, no other pass was asked for. -/
theorem start_first (h : Stands c phase state passes) {id : PassId} (hmem : (id, .start) ∈ c.line) :
    passes = [.start] := by
  cases h with
  | asking _ _ hempty => exact absurd (hempty ▸ hmem) List.not_mem_nil
  | reporting _ hempty => exact absurd (hempty ▸ hmem) List.not_mem_nil
  | succeeded hempty => exact absurd (hempty ▸ hmem) List.not_mem_nil
  | failed _ hempty => exact absurd (hempty ▸ hmem) List.not_mem_nil
  | dropped hempty => exact absurd (hempty ▸ hmem) List.not_mem_nil
  | @standing call halone =>
    rw [halone, List.mem_singleton] at hmem
    have hphase : call.stage.phase = .start := (congrArg Prod.snd hmem).symm
    unfold CallStage.passes
    cases hstage : call.stage with
    | starting => rfl
    | rollingBack e =>
      rw [hstage] at hphase
      cases hphase
    | stopping =>
      rw [hstage] at hphase
      cases hphase

/-- The call has succeeded. -/
theorem of_ok (h : Stands c phase (.ended (.ok ())) passes) :
    c.line = [] ∧ passes = (CallStage.ofPhase phase).passes ∧
      (phase = .stop → c.lifecycle.state = .stopped ∧ c.lifecycle.started = 0) := by
  cases h with
  | succeeded hempty hstopped => exact ⟨hempty, rfl, hstopped⟩
  | reporting hreports => cases hreports

/-- A call to stop is about to ask for the stop pass, has asked for it, or was dropped. -/
theorem of_stop (h : Stands c .stop state passes) :
    (∃ context, state = .launching .stopping context) ∨ passes = [.start, .stop] ∨
      state = .dropped := by
  have hstopping {stage : CallStage} (hcall : stage.call = .stop) : stage = .stopping := by
    cases stage with
    | stopping => rfl
    | starting => cases hcall
    | rollingBack => cases hcall
  generalize hphase : Phase.stop = phase at h
  cases h with
  | asking stage context =>
    cases hstopping hphase.symm
    exact .inl ⟨context, rfl⟩
  | @standing call =>
    rw [hstopping hphase.symm]
    exact .inr (.inl rfl)
  | @reporting call =>
    rw [hstopping hphase.symm]
    exact .inr (.inl rfl)
  | succeeded =>
    subst hphase
    exact .inr (.inl rfl)
  | failed stage =>
    rw [hstopping hphase.symm]
    exact .inr (.inl rfl)
  | dropped => exact .inr (.inr rfl)

/-- Nothing has changed but the hooks. -/
theorem congr (h : Stands c phase state passes) (hline : c'.line = c.line)
    (hstate : c'.lifecycle.state = c.lifecycle.state)
    (hstarted : c'.lifecycle.started = c.lifecycle.started) : Stands c' phase state passes := by
  cases h with
  | asking stage context hempty => exact .asking stage context (hline.trans hempty)
  | standing halone => exact .standing (hline.trans halone)
  | reporting hreports hempty => exact .reporting hreports (hline.trans hempty)
  | succeeded hempty hstopped =>
    refine .succeeded (hline.trans hempty) fun hphase => ?_
    rw [hstate, hstarted]
    exact hstopped hphase
  | failed stage hempty e => exact .failed stage (hline.trans hempty) e
  | dropped hempty hpasses => exact .dropped (hline.trans hempty) hpasses

/-- The call asks for its pass. -/
theorem ask {stage : CallStage} {context : Option Context}
    (h : Stands c phase (.launching stage context) passes) (ctx : Context) :
    Stands (c.ask stage.phase).2 phase (.waiting ⟨stage, c.asked, ctx⟩)
      (passes ++ [stage.phase]) := by
  cases h with
  | asking _ _ hempty =>
    have halone : (c.ask stage.phase).2.line = [(c.asked, stage.phase)] := by
      show c.line ++ _ = _
      rw [hempty]
      rfl
    exact @standing κ _ ⟨stage, c.asked, ctx⟩ halone
  | reporting hreports => cases hreports

/-- The pass of the call is over, or given up. -/
theorem conclude (hline : c.line = []) {result : Except LifecycleError Unit}
    (hstopped : call.stage.phase = .stop → result = .ok () →
      c.lifecycle.state = .stopped ∧ c.lifecycle.started = 0) :
    Stands c call.stage.call (call.conclude result) call.stage.passes := by
  unfold AppCall.conclude
  cases hstage : call.stage with
  | starting =>
    cases result with
    | ok => exact .succeeded hline nofun
    | error e =>
      cases e with
      | invalidTransition state action => exact .failed .starting hline _
      | _ => exact .asking (.rollingBack _) none hline
  | rollingBack start => cases result <;> exact .failed (.rollingBack start) hline _
  | stopping =>
    rw [hstage] at hstopped
    cases result with
    | ok => exact .succeeded hline fun _ => hstopped rfl rfl
    | error e => exact .failed .stopping hline e

/-- The pass of a call that waits stands alone. -/
theorem alone (h : Stands c phase (.waiting call) passes) :
    c.line = [(call.pass, call.stage.phase)] := by
  cases h with
  | standing halone => exact halone
  | reporting hreports => cases hreports

/-- The pass of the call has gone on to its next callback or to its end. -/
theorem settle (h : Stands c phase (.waiting call) passes) {r : PassStep κ × Lifecycle κ}
    (hstopped : call.stage.phase = .stop → r.1 = .finish (.ok ()) →
      r.2.state = .stopped ∧ r.2.started = 0) :
    Stands (c.settle r).2 phase (call.onward r.1) passes := by
  cases h with
  | standing halone =>
    have hempty : c.line.drop 1 = [] := by
      rw [halone]
      rfl
    obtain ⟨step, l⟩ := r
    cases step with
    | call callback progress => exact .standing halone
    | outOfRange index => exact .dropped hempty (CallStage.passes_isPrefix _)
    | finish result =>
      exact conclude hempty fun hphase hok => hstopped hphase (congrArg PassStep.finish hok)
  | reporting hreports => cases hreports

/-- The pass of the call leaves the gate. -/
theorem line_leave (h : Stands c phase (.waiting call) passes) :
    (c.leave call.pass).line = [] := by
  show c.line.filter _ = []
  rw [h.alone]
  simp

/-- The call is given up. -/
theorem giveUp (h : Stands c phase (.waiting call) passes) (reason : ContextError) :
    Stands (c.leave call.pass) phase (.givenUp call reason) passes := by
  have hline := h.line_leave
  cases h with
  | standing => exact .reporting (.givenUp reason) hline
  | reporting hreports => cases hreports

/-- A call that was given up reads the running hook. -/
theorem readRunning {reason : ContextError} (h : Stands c phase (.givenUp call reason) passes)
    (running : Option String) : Stands c phase (.reporting call reason running) passes := by
  cases h with
  | reporting hreports hline =>
    cases hreports
    exact .reporting (.reporting reason running) hline

/-- A call that was given up makes its report. -/
theorem readRecords {reason : ContextError} {running : Option String}
    (h : Stands c phase (.reporting call reason running) passes) (e : LifecycleError) :
    Stands c phase (call.conclude (.error e)) passes := by
  cases h with
  | reporting hreports hline =>
    cases hreports
    exact conclude hline nofun

end Stands

/-- A stop pass that succeeds leaves the lifecycle stopped, with nothing counted. -/
theorem Lifecycle.StopStretch.stopped {reading : Reading} {hooks : List (RegisteredHook κ)}
    {failures : StopFailures} {l : Lifecycle κ} {r : PassStep κ × Lifecycle κ}
    (h : StopStretch reading hooks failures l r) (hok : r.1 = .finish (.ok ())) :
    r.2.state = .stopped ∧ r.2.started = 0 := by
  cases h with
  | done => exact ⟨rfl, rfl⟩
  | cancelled => cases hok
  | call => cases hok

namespace Coordinator

variable {c : Coordinator κ} {reading : Reading}

theorem Counted.stopped_of_begin (hc : c.Counted)
    (hok : (c.lifecycle.begin .stop reading).1 = .finish (.ok ())) :
    (c.lifecycle.begin .stop reading).2.state = .stopped ∧
      (c.lifecycle.begin .stop reading).2.started = 0 :=
  (Lifecycle.beginStop_stretch reading hc.started).stopped hok

/-- A stop pass that goes on and succeeds leaves the lifecycle stopped. -/
theorem Counted.stopped_of_resume (hc : c.Counted) {progress : Progress κ}
    (hcurrent : c.current = some progress) (hphase : progress.phase = .stop)
    {result : Except Failure Unit}
    (hok : (c.lifecycle.resume progress result reading).1 = .finish (.ok ())) :
    (c.lifecycle.resume progress result reading).2.state = .stopped ∧
      (c.lifecycle.resume progress result reading).2.started = 0 := by
  cases progress with
  | starting => cases hphase
  | stopping hook hooks failures begun =>
    have hle := (hc.stopping _ _ _ _ hcurrent).2.1
    exact (Lifecycle.resume_stopping_stretch _ _ _ _ _ hle).stopped hok

end Coordinator

namespace Host

/-- The calls of the host are those before, which have returned, and one of a run. -/
structure Standing (before : List HostCall) (phase : Phase) (passes : List Phase) (host : Host κ) :
    Prop where
  possible : host.course.Possible
  returned : ∀ hostCall ∈ before, ∃ result, hostCall.state = .ended result
  last : ∃ state fate, host.calls = before ++ [⟨state, fate⟩] ∧
    Stands host.coordinator phase state passes

theorem asks_eq_nil (host : Host κ) {m : HostMove κ} (hm : ∀ n, m ≠ .launch n) :
    host.asks m = [] := by
  cases m with
  | launch n => exact absurd rfl (hm n)
  | _ => rfl

/-- A call comes without a context of its own. -/
theorem step_call (host : Host κ) (phase : Phase) :
    host.step (.call phase none) = { host with
      calls := host.calls ++ [⟨.launching (.ofPhase phase) none, .unsettled⟩] } := by
  rw [step, if_pos (by rintro _ ⟨⟩)]

/-- A call that has to do with no pass changes only when it steps up to the gate or is dropped
before that. -/
theorem step_idle {host : Host κ} {n : Nat} {hostCall : HostCall}
    (h : host.calls[n]? = some hostCall) (hidle : hostCall.state.call? = none)
    {m : HostMove κ} (hm : ∀ stage context, hostCall.state = .launching stage context →
      m ≠ .launch n ∧ m ≠ .drop n) : (host.step m).calls[n]? = some hostCall := by
  obtain ⟨new, hnew, hfares⟩ := fares_of h m
  cases hfares with
  | same => exact hnew
  | launched => exact absurd rfl (hm _ _ rfl).1
  | dismissed => exact absurd rfl (hm _ _ rfl).2
  | _ => cases hidle

/-- A call that has returned has returned for good. -/
theorem step_ended {host : Host κ} {n : Nat} {result : Except LifecycleError Unit} {fate : Fate}
    (h : host.calls[n]? = some ⟨.ended result, fate⟩) (m : HostMove κ) :
    (host.step m).calls[n]? = some ⟨.ended result, fate⟩ :=
  step_idle h rfl nofun

/-- A call steps up to the gate and asks for its pass, or nothing happens. -/
theorem launch_cases (host : Host κ) (n : Nat) :
    (∃ stage context fate, host.calls[n]? = some ⟨.launching stage context, fate⟩ ∧
      host.asks (.launch n) = [stage.phase] ∧ host.launch n =
        { host with
          scopes := (host.contextFor stage context).2
          course := host.course.next (.ask stage.phase)
          calls := host.calls.set n
            ⟨.waiting ⟨stage, host.coordinator.asked, (host.contextFor stage context).1⟩, fate⟩ }) ∨
      (host.asks (.launch n) = [] ∧ host.launch n = host) := by
  simp only [asks, launch]
  cases host.calls[n]? with
  | none => exact .inr ⟨rfl, rfl⟩
  | some hostCall =>
    obtain ⟨state, fate⟩ := hostCall
    cases state with
    | launching stage context => exact .inl ⟨stage, context, fate, rfl, rfl, rfl⟩
    | _ => exact .inr ⟨rfl, rfl⟩

/-- The passes that are asked for are those that get a number. -/
theorem step_asked {host : Host κ} (hpossible : host.course.Possible) (m : HostMove κ) :
    (host.step m).coordinator.asked = host.coordinator.asked + (host.asks m).length := by
  by_cases hlaunch : ∃ n, m = .launch n
  · obtain ⟨n, rfl⟩ := hlaunch
    show (host.launch n).coordinator.asked = _
    rcases host.launch_cases n with ⟨stage, context, fate, -, hasks, hstep⟩ | ⟨hasks, hstep⟩
    · rw [hasks, hstep]
      rfl
    · rw [hasks, hstep]
      rfl
  · rw [host.asks_eq_nil fun n hn => hlaunch ⟨n, hn⟩]
    have hnext {m' : Move κ} (hm' : ∀ phase, m' ≠ .ask phase) :
        (host.course.next m').coordinator.asked = host.coordinator.asked :=
      Coordinator.asked_apply hpossible.counted hm'
    have hchange := host.change m
    generalize host.step m = host' at hchange
    cases hchange with
    | still => rfl
    | outside => rfl
    | appended => exact hnext nofun
    | called => rfl
    | @launched n => exact absurd ⟨n, rfl⟩ hlaunch
    | entered => exact hnext nofun
    | resumed => exact hnext nofun
    | gaveUp => exact hnext nofun
    | runningRead => rfl
    | recordsRead => rfl
    | dropped => exact hnext nofun
    | dismissed => rfl

namespace Standing

variable {before : List HostCall} {phase : Phase} {passes : List Phase} {host : Host κ}

/-- The last call stands where the run is. -/
theorem call (h : host.Standing before phase passes) :
    ∃ state fate, host.calls[before.length]? = some ⟨state, fate⟩ ∧
      Stands host.coordinator phase state passes := by
  obtain ⟨state, fate, hcalls, hstands⟩ := h.last
  refine ⟨state, fate, ?_, hstands⟩
  rw [hcalls, List.getElem?_append_right (Nat.le_refl _), Nat.sub_self]
  rfl

/-- A call that has not returned is the last one. -/
theorem here (h : host.Standing before phase passes) {n : Nat} {state : CallState} {fate : Fate}
    (hcall : host.calls[n]? = some ⟨state, fate⟩) (hopen : ∀ result, state ≠ .ended result) :
    n = before.length ∧ Stands host.coordinator phase state passes := by
  obtain ⟨-, hreturned, state', fate', hcalls, hstands⟩ := h
  rw [hcalls] at hcall
  rcases Nat.lt_or_ge n before.length with hlt | hge
  · rw [List.getElem?_append_left hlt] at hcall
    obtain ⟨result, hended⟩ := hreturned _ (List.mem_of_getElem? hcall)
    exact absurd hended (hopen result)
  · rw [List.getElem?_append_right hge, List.getElem?_singleton] at hcall
    split at hcall
    · cases hcall
      exact ⟨by omega, hstands⟩
    · cases hcall

/-- The last call has moved. -/
theorem moved (h : host.Standing before phase passes) {host' : Host κ} {passes' : List Phase}
    {n : Nat} (hn : n = before.length) {state : CallState} {fate : Fate}
    (hcalls : host'.calls = host.calls.set n ⟨state, fate⟩) (hpossible : host'.course.Possible)
    (hstands : Stands host'.coordinator phase state passes') :
    host'.Standing before phase passes' := by
  obtain ⟨-, hreturned, state', fate', hbefore, -⟩ := h
  subst hn
  refine ⟨hpossible, hreturned, state, fate, ?_, hstands⟩
  rw [hcalls, hbefore, List.set_append_right _ _ (Nat.le_refl _), Nat.sub_self]
  rfl

/-- Nothing has changed but the hooks, and what no call looks at. -/
theorem beside (h : host.Standing before phase passes) {host' : Host κ}
    (hcalls : host'.calls = host.calls) (hpossible : host'.course.Possible)
    (hline : host'.coordinator.line = host.coordinator.line)
    (hstate : host'.coordinator.lifecycle.state = host.coordinator.lifecycle.state)
    (hstarted : host'.coordinator.lifecycle.started = host.coordinator.lifecycle.started) :
    host'.Standing before phase passes := by
  obtain ⟨-, hreturned, state, fate, hbefore, hstands⟩ := h
  exact ⟨hpossible, hreturned, state, fate, hcalls.trans hbefore,
    hstands.congr hline hstate hstarted⟩

/-- Every move but another call keeps the call of a run standing. -/
theorem step (h : host.Standing before phase passes) {m : HostMove κ}
    (hm : ∀ phase context, m ≠ .call phase context) :
    (host.step m).Standing before phase (passes ++ host.asks m) := by
  have hpossible := h.possible
  by_cases hlaunch : ∃ n, m = .launch n
  · obtain ⟨n, rfl⟩ := hlaunch
    show (host.launch n).Standing before phase (passes ++ host.asks (.launch n))
    rcases host.launch_cases n with
      ⟨stage, context, fate, hlaunching, hasks, hstep⟩ | ⟨hasks, hstep⟩
    · obtain ⟨hn, hstands⟩ := h.here hlaunching nofun
      rw [hasks, hstep]
      exact h.moved hn rfl (hpossible.next _) (hstands.ask _)
    · rw [hasks, hstep, List.append_nil]
      exact h
  · rw [host.asks_eq_nil fun n hn => hlaunch ⟨n, hn⟩, List.append_nil]
    have hchange := host.change m
    generalize host.step m = host' at hchange
    cases hchange with
    | still => exact h
    | outside => exact h.beside rfl hpossible rfl rfl rfl
    | appended callSite hook =>
      obtain ⟨hooks, hnext⟩ := host.course.next_append callSite hook
      refine h.beside rfl (hpossible.next _) ?_ ?_ ?_
      all_goals
        simp only [coordinator, hnext]
    | called phase context => exact absurd rfl (hm phase context)
    | @launched n => exact absurd ⟨n, rfl⟩ hlaunch
    | @entered n call fate phase' hwaiting hturn =>
      obtain ⟨hn, hstands⟩ := h.here hwaiting nofun
      have hphase : call.stage.phase = phase' := by
        obtain ⟨⟨rest, hline⟩, -⟩ := Coordinator.turn?_eq_some.1 hturn
        cases hstands.alone.symm.trans hline
        rfl
      have hsettled := hstands.settle
        (r := host.coordinator.lifecycle.begin phase' (host.reading call.context))
        fun hstop hok => by
          cases hphase.symm.trans hstop
          exact hpossible.counted.stopped_of_begin hok
      rw [← Coordinator.apply_enter (host.reading call.context) hturn] at hsettled
      exact h.moved hn rfl (hpossible.next _) hsettled
    | @resumed n call fate progress result hwaiting hprogress =>
      obtain ⟨hn, hstands⟩ := h.here hwaiting nofun
      have hcurrent := Coordinator.current_of_progress? hprogress
      have hphase : call.stage.phase = progress.phase := by
        have hmem := hpossible.lined.mem_line hprogress
        rw [show host.course.coordinator.line = _ from hstands.alone, List.mem_singleton] at hmem
        exact (congrArg Prod.snd hmem).symm
      have hsettled := hstands.settle
        (r := host.coordinator.lifecycle.resume progress result (host.reading call.context))
        fun hstop hok =>
          hpossible.counted.stopped_of_resume hcurrent (hphase.symm.trans hstop) hok
      rw [← Coordinator.apply_returned result (host.reading call.context) hprogress] at hsettled
      exact h.moved hn rfl (hpossible.next _) hsettled
    | gaveUp hwaiting =>
      obtain ⟨hn, hstands⟩ := h.here hwaiting nofun
      exact h.moved hn rfl (hpossible.next _) (hstands.giveUp _)
    | runningRead hgivenUp =>
      obtain ⟨hn, hstands⟩ := h.here hgivenUp nofun
      exact h.moved hn rfl hpossible (hstands.readRunning _)
    | recordsRead hreporting =>
      obtain ⟨hn, hstands⟩ := h.here hreporting nofun
      exact h.moved hn rfl hpossible (hstands.readRecords _)
    | dropped hwaiting =>
      obtain ⟨hn, hstands⟩ := h.here hwaiting nofun
      exact h.moved hn rfl (hpossible.next _) (.dropped hstands.line_leave hstands.passes_isPrefix)
    | dismissed hlaunching =>
      obtain ⟨hn, hstands⟩ := h.here hlaunching nofun
      have hpasses := hstands.passes_isPrefix
      cases hstands with
      | asking _ _ hempty => exact h.moved hn rfl hpossible (.dropped hempty hpasses)
      | reporting hreports => cases hreports

end Standing

end Host

end ServiceHost
