import ServiceHost.App.Call
import ServiceHost.Proofs.Lifecycle.Line

/-!
# Calls of an application

An application is started and stopped by calls, each of which asks for one pass after another and
watches the pass together with a context. A host is a lifecycle with any number of such calls, a
clock, and the scopes of contexts. What can happen at it, in any order, is a `HostMove`: hooks are
appended, time passes, contexts are made and cancelled, calls come and step up to the gate, their
passes begin or go on after a callback, and any call is given up when its context is done, or
dropped (with which a panic of a callback is counted). A call looks at its pass before it looks at
its context, so that it is given up only while the pass waits, behind other passes or for a
callback, and not when the gate is its own. A call that is given up leaves the gate first, and then
reads what it reports off the lifecycle in two moves, between which others may come.
`Host.Change` says once what a move can do.
-/

namespace ServiceHost

variable {κ : Type}

/-- How far a call has come. -/
inductive CallState where
  /-- It is about to step up to the gate, under the context or, without one, under a new context
  with the timeout of the settings. -/
  | launching (stage : CallStage) (context : Option Context)
  /-- It waits for its pass. -/
  | waiting (call : AppCall)
  /-- Its pass was given up, and nothing was read of the lifecycle since. -/
  | givenUp (call : AppCall) (reason : ContextError)
  /-- The hook that was running has been read, and the records have not. -/
  | reporting (call : AppCall) (reason : ContextError) (running : Option String)
  | ended (result : Except LifecycleError Unit)
  /-- It was dropped, or a callback panicked. -/
  | dropped

/-- The call was given up, and has not made its report. -/
inductive CallState.Reports (call : AppCall) : CallState → Prop
  | givenUp (reason : ContextError) : Reports call (.givenUp call reason)
  | reporting (reason : ContextError) (running : Option String) :
      Reports call (.reporting call reason running)

/-- The call that has asked for its pass and has not come to the end of it. -/
def CallState.call? : CallState → Option AppCall
  | .waiting call => some call
  | .givenUp call _ => some call
  | .reporting call _ _ => some call
  | _ => none

theorem CallState.Reports.call? {call : AppCall} {state : CallState} (h : state.Reports call) :
    state.call? = some call := by
  cases h <;> rfl

/-- What has become of the start pass of a call. -/
inductive Fate where
  /-- Nothing yet, or it was refused, or there is none. -/
  | unsettled
  /-- It was let through. -/
  | passed
  /-- It was given up while it stood in the line. -/
  | overtaken
deriving DecidableEq, Repr

/-- A call at a host. -/
structure HostCall where
  state : CallState
  fate : Fate

/-- A lifecycle with the calls that start and stop it. -/
structure Host (κ : Type) where
  /-- Milliseconds on the clock. -/
  now : Nat
  scopes : Scopes
  course : Course κ
  /-- The calls in the order in which they came. -/
  calls : List HostCall
  /-- The milliseconds allowed for a phase by the settings. -/
  allowed : Phase → Nat

/-- What can happen at a host. -/
inductive HostMove (κ : Type) where
  | append (callSite : String) (hook : Hook κ)
  | tick (millis : Nat)
  /-- A scope for a new context. -/
  | scope
  | cancel (context : Context)
  | call (phase : Phase) (context : Option Context)
  | launch (n : Nat)
  | enter (n : Nat)
  | returned (n : Nat) (result : Except Failure Unit)
  | giveUp (n : Nat) (reason : ContextError)
  | readRunning (n : Nat)
  | readRecords (n : Nat)
  | drop (n : Nat)

/-- The context was made from the scopes. -/
def Scopes.Knows (s : Scopes) (ctx : Context) : Prop :=
  ∀ scope ∈ ctx.lineage, scope < s.count

instance (s : Scopes) (ctx : Context) : Decidable (s.Knows ctx) :=
  inferInstanceAs (Decidable (∀ scope ∈ ctx.lineage, scope < s.count))

namespace AppCall

/-- What becomes of the call when its pass is over, or given up. -/
def conclude (call : AppCall) (result : Except LifecycleError Unit) : CallState :=
  match call.stage.after result with
  | .finish result => .ended result
  | .rollBack start => .launching (.rollingBack start) none

/-- What becomes of the call when its pass has gone on. -/
def onward (call : AppCall) : PassStep κ → CallState
  | .call _ _ => .waiting call
  | .finish result => call.conclude result
  | .outOfRange _ => .dropped

end AppCall

/-! ## How a call goes on -/

/-- The errors of a start pass that was let through. -/
inductive LifecycleError.FailedStart : LifecycleError → Prop
  | hookFailed (caller : String) (source : Failure) : FailedStart (.hookFailed .start caller source)
  | cancelled (caller : String) (reason : ContextError) (failures : StopFailures) :
      FailedStart (.cancelled .start caller reason failures)
  | timeout (caller : Option String) (reason : ContextError) (records : HookRecords) :
      FailedStart (.timeout .start caller reason records)

/-- The errors of a stop pass. -/
inductive LifecycleError.FailedStop : LifecycleError → Prop
  | stopFailed (failures : StopFailures) : FailedStop (.stopFailed failures)
  | cancelled (caller : String) (reason : ContextError) (failures : StopFailures) :
      FailedStop (.cancelled .stop caller reason failures)
  | timeout (caller : Option String) (reason : ContextError) (records : HookRecords) :
      FailedStop (.timeout .stop caller reason records)

namespace AppCall

section
variable {call : AppCall} {e : LifecycleError}

theorem conclude_started (hstage : call.stage = .starting) :
    call.conclude (.ok ()) = .ended (.ok ()) := by
  simp only [conclude, hstage, CallStage.after]

theorem conclude_refused {state : LifecycleState} {action : String}
    (hstage : call.stage = .starting) :
    call.conclude (.error (.invalidTransition state action)) =
      .ended (.error (.invalidTransition state action)) := by
  simp only [conclude, hstage, CallStage.after]

/-- A start that was let through and fails is rolled back. -/
theorem conclude_failed (hstage : call.stage = .starting) (he : e.FailedStart) :
    call.conclude (.error e) = .launching (.rollingBack e) none := by
  cases he <;> simp only [conclude, hstage, CallStage.after]

theorem conclude_undone (hstage : call.stage = .rollingBack e) :
    call.conclude (.ok ()) = .ended (.error e) := by
  simp only [conclude, hstage, CallStage.after]

theorem conclude_halfUndone (hstage : call.stage = .rollingBack e) (undo : LifecycleError) :
    call.conclude (.error undo) = .ended (.error (.rollback e undo)) := by
  simp only [conclude, hstage, CallStage.after]

/-- A rollback begins without a context, when a pass of a call is over. -/
theorem conclude_launching {result : Except LifecycleError Unit} {stage : CallStage}
    {context : Option Context} (h : call.conclude result = .launching stage context) :
    context = none := by
  unfold conclude at h
  split at h
  · cases h
  · cases h
    rfl

/-- A call whose pass is over has none any more. -/
@[simp] theorem call?_conclude (call : AppCall) (result : Except LifecycleError Unit) :
    (call.conclude result).call? = none := by
  unfold conclude
  split <;> rfl

theorem conclude_not_waiting (call : AppCall) (result : Except LifecycleError Unit)
    (call' : AppCall) : call.conclude result ≠ .waiting call' := fun h => by
  cases (call.call?_conclude result).symm.trans (congrArg CallState.call? h)

/-- A call whose pass is over does not report that it was given up. -/
theorem not_reports_conclude (call : AppCall) (result : Except LifecycleError Unit)
    (call' : AppCall) : ¬ (call.conclude result).Reports call' := fun h => by
  cases h.call?.symm.trans (call.call?_conclude result)

/-- A call does not win by an error. -/
theorem conclude_error_ne_ok (call : AppCall) (e : LifecycleError) :
    call.conclude (.error e) ≠ .ended (.ok ()) := by
  unfold conclude
  cases call.stage with
  | starting => cases e <;> nofun
  | rollingBack => nofun
  | stopping => nofun

/-- A call that goes on waits for the same pass, or has come to the end of it. -/
theorem onward_cases (call : AppCall) (step : PassStep κ) :
    call.onward step = .waiting call ∨ call.onward step = .dropped ∨
      ∃ result, call.onward step = call.conclude result := by
  cases step with
  | call => exact .inl rfl
  | finish result => exact .inr (.inr ⟨result, rfl⟩)
  | outOfRange => exact .inr (.inl rfl)

/-- A call that goes on does not report that it was given up. -/
theorem not_reports_onward (call : AppCall) (step : PassStep κ) (call' : AppCall) :
    ¬ (call.onward step).Reports call' := by
  rcases call.onward_cases step with hstep | hstep | ⟨result, hstep⟩
  · rw [hstep]
    nofun
  · rw [hstep]
    nofun
  · rw [hstep]
    exact call.not_reports_conclude result call'

end

end AppCall

/-! ## Moves -/

namespace Host

/-- The lifecycle and the passes at its gate. -/
def coordinator (host : Host κ) : Coordinator κ :=
  host.course.coordinator

/-- What a pass under that context is told. -/
def reading (host : Host κ) (ctx : Context) : Reading :=
  ⟨host.now, host.scopes.error? host.now ctx⟩

/-- The context of a call that steps up to the gate now. -/
def contextFor (host : Host κ) (stage : CallStage) : Option Context → Context × Scopes
  | some ctx => (ctx, host.scopes)
  | none =>
    let (parent, scopes) := host.scopes.background
    scopes.withTimeout parent host.now (host.allowed stage.phase)

/-- A call that waits for its pass goes on with it. -/
def advance (host : Host κ) (n : Nat) (call : AppCall) (fate : Fate) (m : Move κ) :
    Option (PassStep κ × Coordinator κ) → Host κ
  | none => host
  | some (step, _) =>
    { host with
      course := host.course.next m
      calls := host.calls.set n ⟨call.onward step, fate⟩ }

/-- A call steps up to the gate. -/
def launch (host : Host κ) (n : Nat) : Host κ :=
  match host.calls[n]? with
  | some ⟨.launching stage context, fate⟩ =>
    let (ctx, scopes) := host.contextFor stage context
    let (call, _) := AppCall.ask stage ctx host.coordinator
    { host with
      scopes
      course := host.course.next (.ask stage.phase)
      calls := host.calls.set n ⟨.waiting call, fate⟩ }
  | _ => host

/-- The pass of a call begins, if it is its turn. -/
def enter (host : Host κ) (n : Nat) : Host κ :=
  match host.calls[n]? with
  | some ⟨.waiting call, fate⟩ =>
    let reading := host.reading call.context
    let through := call.stage = .starting ∧ host.coordinator.lifecycle.Startable
    host.advance n call (if through then .passed else fate) (.enter call.pass reading)
      (host.coordinator.enter call.pass reading)
  | _ => host

/-- The callback that the pass of a call waits for has returned. -/
def returned (host : Host κ) (n : Nat) (result : Except Failure Unit) : Host κ :=
  match host.calls[n]? with
  | some ⟨.waiting call, fate⟩ =>
    let reading := host.reading call.context
    host.advance n call fate (.returned call.pass result reading)
      (host.coordinator.returned call.pass result reading)
  | _ => host

/-- A call is given up, if its context is done for that reason and the gate is not its own. -/
def giveUp (host : Host κ) (n : Nat) (reason : ContextError) : Host κ :=
  match host.calls[n]? with
  | some ⟨.waiting call, fate⟩ =>
    if reason ∈ host.scopes.doneReasons host.now call.context ∧
        host.coordinator.turn? call.pass = none then
      let behind := call.stage = .starting ∧ host.coordinator.progress? call.pass = none
      { host with
        course := host.course.next (.leave call.pass)
        calls := host.calls.set n
          ⟨.givenUp call reason, if behind then .overtaken else fate⟩ }
    else host
  | _ => host

/-- A call that was given up reads the hook that is running. -/
def readRunning (host : Host κ) (n : Nat) : Host κ :=
  match host.calls[n]? with
  | some ⟨.givenUp call reason, fate⟩ =>
    let running := host.coordinator.lifecycle.running
    { host with calls := host.calls.set n ⟨.reporting call reason running, fate⟩ }
  | _ => host

/-- A call that was given up reads the records of its phase, and goes on with its report. -/
def readRecords (host : Host κ) (n : Nat) : Host κ :=
  match host.calls[n]? with
  | some ⟨.reporting call reason running, fate⟩ =>
    let report := call.report reason running
      (host.coordinator.lifecycle.records call.stage.phase)
    { host with calls := host.calls.set n ⟨call.conclude (.error report), fate⟩ }
  | _ => host

/-- A call is dropped, and its pass with it. While it reports it does not wait, and cannot be. -/
def drop (host : Host κ) (n : Nat) : Host κ :=
  match host.calls[n]? with
  | some ⟨.launching _ _, fate⟩ => { host with calls := host.calls.set n ⟨.dropped, fate⟩ }
  | some ⟨.waiting call, fate⟩ =>
    { host with
      course := host.course.next (.leave call.pass)
      calls := host.calls.set n ⟨.dropped, fate⟩ }
  | _ => host

/-- The host after a move. A move that is not possible changes nothing. -/
def step (host : Host κ) : HostMove κ → Host κ
  | .append callSite hook => { host with course := host.course.next (.append callSite hook) }
  | .tick millis => { host with now := host.now + millis }
  | .scope => { host with scopes := host.scopes.background.2 }
  | .cancel ctx =>
    if host.scopes.Knows ctx then { host with scopes := host.scopes.cancel ctx } else host
  | .call phase context =>
    if ∀ ctx ∈ context, host.scopes.Knows ctx then
      { host with calls := host.calls ++ [⟨.launching (.ofPhase phase) context, .unsettled⟩] }
    else host
  | .launch n => host.launch n
  | .enter n => host.enter n
  | .returned n result => host.returned n result
  | .giveUp n reason => host.giveUp n reason
  | .readRunning n => host.readRunning n
  | .readRecords n => host.readRecords n
  | .drop n => host.drop n

/-- The host after more moves. -/
def run (host : Host κ) (moves : List (HostMove κ)) : Host κ :=
  moves.foldl step host

/-- What holds of a host and is kept by every move holds after any moves. -/
theorem run_induction {P : Host κ → Prop} {host : Host κ} (h : P host)
    {moves : List (HostMove κ)} (hstep : ∀ host, ∀ m ∈ moves, P host → P (host.step m)) :
    P (host.run moves) := by
  induction moves generalizing host with
  | nil => exact h
  | cons m rest ih =>
    refine ih (hstep host m List.mem_cons_self h) fun host m' hm' => ?_
    exact hstep host m' (List.mem_cons_of_mem m hm')

/-! ## What a move can do -/

/-- What a move can do to a host. -/
inductive Change (host : Host κ) : HostMove κ → Host κ → Prop
  /-- A move that is not possible. -/
  | still (m : HostMove κ) : Change host m host
  /-- Time passes, or a context is made or cancelled. -/
  | outside {m now scopes} (hnow : host.now ≤ now) (hcount : host.scopes.count ≤ scopes.count) :
      Change host m { host with now, scopes }
  | appended (callSite : String) (hook : Hook κ) :
      Change host (.append callSite hook)
        { host with course := host.course.next (.append callSite hook) }
  | called (phase : Phase) (context : Option Context) :
      Change host (.call phase context)
        { host with calls := host.calls ++ [⟨.launching (.ofPhase phase) context, .unsettled⟩] }
  | launched {n stage context fate}
      (hcall : host.calls[n]? = some ⟨.launching stage context, fate⟩) :
      Change host (.launch n)
        { host with
          scopes := (host.contextFor stage context).2
          course := host.course.next (.ask stage.phase)
          calls := host.calls.set n
            ⟨.waiting ⟨stage, host.coordinator.asked, (host.contextFor stage context).1⟩, fate⟩ }
  /-- The pass of the call begins. -/
  | entered {n call fate phase} (hcall : host.calls[n]? = some ⟨.waiting call, fate⟩)
      (hturn : host.coordinator.turn? call.pass = some phase) :
      Change host (.enter n)
        { host with
          course := host.course.next (.enter call.pass (host.reading call.context))
          calls := host.calls.set n
            ⟨call.onward (host.coordinator.lifecycle.begin phase (host.reading call.context)).1,
              if call.stage = .starting ∧ host.coordinator.lifecycle.Startable then .passed
              else fate⟩ }
  /-- The pass of the call goes on after a callback. -/
  | resumed {n call fate progress result} (hcall : host.calls[n]? = some ⟨.waiting call, fate⟩)
      (hprogress : host.coordinator.progress? call.pass = some progress) :
      Change host (.returned n result)
        { host with
          course := host.course.next (.returned call.pass result (host.reading call.context))
          calls := host.calls.set n
            ⟨call.onward
              (host.coordinator.lifecycle.resume progress result (host.reading call.context)).1,
              fate⟩ }
  /-- The call is given up while its pass waits. -/
  | gaveUp {n call fate reason} (hcall : host.calls[n]? = some ⟨.waiting call, fate⟩)
      (hdone : reason ∈ host.scopes.doneReasons host.now call.context)
      (hturn : host.coordinator.turn? call.pass = none) :
      Change host (.giveUp n reason)
        { host with
          course := host.course.next (.leave call.pass)
          calls := host.calls.set n
            ⟨.givenUp call reason,
              if call.stage = .starting ∧ host.coordinator.progress? call.pass = none then
                .overtaken
              else fate⟩ }
  | runningRead {n call reason fate}
      (hcall : host.calls[n]? = some ⟨.givenUp call reason, fate⟩) :
      Change host (.readRunning n)
        { host with
          calls := host.calls.set n
            ⟨.reporting call reason host.coordinator.lifecycle.running, fate⟩ }
  /-- The call goes on with its report. -/
  | recordsRead {n call reason running fate}
      (hcall : host.calls[n]? = some ⟨.reporting call reason running, fate⟩) :
      Change host (.readRecords n)
        { host with
          calls := host.calls.set n
            ⟨call.conclude (.error (call.report reason running
                (host.coordinator.lifecycle.records call.stage.phase))), fate⟩ }
  | dropped {n call fate} (hcall : host.calls[n]? = some ⟨.waiting call, fate⟩) :
      Change host (.drop n)
        { host with
          course := host.course.next (.leave call.pass)
          calls := host.calls.set n ⟨.dropped, fate⟩ }
  /-- A call is dropped before it has stepped up to the gate. -/
  | dismissed {n stage context fate}
      (hcall : host.calls[n]? = some ⟨.launching stage context, fate⟩) :
      Change host (.drop n) { host with calls := host.calls.set n ⟨.dropped, fate⟩ }

/-- A move does what `Change` says. -/
theorem change (host : Host κ) (m : HostMove κ) : Change host m (host.step m) := by
  cases m with
  | append callSite hook => exact .appended callSite hook
  | tick millis => exact .outside (Nat.le_add_right ..) (Nat.le_refl _)
  | scope => exact .outside (Nat.le_refl _) (Nat.le_succ _)
  | cancel ctx =>
    simp only [step]
    split
    · exact .outside (Nat.le_refl _) (Nat.le_refl _)
    · exact .still _
  | call phase context =>
    simp only [step]
    split
    · exact .called phase context
    · exact .still _
  | launch n =>
    show Change host _ (host.launch n)
    unfold launch
    split
    · next hcall => exact .launched hcall
    · exact .still _
  | enter n =>
    show Change host _ (host.enter n)
    unfold enter
    split
    · next call fate hcall =>
      simp only [Coordinator.enter]
      cases hturn : host.coordinator.turn? call.pass with
      | none => exact .still _
      | some phase =>
        have hentered := Change.entered hcall hturn
        rw [← Coordinator.settle_fst host.coordinator] at hentered
        exact hentered
    · exact .still _
  | returned n result =>
    show Change host _ (host.returned n result)
    unfold returned
    split
    · next call fate hcall =>
      simp only [Coordinator.returned]
      cases hprogress : host.coordinator.progress? call.pass with
      | none => exact .still _
      | some progress =>
        have hresumed := @Change.resumed _ host n call fate progress result hcall hprogress
        rw [← Coordinator.settle_fst host.coordinator] at hresumed
        exact hresumed
    · exact .still _
  | giveUp n reason =>
    show Change host _ (host.giveUp n reason)
    unfold giveUp
    split
    · next call fate hcall =>
      split
      · next hdone => exact .gaveUp hcall hdone.1 hdone.2
      · exact .still _
    · exact .still _
  | readRunning n =>
    show Change host _ (host.readRunning n)
    unfold readRunning
    split
    · next hcall => exact .runningRead hcall
    · exact .still _
  | readRecords n =>
    show Change host _ (host.readRecords n)
    unfold readRecords
    split
    · next hcall => exact .recordsRead hcall
    · exact .still _
  | drop n =>
    show Change host _ (host.drop n)
    unfold drop
    split
    · next hcall => exact .dismissed hcall
    · next hcall => exact .dropped hcall
    · exact .still _

/-- The settings stay as they are. -/
theorem step_allowed (host : Host κ) (m : HostMove κ) : (host.step m).allowed = host.allowed := by
  have hchange := host.change m
  generalize host.step m = host' at hchange
  cases hchange <;> rfl

end Host

end ServiceHost
