import ServiceHost.Proofs.App.Contention
import ServiceHost.Proofs.Context.Wait

/-!
# Why a call is given up

A call that waits for its pass is given up when the wait for the end of its context returns, and the
error says why (`AppCall.report`). No other error tells of time running out: passes end with errors
of their own (`Lifecycle.startFrom_untimed`, `Lifecycle.stopFrom_untimed`), and a rollback passes on
what the start came to. So each such reason in the error of a call was the one of a move by which
the call was given up (`Host.gaveUp_of_timeouts`), and what `Scopes.error?` told at that instant
differs from it only if the context had ended twice. It may differ later, when the call returns
after its rollback (`cancelledLate`).
-/

namespace ServiceHost

variable {κ : Type}

/-- The passes that were given up before the error came about, and the reasons why. -/
def LifecycleError.timeouts : LifecycleError → List (Phase × ContextError)
  | .timeout phase _ reason _ => [(phase, reason)]
  | .rollback start undo => start.timeouts ++ undo.timeouts
  | .hookFailed .. => []
  | .cancelled .. => []
  | .stopFailed .. => []
  | .invalidTransition .. => []
  | .blankCaller => []

/-- The same of a result. -/
def timeoutsOf : Except LifecycleError Unit → List (Phase × ContextError)
  | .ok () => []
  | .error e => e.timeouts

/-- The same of a call so far. -/
def CallStage.timeouts : CallStage → List (Phase × ContextError)
  | .starting => []
  | .rollingBack start => start.timeouts
  | .stopping => []

/-- The same of a call, however far it has come. -/
def CallState.timeouts : CallState → List (Phase × ContextError)
  | .launching stage _ => stage.timeouts
  | .waiting call => call.stage.timeouts
  | .givenUp call reason => call.stage.timeouts ++ [(call.stage.phase, reason)]
  | .reporting call reason _ => call.stage.timeouts ++ [(call.stage.phase, reason)]
  | .ended result => timeoutsOf result
  | .dropped => []

/-! ## Passes -/

namespace Lifecycle

variable {reading : Reading} {l : Lifecycle κ} {result : Except LifecycleError Unit}

/-- A start pass does not end because a callback took too long. -/
theorem startFrom_untimed {todo : List (RegisteredHook κ)}
    (h : (startFrom reading todo l).1 = .finish result) : timeoutsOf result = [] := by
  induction todo generalizing l with
  | nil =>
    cases h
    rfl
  | cons hook rest ih =>
    unfold startFrom at h
    cases hstart : hook.onStart with
    | none =>
      simp only [hstart] at h
      exact ih h
    | some callback =>
      simp only [hstart] at h
      cases hdone : reading.contextError with
      | none =>
        simp only [hdone] at h
        cases h
      | some reason =>
        simp only [hdone] at h
        cases h
        rfl

/-- Nor does a stop pass. -/
theorem stopFrom_untimed {hooks : List (RegisteredHook κ)} {failures : StopFailures} {count : Nat}
    (h : (stopFrom reading hooks failures count l).1 = .finish result) :
    timeoutsOf result = [] := by
  induction count generalizing l with
  | zero =>
    cases h
    cases failures <;> rfl
  | succ count ih =>
    unfold stopFrom at h
    cases hhook : hooks[count]? with
    | none =>
      simp only [hhook] at h
      cases h
    | some hook =>
      simp only [hhook] at h
      cases hstop : hook.onStop with
      | none =>
        simp only [hstop] at h
        exact ih h
      | some callback =>
        simp only [hstop] at h
        cases hdone : reading.contextError with
        | none =>
          simp only [hdone] at h
          cases h
        | some reason =>
          simp only [hdone] at h
          cases h
          rfl

/-- A pass that ends at once tells of no timeout: only the call around it does. -/
theorem begin_untimed {phase : Phase} (h : (l.begin phase reading).1 = .finish result) :
    timeoutsOf result = [] := by
  cases phase with
  | start =>
    simp only [begin, beginStart] at h
    split at h
    · exact startFrom_untimed h
    · cases h
      rfl
  | stop => exact stopFrom_untimed h

/-- Nor does a pass that goes on and ends. -/
theorem resume_untimed {progress : Progress κ} {returned : Except Failure Unit}
    (h : (l.resume progress returned reading).1 = .finish result) : timeoutsOf result = [] := by
  cases progress with
  | starting hook rest begun =>
    cases returned with
    | ok => exact startFrom_untimed h
    | error source =>
      cases h
      rfl
  | stopping hook hooks failures begun => exact stopFrom_untimed h

end Lifecycle

/-! ## Calls -/

/-- When the pass of a call is over, the call tells what it told before and what the pass ended
with. -/
theorem AppCall.timeouts_conclude (call : AppCall) (result : Except LifecycleError Unit) :
    (call.conclude result).timeouts ⊆ call.stage.timeouts ++ timeoutsOf result := by
  unfold conclude
  cases call.stage with
  | starting =>
    cases result with
    | ok => exact List.nil_subset _
    | error e => cases e <;> exact List.subset_append_right _ _
  | rollingBack start =>
    cases result with
    | ok => exact List.subset_append_left _ _
    | error undo => exact List.Subset.refl _
  | stopping => exact List.subset_append_right _ _

/-- A call that goes on tells of no more timeouts than before. -/
theorem AppCall.timeouts_onward (call : AppCall) {step : PassStep κ}
    (h : ∀ result, step = .finish result → timeoutsOf result = []) :
    (call.onward step).timeouts ⊆ call.stage.timeouts := by
  cases step with
  | call => exact List.Subset.refl _
  | finish result =>
    have hconclude := call.timeouts_conclude result
    rwa [h result rfl, List.append_nil] at hconclude
  | outOfRange => exact List.nil_subset _

namespace Host

variable {host : Host κ}

/-- What a call tells of a pass that was given up it told before, or the move gives up the pass. -/
theorem timeouts_step {m : HostMove κ} {n : Nat} {new : HostCall} {phase : Phase}
    {reason : ContextError} (hnew : (host.step m).calls[n]? = some new)
    (htold : (phase, reason) ∈ new.state.timeouts) :
    (∃ old, host.calls[n]? = some old ∧ (phase, reason) ∈ old.state.timeouts) ∨
      ∃ call, m = .giveUp n reason ∧ host.GivesUp n call reason ∧ call.stage.phase = phase := by
  rcases fares hnew with ⟨old, hold, hfares⟩ | ⟨-, asked, _, -, rfl⟩
  · cases hfares with
    | same => exact .inl ⟨new, hold, htold⟩
    | launched => exact .inl ⟨_, hold, htold⟩
    | entered =>
      exact .inl ⟨_, hold, AppCall.timeouts_onward _ (fun _ => Lifecycle.begin_untimed) htold⟩
    | resumed =>
      exact .inl ⟨_, hold, AppCall.timeouts_onward _ (fun _ => Lifecycle.resume_untimed) htold⟩
    | gaveUp hdone hturn =>
      rcases List.mem_append.1 htold with hbefore | hnow
      · exact .inl ⟨_, hold, hbefore⟩
      · cases List.mem_singleton.1 hnow
        exact .inr ⟨_, rfl, ⟨⟨_, hold⟩, hdone, hturn⟩, rfl⟩
    | runningRead => exact .inl ⟨_, hold, htold⟩
    | recordsRead => exact .inl ⟨_, hold, AppCall.timeouts_conclude _ _ htold⟩
    | dropped => cases htold
    | dismissed => cases htold
  · cases asked <;> cases htold

/-- What a call tells of a pass that was given up comes from a move that gave it up. -/
theorem gaveUp_of_timeouts (hnone : host.calls = []) {moves : List (HostMove κ)} {n : Nat}
    {hostCall : HostCall} {phase : Phase} {reason : ContextError}
    (hcall : (host.run moves).calls[n]? = some hostCall)
    (htold : (phase, reason) ∈ hostCall.state.timeouts) :
    ∃ before after call, moves = before ++ .giveUp n reason :: after ∧
      (host.run before).GivesUp n call reason ∧ call.stage.phase = phase := by
  induction moves using List.reverseRecOn generalizing hostCall with
  | nil =>
    have hcall : host.calls[n]? = some hostCall := hcall
    rw [hnone] at hcall
    cases hcall
  | append_singleton moves m ih =>
    rw [run_concat] at hcall
    rcases timeouts_step hcall htold with ⟨old, hold, hbefore⟩ | ⟨call, rfl, hgives⟩
    · obtain ⟨before, after, call, rfl, hgives⟩ := ih hold hbefore
      exact ⟨before, after ++ [m], call, by simp, hgives⟩
    · exact ⟨moves, [], call, rfl, hgives⟩

end Host

/-- A wait for the end of a context, whichever contexts come about, are cancelled and outlived by
the clock meanwhile and whichever future each poll looks at first, returns at a poll when the
context has ended, with the reason that is told of the context then unless it has ended twice. So
does the wait of each call at an application: whatever its error says of a pass that ran out of time
was the reason of a move that gave up a pass of that phase, and was told of the context of the call
at that instant unless that had ended twice. -/
theorem waits_end_as_contexts_do :
    (∀ member moves reason, (Wait.of member moves).result = some reason →
      ∃ before p after m, moves = before ++ .poll p :: after ∧
        (Wait.of member before).family.members[member]? = some m ∧
        let f := (Wait.of member before).family
        f.error? m ≠ none ∧
          (¬f.scopes.EndedTwice f.now m.context → f.error? m = some reason)) ∧
    ∀ (host : Host κ) (moves : List (HostMove κ)) (n : Nat) (e : LifecycleError) (fate : Fate)
      (phase : Phase) (reason : ContextError), host.calls = [] →
      (host.run moves).calls[n]? = some ⟨.ended (.error e), fate⟩ →
      (phase, reason) ∈ e.timeouts →
      ∃ before after call fate', moves = before ++ .giveUp n reason :: after ∧
        (host.run before).calls[n]? = some ⟨.waiting call, fate'⟩ ∧ call.stage.phase = phase ∧
        let instant := host.run before
        instant.scopes.error? instant.now call.context ≠ none ∧
          (¬instant.scopes.EndedTwice instant.now call.context →
            instant.scopes.error? instant.now call.context = some reason) := by
  refine ⟨?wait, ?calls⟩
  case wait =>
    intro member moves reason h
    obtain ⟨before, p, after, m, hmoves, -, hm, hdone⟩ := Wait.of_result h
    exact ⟨before, p, after, m, hmoves, hm, Scopes.error?_of_mem_doneReasons hdone⟩
  case calls =>
    intro host moves n e fate phase reason hnone hended htold
    obtain ⟨before, after, call, hmoves, hgives, hphase⟩ :=
      Host.gaveUp_of_timeouts hnone hended htold
    obtain ⟨fate', hcall⟩ := hgives.waiting
    exact ⟨before, after, call, fate', hmoves, hcall, hphase,
      Scopes.error?_of_mem_doneReasons hgives.done⟩

/-- Of two hooks the second one hangs while it starts. -/
def storeThenSlow : Course Nat :=
  .of [.append "store" ⟨some 0, some 1, none⟩, .append "slow" ⟨some 2, none, none⟩]

/-- A start within ten milliseconds is given up while a callback hangs, and rolled back. The context
is cancelled while the rollback waits for a callback. -/
def cancelledLate : List (HostMove Nat) :=
  [.call .start (some ⟨[0], some 10⟩), .launch 0, .enter 0, .returned 0 (.ok ()), .tick 10,
    .giveUp 0 .deadlineExceeded, .readRunning 0, .readRecords 0, .launch 0, .enter 0,
    .cancel ⟨[0], some 10⟩, .returned 0 (.ok ())]

/-- A context with a deadline that is cancelled before it. -/
def cancelledFirst : List WaitMove :=
  [.live .background, .live (.withTimeout 0 10), .poll ⟨.deadline, true⟩, .live (.cancel 1)]

/-- The start has the reason that was told when it was given up, and the wait for a context that is
cancelled returns with that at its second poll. -/
theorem cancelledLate_reason :
    (∃ before p after m, cancelledFirst ++ [.poll ⟨.deadline, true⟩] = before ++ .poll p :: after ∧
        (Wait.of 1 before).family.members[1]? = some m ∧
        (Wait.of 1 before).family.error? m ≠ none) ∧
      ∃ before after call fate, cancelledLate = before ++ .giveUp 0 .deadlineExceeded :: after ∧
        (Host.run ⟨0, ⟨1, []⟩, storeThenSlow, [], fun _ => 100⟩ before).calls[0]? =
          some ⟨.waiting call, fate⟩ ∧ call.stage.phase = .start := by
  obtain ⟨hwait, hcalls⟩ := @waits_end_as_contexts_do Nat
  refine ⟨?_, ?_⟩
  · have hresult : (Wait.of 1 (cancelledFirst ++ [.poll ⟨.deadline, true⟩])).result =
        some .canceled := rfl
    obtain ⟨before, p, after, m, hmoves, hm, herror, -⟩ := hwait _ _ _ hresult
    exact ⟨before, p, after, m, hmoves, hm, herror⟩
  · have hended : (Host.run ⟨0, ⟨1, []⟩, storeThenSlow, [], fun _ => 100⟩ cancelledLate).calls[0]? =
        some ⟨.ended (.error (.timeout .start (some "slow") .deadlineExceeded
          [⟨"store", .ofMillis 0⟩])), .passed⟩ := rfl
    obtain ⟨before, after, call, fate, hmoves, hcall, hphase, -⟩ :=
      hcalls _ _ 0 _ _ .start .deadlineExceeded rfl hended (List.mem_singleton.2 rfl)
    exact ⟨before, after, call, fate, hmoves, hcall, hphase⟩

/-- A wait for a context that was cancelled before its deadline, and is polled after it, may return
with the deadline, while the context is told to be cancelled. The start returns with the deadline as
well, when its context is told to be cancelled. -/
theorem cancelledLate_disagrees :
    (∃ m, let w := Wait.of 1 (cancelledFirst ++ [.live (.advance 10), .poll ⟨.deadline, true⟩])
      w.family.members[1]? = some m ∧ w.result = some .deadlineExceeded ∧
        w.family.error? m = some .canceled) ∧
      ∃ records,
        let host := Host.run ⟨0, ⟨1, []⟩, storeThenSlow, [], fun _ => 100⟩ cancelledLate
        host.calls[0]? = some ⟨.ended (.error (.timeout .start (some "slow") .deadlineExceeded
            records)), .passed⟩ ∧
          host.scopes.error? host.now ⟨[0], some 10⟩ = some .canceled :=
  ⟨⟨_, rfl, rfl, rfl⟩, _, rfl, rfl⟩

end ServiceHost
