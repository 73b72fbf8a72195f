import ServiceHost.Proofs.App.Contention
import ServiceHost.Proofs.Lifecycle.Failures

/-!
# What becomes of failed stop callbacks

A pass keeps the failures of its stop callbacks until it is over (`Course.Tallied`), and its error
carries them, whether all hooks were gone over or the context was done before one of them. So the
call that waits for the pass returns all of them, in order, also as part of the error of a rollback.
Only a call that is given up while a callback hangs returns without them: the error that says so
carries the records of the pass, but not its failures (`stop_failures_carried_unless_given_up`).
-/

namespace ServiceHost

variable {κ : Type}

/-! ## Calls -/

/-- A call waits for a pass that is known and of its own phase, and the error of a start that it
undoes carries nothing. -/
structure CallState.Linked (c : Coordinator κ) (state : CallState) : Prop where
  known : ∀ call, state = .waiting call → call.pass < c.asked
  phase : ∀ call phase, state = .waiting call → (call.pass, phase) ∈ c.line →
    phase = call.stage.phase
  undoes : ∀ start, state.stage? = some (.rollingBack start) → start.carried = []
  reports : ∀ call start, state.Reports call → call.stage = .rollingBack start → start.carried = []

section
variable {c : Coordinator κ} {state : CallState} {call : AppCall}

/-- A move does not change what a call waits for. -/
theorem CallState.Linked.apply (h : state.Linked c) (hc : c.Counted) (m : Move κ) :
    state.Linked (c.apply m) where
  known call hwaiting :=
    Nat.lt_of_lt_of_le (h.known call hwaiting) (Coordinator.asked_le_apply hc m)
  phase call phase hwaiting hmem := by
    rcases Coordinator.mem_line_apply hc hmem with hbefore | ⟨_, -, hnew⟩
    · exact h.phase call phase hwaiting hbefore
    · have hasked : call.pass = c.asked := congrArg Prod.fst hnew
      exact absurd (h.known call hwaiting) (hasked ▸ Nat.lt_irrefl _)
  undoes := h.undoes
  reports := h.reports

/-- A call that has nothing to do with a pass. -/
theorem CallState.Linked.of_idle (hnone : state.call? = none)
    (hundoes : ∀ start, state.stage? = some (.rollingBack start) → start.carried = []) :
    state.Linked c := by
  have hwaiting : ∀ call, state ≠ .waiting call := by
    rintro call rfl
    cases hnone
  refine ⟨fun call h => absurd h (hwaiting call), fun call _ h => absurd h (hwaiting call), hundoes,
    fun call start hreports => ?_⟩
  cases hreports <;> cases hnone

/-- A call that was given up, and undoes what it undid before. -/
theorem CallState.Linked.of_reports (hreports : state.Reports call)
    (hundoes : ∀ start, call.stage = .rollingBack start → start.carried = []) : state.Linked c := by
  cases hreports <;> refine ⟨nofun, nofun, nofun, ?_⟩
  all_goals
    rintro _ start ⟨⟩
    exact hundoes start

/-- The error of a start that the call of a pass undoes carries nothing. -/
theorem CallState.Linked.undoes_of_call (h : state.Linked c) (hcall : state.call? = some call)
    (start : LifecycleError) (hstage : call.stage = .rollingBack start) : start.carried = [] := by
  cases state with
  | waiting =>
    cases hcall
    exact h.undoes start (congrArg some hstage)
  | givenUp =>
    cases hcall
    exact h.reports _ start (.givenUp _) hstage
  | reporting =>
    cases hcall
    exact h.reports _ start (.reporting ..) hstage
  | _ => cases hcall

/-- A call whose pass is over undoes a start with the error of its pass, or returns with the
failures that the pass carries. -/
theorem AppCall.conclude_cases (hundoes : ∀ start, call.stage = .rollingBack start →
    start.carried = []) (result : Except LifecycleError Unit) :
    (∃ start, call.stage = .starting ∧ result = .error start ∧
        call.conclude result = .launching (.rollingBack start) none) ∨
      ∃ result', call.conclude result = .ended result' ∧ carriedBy result' = carriedBy result := by
  unfold conclude
  cases hstage : call.stage with
  | starting =>
    cases result with
    | ok => exact .inr ⟨_, rfl, rfl⟩
    | error e =>
      cases e with
      | invalidTransition => exact .inr ⟨_, rfl, rfl⟩
      | _ => exact .inl ⟨_, rfl, rfl, rfl⟩
  | rollingBack start =>
    have hnone := hundoes start hstage
    cases result with
    | ok => exact .inr ⟨_, rfl, hnone⟩
    | error undo => exact .inr ⟨_, rfl, congrArg (· ++ undo.carried) hnone⟩
  | stopping => exact .inr ⟨_, rfl, rfl⟩

/-- The pass of a call is over, and carries nothing if it is a start pass. -/
theorem CallState.Linked.conclude {c' : Coordinator κ} (h : state.Linked c)
    (hcall : state.call? = some call) {result : Except LifecycleError Unit}
    (hstart : call.stage = .starting → carriedBy result = []) :
    (call.conclude result).Linked c' := by
  have hcases := call.conclude_cases (h.undoes_of_call hcall) result
  refine .of_idle ?_ fun start hundoes => ?_
  · rcases hcases with ⟨_, -, -, hlaunch⟩ | ⟨_, hended, -⟩
    · rw [hlaunch]
      rfl
    · rw [hended]
      rfl
  rcases hcases with ⟨e, hstage, rfl, hlaunch⟩ | ⟨result', hended, -⟩
  · rw [hlaunch] at hundoes
    cases hundoes
    exact hstart hstage
  · rw [hended] at hundoes
    cases hundoes

/-- The pass of a call has begun or gone on. -/
theorem CallState.Linked.onward (h : (CallState.waiting call).Linked c) (hc : c.Counted)
    (m : Move κ) {step : PassStep κ} (hstart : call.stage = .starting → step.Hands []) :
    (call.onward step).Linked (c.apply m) := by
  cases step with
  | call => exact h.apply hc m
  | finish result => exact h.conclude rfl fun hstage => (hstart hstage).2 result rfl
  | outOfRange => exact .of_idle rfl nofun

end

/-- All calls at a host are linked to their passes. -/
structure Host.Linked (host : Host κ) : Prop where
  possible : host.course.Possible
  calls : ∀ hostCall ∈ host.calls, hostCall.state.Linked host.coordinator

namespace Host

variable {host : Host κ}

/-- Every move keeps it so. -/
theorem Linked.step (h : host.Linked) (m : HostMove κ) : (host.step m).Linked := by
  have hc := h.possible.counted
  have hchange := host.change m
  generalize host.step m = host' at hchange
  -- one call changes, and the others stay linked
  have hset {n : Nat} {new : HostCall} (m : Move κ)
      (hnew : new.state.Linked (host.coordinator.apply m)) :
      ∀ hostCall ∈ host.calls.set n new, hostCall.state.Linked (host.coordinator.apply m) := by
    intro hostCall hmem
    rcases List.mem_or_eq_of_mem_set hmem with hbefore | rfl
    · exact (h.calls hostCall hbefore).apply hc m
    · exact hnew
  have hstill {n : Nat} {new : HostCall} (hnew : new.state.Linked host.coordinator) :
      ∀ hostCall ∈ host.calls.set n new, hostCall.state.Linked host.coordinator := by
    intro hostCall hmem
    rcases List.mem_or_eq_of_mem_set hmem with hbefore | rfl
    · exact h.calls hostCall hbefore
    · exact hnew
  cases hchange with
  | still => exact h
  | outside => exact ⟨h.possible, h.calls⟩
  | appended callSite hook =>
    exact ⟨h.possible.next _, fun hostCall hmem =>
      (h.calls hostCall hmem).apply hc (.append callSite hook)⟩
  | called phase context =>
    refine ⟨h.possible, fun hostCall hmem => ?_⟩
    rcases List.mem_append.1 hmem with hbefore | hnew
    · exact h.calls hostCall hbefore
    · cases List.mem_singleton.1 hnew
      refine .of_idle rfl ?_
      cases phase <;> nofun
  | @launched n stage context fate hcall =>
    refine ⟨h.possible.next _, hset (.ask stage.phase) ⟨?_, ?_, ?_, nofun⟩⟩
    · rintro _ ⟨⟩
      exact Nat.lt_succ_self _
    · rintro _ phase ⟨⟩ hmem
      rcases List.mem_append.1 hmem with hmem | hmem
      · exact absurd (h.possible.lined.known _ hmem) (Nat.lt_irrefl _)
      · cases List.mem_singleton.1 hmem
        rfl
    · exact (h.calls _ (List.mem_of_getElem? hcall)).undoes
  | @entered n call fate phase hcall hturn =>
    have hlinked := h.calls _ (List.mem_of_getElem? hcall)
    refine ⟨h.possible.next _, hset (.enter call.pass _) (hlinked.onward hc _ fun _ => ?_)⟩
    exact Lifecycle.hands_begin phase _ hc.started
  | @resumed n call fate progress result hcall hprogress =>
    have hlinked := h.calls _ (List.mem_of_getElem? hcall)
    refine ⟨h.possible.next _, hset (.returned call.pass _ _)
      (hlinked.onward hc _ fun hstage => ?_)⟩
    have hphase := hlinked.phase call _ rfl (h.possible.lined.mem_line hprogress)
    rw [hstage] at hphase
    cases progress with
    | starting => exact Lifecycle.hands_resume_starting ..
    | stopping => cases hphase
  | @gaveUp n call fate reason hcall =>
    have hlinked := h.calls _ (List.mem_of_getElem? hcall)
    exact ⟨h.possible.next _, hset (.leave call.pass)
      (.of_reports (.givenUp reason) (hlinked.undoes_of_call rfl))⟩
  | @runningRead n call reason fate hcall =>
    have hlinked := h.calls _ (List.mem_of_getElem? hcall)
    exact ⟨h.possible, hstill (.of_reports (.reporting ..) (hlinked.undoes_of_call rfl))⟩
  | @recordsRead n call reason running fate hcall =>
    have hlinked := h.calls _ (List.mem_of_getElem? hcall)
    exact ⟨h.possible, hstill (hlinked.conclude rfl fun _ => rfl)⟩
  | @dropped n call fate hcall =>
    exact ⟨h.possible.next _, hset (.leave call.pass) (.of_idle rfl nofun)⟩
  | dismissed hcall => exact ⟨h.possible, hstill (.of_idle rfl nofun)⟩

/-- A call has asked for its pass and not returned before the move, and has returned after it. -/
structure Returns (host : Host κ) (n : Nat) (call : AppCall) (m : HostMove κ)
    (result : Except LifecycleError Unit) : Prop where
  open_ : ∃ state fate, host.calls[n]? = some ⟨state, fate⟩ ∧ state.call? = some call
  ended : ∃ fate, (host.step m).calls[n]? = some ⟨.ended result, fate⟩

/-- A call that has returned after a move had returned before, or returns by the move. -/
theorem ended_step {m : HostMove κ} {n : Nat} {result : Except LifecycleError Unit} {fate : Fate}
    (hended : (host.step m).calls[n]? = some ⟨.ended result, fate⟩) :
    host.calls[n]? = some ⟨.ended result, fate⟩ ∨ ∃ call, host.Returns n call m result := by
  rcases fares hended with ⟨old, hold, hfares⟩ | ⟨-, _, _, -, hnew⟩
  · generalize hnew : (⟨.ended result, fate⟩ : HostCall) = new at hfares
    cases hfares with
    | same =>
      cases hnew
      exact .inl hold
    | launched => cases hnew
    | gaveUp => cases hnew
    | runningRead => cases hnew
    | dropped => cases hnew
    | dismissed => cases hnew
    | entered => exact .inr ⟨_, ⟨_, _, hold, rfl⟩, fate, hended⟩
    | resumed => exact .inr ⟨_, ⟨_, _, hold, rfl⟩, fate, hended⟩
    | recordsRead => exact .inr ⟨_, ⟨_, _, hold, rfl⟩, fate, hended⟩
  · cases hnew

/-- A call that returns when it has read the records of its phase was given up before. -/
theorem Returns.exists_giveUp {before : List (HostMove κ)} {n : Nat} {call : AppCall}
    {result : Except LifecycleError Unit} (hnone : host.calls = [])
    (h : (host.run before).Returns n call (.readRecords n) result) :
    ∃ reason, .giveUp n reason ∈ before := by
  obtain ⟨⟨state, fate, hcall, hopen⟩, fate', hended⟩ := h
  obtain ⟨new, hnew, hfares⟩ := fares_of hcall (.readRecords n)
  cases hended.symm.trans hnew
  generalize hold : (⟨state, fate⟩ : HostCall) = old at hfares
  generalize hnew' : (⟨.ended result, fate'⟩ : HostCall) = new at hfares
  cases hfares with
  | same =>
    cases hold.trans hnew'.symm
    cases hopen
  | recordsRead =>
    cases hold
    obtain ⟨first, second, third, rfl, -⟩ := reporting_run (fun _ hcall => by
      rw [hnone] at hcall
      cases hcall) hcall
    exact ⟨_, List.mem_append_right first List.mem_cons_self⟩

/-- Every call that has returned did so by one of the moves. -/
theorem exists_returns (hnone : host.calls = []) {moves : List (HostMove κ)} {n : Nat}
    {result : Except LifecycleError Unit} {fate : Fate}
    (hended : (host.run moves).calls[n]? = some ⟨.ended result, fate⟩) :
    ∃ before m after call, moves = before ++ m :: after ∧
      (host.run before).Returns n call m result := by
  induction moves using List.reverseRecOn with
  | nil =>
    have hcall : host.calls[n]? = some ⟨.ended result, fate⟩ := hended
    rw [hnone] at hcall
    cases hcall
  | append_singleton moves m ih =>
    have hstep : host.run (moves ++ [m]) = (host.run moves).step m := List.foldl_append
    rw [hstep] at hended
    rcases ended_step hended with hbefore | ⟨call, hreturns⟩
    · obtain ⟨before, m', after, call, rfl, hreturns⟩ := ih hbefore
      exact ⟨before, m', after ++ [m], call, by simp, hreturns⟩
    · exact ⟨moves, m, [], call, rfl, hreturns⟩

/-- What a call carries when it returns. -/
theorem Linked.carried (h : host.Linked) {n : Nat} {call : AppCall} {m : HostMove κ}
    {result : Except LifecycleError Unit} (hreturns : host.Returns n call m result) :
    (m = .readRecords n → carriedBy result = []) ∧
      (m ≠ .readRecords n →
        carriedBy result = stopFailuresOf call.pass (host.step m).course.seen) := by
  obtain ⟨⟨state, fate, hcall, hopen⟩, fate', hended⟩ := hreturns
  have hc := h.possible.counted
  have hlinked := h.calls _ (List.mem_of_getElem? hcall)
  have hundoes := hlinked.undoes_of_call hopen
  -- a pass that is over hands its failures to the call
  have hconclude {r : Except LifecycleError Unit} (hsame : call.conclude r = .ended result) :
      carriedBy result = carriedBy r := by
    rcases call.conclude_cases hundoes r with ⟨_, _, _, hlaunch⟩ | ⟨result', hend, hcarried⟩
    · cases hsame.symm.trans hlaunch
    · cases hsame.symm.trans hend
      exact hcarried
  have honward {step : PassStep κ} {failures : StopFailures} (hhands : step.Hands failures)
      (hsame : call.onward step = .ended result) : carriedBy result = failures := by
    cases step with
    | call => cases hsame
    | finish r => exact (hconclude hsame).trans (hhands.2 r rfl)
    | outOfRange => cases hsame
  obtain ⟨new, hnew, hfares⟩ := fares_of hcall m
  have hstate : new.state = .ended result := by
    cases hended.symm.trans hnew
    rfl
  generalize hold : (⟨state, fate⟩ : HostCall) = old at hfares
  cases hfares with
  | same =>
    cases hold
    rw [show state = .ended result from hstate] at hopen
    cases hopen
  | launched => cases hstate
  | gaveUp => cases hstate
  | runningRead => cases hstate
  | dropped => cases hstate
  | dismissed => cases hstate
  | entered hturn hcourse =>
    cases hold
    cases hopen
    refine ⟨nofun, fun _ => ?_⟩
    rw [hcourse]
    exact honward (h.possible.quiet.hands_enter hc hturn _) hstate
  | resumed hprogress hcourse =>
    cases hold
    cases hopen
    refine ⟨nofun, fun _ => ?_⟩
    rw [hcourse]
    exact honward (h.possible.tallied.hands_returned hc hprogress _ _) hstate
  | recordsRead =>
    cases hold
    cases hopen
    exact ⟨fun _ => hconclude hstate, absurd rfl⟩

end Host

/-- Every call that returns has asked for a pass, and returns by one of the moves. It returns with
all failures of the stop callbacks of that pass, in the order in which they were seen, unless it was
given up, so that it returns when it has read what it reports, and then with none of them. -/
theorem stop_failures_carried_unless_given_up {base : Course κ} (hbase : base.Possible) (now : Nat)
    (scopes : Scopes) (allowed : Phase → Nat) {moves : List (HostMove κ)} {n : Nat}
    {result : Except LifecycleError Unit} {fate : Fate}
    (hended : (Host.run ⟨now, scopes, base, [], allowed⟩ moves).calls[n]? =
      some ⟨.ended result, fate⟩) :
    ∃ before m after call, moves = before ++ m :: after ∧
      (Host.run ⟨now, scopes, base, [], allowed⟩ before).Returns n call m result ∧
      (m = .readRecords n → (∃ reason, .giveUp n reason ∈ before) ∧ carriedBy result = []) ∧
      (m ≠ .readRecords n → carriedBy result = stopFailuresOf call.pass
        ((Host.run ⟨now, scopes, base, [], allowed⟩ before).step m).course.seen) := by
  have hnone : (⟨now, scopes, base, [], allowed⟩ : Host κ).calls = [] := rfl
  obtain ⟨before, m, after, call, hmoves, hreturns⟩ := Host.exists_returns hnone hended
  have hlinked : (Host.run ⟨now, scopes, base, [], allowed⟩ before).Linked :=
    Host.run_induction ⟨hbase, nofun⟩ fun _ m _ h => h.step m
  obtain ⟨hgivenUp, hown⟩ := hlinked.carried hreturns
  refine ⟨before, m, after, call, hmoves, hreturns, fun hm => ⟨?_, hgivenUp hm⟩, hown⟩
  subst hm
  exact hreturns.exists_giveUp hnone

/-- Of two hooks the one that is stopped last hangs, and the other fails. -/
def hangsAndFails : Course Nat :=
  .of [.append "hangs" ⟨none, some 0, none⟩, .append "fails" ⟨none, some 1, none⟩]

/-- The application has started, and a call stops it within ten milliseconds, as far as those moves
of the stop pass let it. -/
def stopWithinTen (stops : List (HostMove Nat)) : List (HostMove Nat) :=
  [.call .start none, .launch 0, .enter 0, .call .stop (some ⟨[0], some 10⟩), .launch 1,
    .enter 1] ++ stops

/-- The time is over when the callback that fails returns. -/
def cancelledStop : List (HostMove Nat) :=
  stopWithinTen [.tick 10, .returned 1 (.error (.plain "flush failed"))]

/-- A stop pass that is cancelled before the hook that hangs carries the failure. -/
theorem cancelledStop_carries :
    ∃ (host : Host Nat) (result : Except LifecycleError Unit),
      host = Host.run ⟨0, ⟨1, []⟩, hangsAndFails, [], fun _ => 100⟩ cancelledStop ∧
        host.calls[1]? = some ⟨.ended result, .unsettled⟩ ∧
        carriedBy result = [⟨"fails", .plain "flush failed"⟩] ∧
        ∃ (before : List (HostMove Nat)) (m : HostMove Nat) (after : List (HostMove Nat))
          (call : AppCall), cancelledStop = before ++ m :: after ∧
          carriedBy result = stopFailuresOf call.pass
            ((Host.run ⟨0, ⟨1, []⟩, hangsAndFails, [],
              fun _ => 100⟩ before).step m).course.seen := by
  have hbase : hangsAndFails.Possible := ⟨_, rfl⟩
  have hended : (Host.run ⟨0, ⟨1, []⟩, hangsAndFails, [], fun _ => 100⟩ cancelledStop).calls[1]? =
      some ⟨.ended (.error (.cancelled .stop "hangs" .deadlineExceeded
        [⟨"fails", .plain "flush failed"⟩])), .unsettled⟩ := rfl
  obtain ⟨before, m, after, call, hmoves, -, -, hcarried⟩ :=
    stop_failures_carried_unless_given_up hbase 0 ⟨1, []⟩ (fun _ => 100) hended
  refine ⟨_, _, rfl, hended, rfl, before, m, after, call, hmoves, hcarried ?_⟩
  rintro rfl
  have hmem : HostMove.readRecords 1 ∈ cancelledStop :=
    hmoves ▸ List.mem_append_right before List.mem_cons_self
  simp [cancelledStop, stopWithinTen] at hmem

/-- The time is over while the other callback hangs. -/
def timedOutStop : List (HostMove Nat) :=
  stopWithinTen [.returned 1 (.error (.plain "flush failed")), .tick 10,
    .giveUp 1 .deadlineExceeded, .readRunning 1, .readRecords 1]

/-- A stop that is given up while the last callback hangs returns without the failure that was
seen. -/
theorem timedOutStop_drops :
    ∃ (host : Host Nat) (records : HookRecords),
      host = Host.run ⟨0, ⟨1, []⟩, hangsAndFails, [], fun _ => 100⟩ timedOutStop ∧
        host.calls[1]? = some ⟨.ended (.error (.timeout .stop (some "hangs") .deadlineExceeded
          records)), .unsettled⟩ ∧
        carriedBy (.error (.timeout .stop (some "hangs") .deadlineExceeded records)) = [] ∧
        stopFailuresOf 1 host.course.seen = [⟨"fails", .plain "flush failed"⟩] :=
  ⟨_, _, rfl, rfl, rfl, rfl⟩

end ServiceHost
