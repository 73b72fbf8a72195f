import ServiceHost.Proofs.App.Run

/-!
# No request to stop is lost

The first signal that is sent after a run has registered its receiver waits there until the run
takes it, however early it comes and whatever comes after it (`Run.Hears`, `Run.Way`). A run that
has started then needs at most three moves of its own to ask for its stop pass: no other move takes
it back, and each of the three brings it on (`Run.Ahead`). So a run that is asked to stop comes to
one stop pass and returns the first signal that was sent (`run_loses_no_request`).
-/

namespace ServiceHost

variable {κ : Type}

/-! ## The way of a run -/

/-- No other call comes to the lifecycle. -/
def RunMove.Undisturbed : RunMove κ → Prop
  | .host m => ∀ phase context, m ≠ .call phase context
  | .signal _ => True
  | .poll => True
  | .drop => True

/-- Neither the run nor a call of it is dropped, and no callback panics. -/
def RunMove.Kept : RunMove κ → Prop
  | .host m => ∀ n, m ≠ .drop n
  | .signal _ => True
  | .poll => True
  | .drop => False

namespace Run

/-- The run holds its receiver, and what is due to it waits there. -/
structure Hears (run : Run κ) (due : Option Signal) : Prop where
  held : run.broadcaster.isHeld run.receiver = true
  pending : run.broadcaster.pending? run.receiver = due

/-- Where a run can be that is asked to stop by the signal that is due, if any, and which passes it
has asked for. -/
inductive Way (run : Run κ) (due : Option Signal) (passes : List Phase) : Prop
  | starting (hstate : run.state = .going .starting 0) (hcall : run.host.Standing [] .start passes)
      (hears : run.Hears due)
  | waiting {fate : Fate} (hstate : run.state = .going .waiting 0)
      (hcall : run.host.Standing [] .start passes)
      (hstarted : run.host.calls[0]? = some ⟨.ended (.ok ()), fate⟩) (hears : run.Hears due)
  | stopping {signal : Signal} {fate : Fate} (hstate : run.state = .going (.stopping signal) 1)
      (hcall : run.host.Standing [⟨.ended (.ok ()), fate⟩] .stop passes)
      (hdue : due = some signal)
  | refused {e : LifecycleError} {fate : Fate} (hstate : run.state = .ended (.error e))
      (hcall : run.host.Standing [] .start passes)
      (hover : run.host.calls[0]? = some ⟨.ended (.error e), fate⟩)
  | ended {signal : Signal} {fate fate' : Fate} {result : Except LifecycleError Unit}
      (hstate : run.state = .ended (result.map fun _ => signal))
      (hcall : run.host.Standing [⟨.ended (.ok ()), fate⟩] .stop passes)
      (hover : run.host.calls[1]? = some ⟨.ended result, fate'⟩) (hdue : due = some signal)
  | dropped {before : List HostCall} {phase : Phase} (hstate : run.state = .dropped)
      (hcall : run.host.Standing before phase passes)

variable {run : Run κ} {due : Option Signal} {passes : List Phase}

/-- A signal that is sent waits for the run unless another one does. -/
theorem Hears.signal (h : run.Hears due) {m : SignalMove}
    (hother : m.subscriber? ≠ some run.receiver) :
    Hears { run with broadcaster := run.broadcaster.apply m } (due.or m.signal?) := by
  obtain ⟨hheld, rfl⟩ := h
  have hsent (signal : Signal) :
      Hears { run with broadcaster := (run.broadcaster.broadcast signal).2 }
        ((run.broadcaster.pending? run.receiver).or (some signal)) := by
    refine ⟨by simpa using hheld, ?_⟩
    simp only [Broadcaster.pending?_broadcast, Broadcaster.awaits, hheld, Bool.true_and]
    cases run.broadcaster.pending? run.receiver <;> rfl
  cases m with
  | register =>
    refine ⟨?_, ?_⟩
    · simp [Broadcaster.apply, hheld]
    · simp [Broadcaster.apply, SignalMove.signal?]
  | broadcast signal => exact hsent signal
  | shutdown => exact hsent .terminate
  | receive other =>
    have hne : other ≠ run.receiver := fun heq => hother (congrArg some heq)
    simp only [Broadcaster.apply, SignalMove.signal?, Option.or_none]
    split
    · exact ⟨by simpa using hheld, by simp [hne]⟩
    · exact ⟨hheld, rfl⟩
  | close other =>
    have hne : other ≠ run.receiver := fun heq => hother (congrArg some heq)
    refine ⟨?_, ?_⟩
    · simp [Broadcaster.apply, hheld, hne]
    · simp [Broadcaster.apply, SignalMove.signal?]

/-- The run goes on, or has nothing to go on with. -/
theorem Way.poll (h : run.Way due passes) : run.poll.Way due passes := by
  cases h with
  | starting hstate hcall hears =>
    obtain ⟨state, fate, hfirst, -⟩ := hcall.call
    change run.host.calls[0]? = _ at hfirst
    simp only [Run.poll, hstate, hfirst]
    cases state with
    | launching => exact .starting hstate hcall hears
    | waiting => exact .starting hstate hcall hears
    | givenUp => exact .starting hstate hcall hears
    | reporting => exact .starting hstate hcall hears
    | dropped => exact .starting hstate hcall hears
    | ended result =>
      cases result with
      | ok => exact .waiting rfl hcall hfirst ⟨hears.held, hears.pending⟩
      | error e => exact .refused rfl hcall hfirst
  | @waiting fate hstate hcall hstarted hears =>
    simp only [Run.poll, hstate, Broadcaster.take, hears.pending]
    cases due with
    | none => exact .waiting hstate hcall hstarted hears
    | some signal =>
      obtain ⟨hpossible, -, state, fate', hcalls, hstands⟩ := hcall
      rw [hcalls] at hstarted
      cases hstarted
      obtain ⟨hline, rfl, -⟩ := hstands.of_ok
      simp only [Host.step_call, hcalls]
      refine .stopping rfl ⟨hpossible, ?_, _, _, rfl, .asking .stopping none hline⟩ rfl
      intro hostCall hmem
      exact ⟨.ok (), by rw [List.mem_singleton.1 hmem]⟩
  | @stopping signal fate hstate hcall hdue =>
    obtain ⟨state, fate', hlast, -⟩ := hcall.call
    change run.host.calls[1]? = _ at hlast
    simp only [Run.poll, hstate, hlast]
    cases state with
    | launching => exact .stopping hstate hcall hdue
    | waiting => exact .stopping hstate hcall hdue
    | givenUp => exact .stopping hstate hcall hdue
    | reporting => exact .stopping hstate hcall hdue
    | dropped => exact .stopping hstate hcall hdue
    | ended result => cases result <;> exact .ended rfl hcall hlast hdue
  | refused hstate hcall hover =>
    simp only [Run.poll, hstate]
    exact .refused hstate hcall hover
  | ended hstate hcall hover hdue =>
    simp only [Run.poll, hstate]
    exact .ended hstate hcall hover hdue
  | dropped hstate hcall =>
    simp only [Run.poll, hstate]
    exact .dropped hstate hcall

/-- The run is dropped, unless it is over or its call reports. -/
theorem Way.drop (h : run.Way due passes) : run.drop.Way due passes := by
  have hcall {before : List HostCall} {phase : Phase} {n : Nat}
      (hcall : run.host.Standing before phase passes) :
      (run.host.step (.drop n)).Standing before phase passes := by
    have hdrop (phase : Phase) (context : Option Context) :
        (.drop n : HostMove κ) ≠ .call phase context := nofun
    have hstep := hcall.step hdrop
    rwa [show run.host.asks (.drop n) = [] from rfl, List.append_nil] at hstep
  cases h with
  | starting hstate hstands hears =>
    simp only [Run.drop, hstate]
    split
    · exact .starting hstate hstands hears
    · exact .dropped rfl (hcall hstands)
  | waiting hstate hstands hstarted hears =>
    simp only [Run.drop, hstate]
    split
    · exact .waiting hstate hstands hstarted hears
    · exact .dropped rfl (hcall hstands)
  | stopping hstate hstands hdue =>
    simp only [Run.drop, hstate]
    split
    · exact .stopping hstate hstands hdue
    · exact .dropped rfl (hcall hstands)
  | refused hstate hstands hover =>
    simp only [Run.drop, hstate]
    exact .refused hstate hstands hover
  | ended hstate hstands hover hdue =>
    simp only [Run.drop, hstate]
    exact .ended hstate hstands hover hdue
  | dropped hstate hstands =>
    simp only [Run.drop, hstate]
    exact .dropped hstate hstands

/-- A signal is sent, or another subscriber does something. -/
theorem Way.signal (h : run.Way due passes) {m : SignalMove}
    (hother : m.subscriber? ≠ some run.receiver) :
    Way { run with broadcaster := run.broadcaster.apply m } (due.or m.signal?) passes := by
  cases h with
  | starting hstate hcall hears => exact .starting hstate hcall (hears.signal hother)
  | waiting hstate hcall hstarted hears =>
    exact .waiting hstate hcall hstarted (hears.signal hother)
  | stopping hstate hcall hdue => exact .stopping hstate hcall (by rw [hdue]; rfl)
  | refused hstate hcall hover => exact .refused hstate hcall hover
  | ended hstate hcall hover hdue => exact .ended hstate hcall hover (by rw [hdue]; rfl)
  | dropped hstate hcall => exact .dropped hstate hcall

/-- Every move but another call keeps a run on its way. -/
theorem Way.step (h : run.Way due passes) {m : RunMove κ} (hm : m.Undisturbed) :
    (run.step m).Way (due.or m.signal?) (passes ++ run.asks m) := by
  cases m with
  | poll =>
    rw [show run.asks .poll = [] from rfl, show RunMove.poll.signal? = none from rfl,
      List.append_nil, Option.or_none]
    exact h.poll
  | drop =>
    rw [show run.asks .drop = [] from rfl, show RunMove.drop.signal? = none from rfl,
      List.append_nil, Option.or_none]
    exact h.drop
  | host m =>
    rw [show (RunMove.host m).signal? = none from rfl, Option.or_none]
    cases h with
    | starting hstate hcall hears =>
      exact .starting hstate (hcall.step hm) ⟨hears.held, hears.pending⟩
    | waiting hstate hcall hstarted hears =>
      exact .waiting hstate (hcall.step hm) (Host.step_ended hstarted m) ⟨hears.held, hears.pending⟩
    | stopping hstate hcall hdue => exact .stopping hstate (hcall.step hm) hdue
    | refused hstate hcall hover => exact .refused hstate (hcall.step hm) (Host.step_ended hover m)
    | ended hstate hcall hover hdue =>
      exact .ended hstate (hcall.step hm) (Host.step_ended hover m) hdue
    | dropped hstate hcall => exact .dropped hstate (hcall.step hm)
  | signal m =>
    show (if m.subscriber? = some run.receiver then run
      else { run with broadcaster := run.broadcaster.apply m }).Way (due.or m.signal?)
        (passes ++ [])
    rw [List.append_nil]
    split
    · next hown =>
      rw [SignalMove.signal?_eq_none hown, Option.or_none]
      exact h
    · next hother => exact h.signal hother

/-- A run begins with nothing asked for and nothing due. -/
theorem Way.begin {base : Course κ} (hbase : base.Possible) (hgate : base.coordinator.line = [])
    (now : Nat) (scopes : Scopes) (allowed : Phase → Nat) (broadcaster : Broadcaster) :
    (Run.begin ⟨now, scopes, base, [], allowed⟩ broadcaster).Way none [] := by
  unfold Run.begin
  rw [Host.step_call]
  refine .starting rfl ⟨hbase, nofun, _, _, rfl, .asking .starting none hgate⟩ ⟨?_, ?_⟩
  · simp [Broadcaster.register, Broadcaster.isHeld, Channel.fresh]
  · simp [Broadcaster.register, Broadcaster.pending?, Channel.fresh]

/-- A run stays on its way, and the first signal that is sent becomes due. -/
theorem Way.along (h : run.Way due passes) {moves : List (RunMove κ)}
    (hmoves : ∀ m ∈ moves, m.Undisturbed) :
    (run.run moves).Way (due.or (moves.filterMap RunMove.signal?).head?)
      (passes ++ run.passes moves) := by
  induction moves generalizing run due passes with
  | nil => simpa [Run.run, Run.passes] using h
  | cons m rest ih =>
    obtain ⟨hm, hrest⟩ := List.forall_mem_cons.1 hmoves
    have hway := ih (h.step hm) hrest
    have hdue : (due.or m.signal?).or (rest.filterMap RunMove.signal?).head? =
        due.or ((m :: rest).filterMap RunMove.signal?).head? := by
      rw [Option.or_assoc, List.filterMap_cons]
      cases m.signal? <;> rfl
    rw [hdue, List.append_assoc] at hway
    exact hway

/-- The passes that are asked for are those of the first moves, and then those of the others. -/
theorem passes_append (run : Run κ) (moves more : List (RunMove κ)) :
    run.passes (moves ++ more) = run.passes moves ++ (run.run moves).passes more := by
  induction moves generalizing run with
  | nil => rfl
  | cons m rest ih =>
    show run.asks m ++ (run.step m).passes (rest ++ more) = _
    rw [ih, ← List.append_assoc]
    rfl

/-- The last call of a run stands where the run is. -/
theorem Way.standing (h : run.Way due passes) :
    ∃ before phase, run.host.Standing before phase passes := by
  cases h with
  | starting _ hcall => exact ⟨_, _, hcall⟩
  | waiting _ hcall => exact ⟨_, _, hcall⟩
  | stopping _ hcall => exact ⟨_, _, hcall⟩
  | refused _ hcall => exact ⟨_, _, hcall⟩
  | ended _ hcall => exact ⟨_, _, hcall⟩
  | dropped _ hcall => exact ⟨_, _, hcall⟩

/-- A run asks for a start pass and then for a stop pass at most. -/
theorem Way.passes_isPrefix (h : run.Way due passes) : passes <+: [.start, .stop] := by
  obtain ⟨before, phase, hcall⟩ := h.standing
  obtain ⟨state, fate, -, hstands⟩ := hcall.last
  exact hstands.passes_isPrefix

/-- While the start pass stands at the gate, no other pass was asked for. -/
theorem Way.start_first (h : run.Way due passes) {id : PassId}
    (hmem : (id, .start) ∈ run.host.coordinator.line) : passes = [.start] := by
  obtain ⟨before, phase, hcall⟩ := h.standing
  obtain ⟨state, fate, -, hstands⟩ := hcall.last
  exact hstands.start_first hmem

/-- A move of a run is at most one move at its lifecycle. -/
theorem step_host (run : Run κ) (m : RunMove κ) :
    (run.step m).host = run.host ∧ run.asks m = [] ∨
      ∃ m', (run.step m).host = run.host.step m' ∧ run.asks m = run.host.asks m' := by
  cases m with
  | host m => exact .inr ⟨m, rfl, rfl⟩
  | signal m =>
    refine .inl ⟨?_, rfl⟩
    simp only [Run.step]
    split <;> rfl
  | poll =>
    show run.poll.host = _ ∧ _ ∨ ∃ m', run.poll.host = _ ∧ _
    unfold Run.poll
    split
    · split
      · exact .inl ⟨rfl, rfl⟩
      · exact .inr ⟨.call .stop none, rfl, rfl⟩
    · split
      · exact .inl ⟨run.follow_host _ _, rfl⟩
      · exact .inl ⟨rfl, rfl⟩
    · exact .inl ⟨rfl, rfl⟩
  | drop =>
    show run.drop.host = _ ∧ _ ∨ ∃ m', run.drop.host = _ ∧ _
    unfold Run.drop
    split
    · next call _ =>
      split
      · exact .inl ⟨rfl, rfl⟩
      · exact .inr ⟨.drop call, rfl, rfl⟩
    · exact .inl ⟨rfl, rfl⟩

/-- A move gives a number to the passes that it asks for, and to no other. -/
theorem Way.step_asked (h : run.Way due passes) (m : RunMove κ) :
    (run.step m).host.coordinator.asked = run.host.coordinator.asked + (run.asks m).length := by
  rcases run.step_host m with ⟨hhost, hasks⟩ | ⟨m', hhost, hasks⟩
  · rw [hhost, hasks]
    rfl
  · obtain ⟨before, phase, hcall⟩ := h.standing
    rw [hhost, hasks]
    exact Host.step_asked hcall.possible m'

/-- The passes that a run asks for are those that get a number. -/
theorem Way.run_asked (h : run.Way due passes) {moves : List (RunMove κ)}
    (hmoves : ∀ m ∈ moves, m.Undisturbed) :
    (run.run moves).host.coordinator.asked =
      run.host.coordinator.asked + (run.passes moves).length := by
  induction moves generalizing run due passes with
  | nil => rfl
  | cons m rest ih =>
    obtain ⟨hm, hrest⟩ := List.forall_mem_cons.1 hmoves
    show ((run.step m).run rest).host.coordinator.asked =
      _ + (run.asks m ++ (run.step m).passes rest).length
    rw [ih (h.step hm) hrest, h.step_asked, List.length_append, Nat.add_assoc]

/-! ## A run that is asked to stop goes on -/

/-- What a run does by itself to come to its stop pass: it finds that the start is over, takes the
signal, and its second call steps up to the gate. -/
def goOn : List (RunMove κ) :=
  [.poll, .poll, .host (.launch 1)]

/-- How much of `goOn` a run that has started and is asked to stop still has before it. -/
inductive Ahead (run : Run κ) (passes : List Phase) : List (RunMove κ) → Prop
  | starting {fate : Fate} (hstate : run.state = .going .starting 0)
      (hstarted : run.host.calls[0]? = some ⟨.ended (.ok ()), fate⟩) : run.Ahead passes goOn
  | waiting (hstate : run.state = .going .waiting 0) :
      run.Ahead passes [.poll, .host (.launch 1)]
  | stopping {signal : Signal} {context : Option Context} {fate : Fate}
      (hstate : run.state = .going (.stopping signal) 1)
      (hcall : run.host.calls[1]? = some ⟨.launching .stopping context, fate⟩) :
      run.Ahead passes [.host (.launch 1)]
  | asked (hpasses : passes = [.start, .stop]) : run.Ahead passes []

/-- A move brings a run on if it is the next one that the run has before it, and takes nothing back
otherwise. -/
theorem Ahead.step {signal : Signal} {own : List (RunMove κ)} (h : run.Ahead passes own)
    (hway : run.Way (some signal) passes) {m : RunMove κ} (hm : m.Undisturbed) (hkept : m.Kept) :
    (∃ rest, own = m :: rest ∧ (run.step m).Ahead (passes ++ run.asks m) rest) ∨
      (∀ rest, own ≠ m :: rest) ∧ (run.step m).Ahead (passes ++ run.asks m) own := by
  have hnext := (hway.step hm).passes_isPrefix
  have hsignal {m : SignalMove} : (run.step (.signal m)).state = run.state ∧
      (run.step (.signal m)).host = run.host := by
    simp only [Run.step]
    split <;> exact ⟨rfl, rfl⟩
  cases h with
  | starting hstate hstarted =>
    cases m with
    | poll =>
      refine .inl ⟨_, rfl, .waiting ?_⟩
      simp only [Run.step, Run.poll, hstate, hstarted, RunStage.after, Run.follow]
    | host m => exact .inr ⟨by rintro _ ⟨⟩, .starting hstate (Host.step_ended hstarted m)⟩
    | signal m =>
      rw [← hsignal.2] at hstarted
      exact .inr ⟨by rintro _ ⟨⟩, .starting (hsignal.1.trans hstate) hstarted⟩
    | drop => exact hkept.elim
  | waiting hstate =>
    cases m with
    | poll =>
      refine .inl ⟨_, rfl, ?_⟩
      cases hway with
      | waiting _ hcall _ hears =>
        obtain ⟨-, -, state, fate, hcalls, -⟩ := hcall
        simp only [Run.step, Run.poll, hstate, Broadcaster.take, hears.pending, Host.step_call,
          hcalls]
        exact .stopping rfl rfl
      | starting hother => cases hstate.symm.trans hother
      | stopping hother => cases hstate.symm.trans hother
      | refused hother => cases hstate.symm.trans hother
      | ended hother => cases hstate.symm.trans hother
      | dropped hother => cases hstate.symm.trans hother
    | host m => exact .inr ⟨by rintro _ ⟨⟩, .waiting hstate⟩
    | signal m => exact .inr ⟨by rintro _ ⟨⟩, .waiting (hsignal.1.trans hstate)⟩
    | drop => exact hkept.elim
  | stopping hstate hcall =>
    cases m with
    | poll =>
      refine .inr ⟨by rintro _ ⟨⟩, ?_⟩
      simp only [Run.step, Run.poll, hstate, hcall]
      exact .stopping hstate hcall
    | host m =>
      by_cases hlaunch : m = .launch 1
      · subst hlaunch
        have hasks : run.asks (.host (.launch 1)) = [.stop] := by
          simp only [asks, Host.asks, hcall, CallStage.phase]
        rw [hasks] at hnext ⊢
        refine .inl ⟨[], rfl, .asked ?_⟩
        rcases passes with - | ⟨first, - | ⟨second, rest⟩⟩
        · simp at hnext
        · simpa using hnext
        · simp at hnext
      · have hstays := Host.step_idle (m := m) hcall rfl (by
          rintro _ _ ⟨⟩
          exact ⟨hlaunch, hkept 1⟩)
        refine .inr ⟨fun rest heq => hlaunch ?_, .stopping hstate hstays⟩
        cases heq
        rfl
    | signal m =>
      rw [← hsignal.2] at hcall
      exact .inr ⟨by rintro _ ⟨⟩, .stopping (hsignal.1.trans hstate) hcall⟩
    | drop => exact hkept.elim
  | asked hpasses =>
    subst hpasses
    exact .inr ⟨by rintro _ ⟨⟩, .asked (hnext.eq_of_length_le (by simp))⟩

/-- A run comes to its stop pass by the moves that it has before it, whatever else happens. -/
theorem Ahead.passes_eq {signal : Signal} {own : List (RunMove κ)} (h : run.Ahead passes own)
    (hway : run.Way (some signal) passes) {more : List (RunMove κ)}
    (hmore : ∀ m ∈ more, m.Undisturbed ∧ m.Kept) (hown : own.Sublist more) :
    passes ++ run.passes more = [.start, .stop] := by
  induction more generalizing run passes own with
  | nil =>
    cases List.sublist_nil.1 hown
    cases h with
    | asked hpasses => exact (List.append_nil _).trans hpasses
  | cons m rest ih =>
    obtain ⟨⟨hm, hkept⟩, hrest⟩ := List.forall_mem_cons.1 hmore
    show passes ++ (run.asks m ++ (run.step m).passes rest) = _
    rw [← List.append_assoc]
    rcases h.step hway hm hkept with ⟨own', rfl, hahead⟩ | ⟨hother, hahead⟩
    · exact ih hahead (hway.step hm) hrest (List.cons_sublist_cons.1 hown)
    · refine ih hahead (hway.step hm) hrest ?_
      rcases List.sublist_cons_iff.1 hown with hsub | ⟨own', heq, -⟩
      · exact hsub
      · exact absurd heq (hother own')

/-- The run was not dropped, nor was a call of it, and no callback has panicked. -/
structure Alive (run : Run κ) : Prop where
  state : run.state ≠ .dropped
  calls : ∀ (n : Nat) (fate : Fate), run.host.calls[n]? ≠ some ⟨.dropped, fate⟩

/-- A run that has started and is asked to stop has at most `goOn` before it. -/
theorem Way.ahead {signal : Signal} (h : run.Way (some signal) passes) {fate : Fate}
    (hstarted : run.host.calls[0]? = some ⟨.ended (.ok ()), fate⟩) (halive : run.Alive) :
    ∃ own, run.Ahead passes own ∧ own.Sublist goOn := by
  -- the second call has asked for its pass, unless it is about to
  have hstop {fate : Fate} (hcall : run.host.Standing [⟨.ended (.ok ()), fate⟩] .stop passes) :
      (∃ context fate', run.host.calls[1]? = some ⟨.launching .stopping context, fate'⟩) ∨
        passes = [.start, .stop] := by
    obtain ⟨state, fate', hlast, hstands⟩ := hcall.call
    change run.host.calls[1]? = _ at hlast
    rcases hstands.of_stop with ⟨context, rfl⟩ | hasked | rfl
    · exact .inl ⟨context, fate', hlast⟩
    · exact .inr hasked
    · exact absurd hlast (halive.calls 1 fate')
  cases h with
  | starting hstate => exact ⟨_, .starting hstate hstarted, List.Sublist.refl _⟩
  | waiting hstate => exact ⟨_, .waiting hstate, List.sublist_cons_self _ _⟩
  | stopping hstate hcall =>
    rcases hstop hcall with ⟨context, fate', hlaunching⟩ | hasked
    · exact ⟨_, .stopping hstate hlaunching, .cons _ (List.sublist_cons_self _ _)⟩
    · exact ⟨_, .asked hasked, List.nil_sublist _⟩
  | refused _ _ hover => cases hstarted.symm.trans hover
  | ended _ hcall hover =>
    rcases hstop hcall with ⟨context, fate', hlaunching⟩ | hasked
    · cases hlaunching.symm.trans hover
    · exact ⟨_, .asked hasked, List.nil_sublist _⟩
  | dropped hstate => exact absurd hstate halive.state

/-- A run whose second call has stopped the lifecycle returns the signal that was due. -/
theorem Way.returns (h : run.Way due passes) {fate : Fate}
    (hstopped : run.host.calls[1]? = some ⟨.ended (.ok ()), fate⟩) (hkept : run.state ≠ .dropped) :
    ∃ signal, due = some signal ∧ (run.step .poll).state = .ended (.ok signal) := by
  have hlone (hcall : run.host.Standing [] .start passes) : False := by
    obtain ⟨state, fate', hcalls, -⟩ := hcall.last
    rw [hcalls] at hstopped
    cases hstopped
  cases h with
  | starting _ hcall => exact (hlone hcall).elim
  | waiting _ hcall => exact (hlone hcall).elim
  | refused _ hcall => exact (hlone hcall).elim
  | @stopping signal _ hstate _ hdue =>
    refine ⟨signal, hdue, ?_⟩
    simp only [Run.step, Run.poll, hstate, hstopped, RunStage.after, Run.follow]
  | @ended signal _ _ _ hstate _ hover hdue =>
    cases hstopped.symm.trans hover
    refine ⟨signal, hdue, ?_⟩
    simp only [Run.step, Run.poll, hstate]
    rfl
  | dropped hstate => exact absurd hstate hkept

/-- A run that has returned a signal has made both passes and left the lifecycle stopped. -/
theorem Way.returned (h : run.Way due passes) {signal : Signal}
    (hended : run.state = .ended (.ok signal)) :
    due = some signal ∧ passes = [.start, .stop] ∧
      run.host.coordinator.lifecycle.state = .stopped ∧
      run.host.coordinator.lifecycle.started = 0 := by
  cases h with
  | starting hstate => cases hended.symm.trans hstate
  | waiting hstate => cases hended.symm.trans hstate
  | stopping hstate => cases hended.symm.trans hstate
  | refused hstate => cases hended.symm.trans hstate
  | dropped hstate => cases hended.symm.trans hstate
  | @ended signal' _ _ result hstate hcall hover hdue =>
    have hresult := hended.symm.trans hstate
    cases result with
    | error => cases hresult
    | ok =>
      cases hresult
      obtain ⟨state, fate', hlast, hstands⟩ := hcall.call
      cases hlast.symm.trans hover
      obtain ⟨-, hpasses, hstopped⟩ := hstands.of_ok
      exact ⟨hdue, hpasses, hstopped rfl⟩

/-- A run that is over stays so. -/
theorem run_ended {result : Except LifecycleError Signal} (h : run.state = .ended result)
    (moves : List (RunMove κ)) : (run.run moves).state = .ended result := by
  induction moves generalizing run with
  | nil => exact h
  | cons m rest ih =>
    have hstep : (run.step m).state = .ended result := by
      cases m with
      | host => exact h
      | signal m =>
        simp only [Run.step]
        split <;> exact h
      | poll => simp only [Run.step, Run.poll, h]
      | drop => simp only [Run.step, Run.drop, h]
    exact ih hstep

/-- A pass of a run that waits stands alone at the gate. -/
theorem Way.alone (h : run.Way due passes) {n : Nat} {call : AppCall} {fate : Fate}
    (hwaiting : run.host.calls[n]? = some ⟨.waiting call, fate⟩) :
    run.host.coordinator.line = [(call.pass, call.stage.phase)] := by
  obtain ⟨before, phase, hcall⟩ := h.standing
  exact (hcall.here hwaiting nofun).2.alone

end Run

/-- A run that begins while no pass stands at the gate, at a lifecycle to which no other call comes,
asks for a start pass, then for a stop pass, and for no other, and for none while the start pass
stands at the gate; each of them finds the gate free. Once the start has succeeded and a signal was
sent after the receiver was registered, before, while or after the start pass was made, the run
comes to its stop pass by three moves of its own (`goOn`), whatever else happens between them. If
the stop succeeds, the run returns the first signal that was sent, and it returns no other; the
lifecycle is then stopped with nothing counted, and no signal that is sent later changes this. -/
theorem run_loses_no_request {base : Course κ} (hbase : base.Possible)
    (hgate : base.coordinator.line = []) (now : Nat) (scopes : Scopes) (allowed : Phase → Nat)
    (broadcaster : Broadcaster) {moves : List (RunMove κ)} (hmoves : ∀ m ∈ moves, m.Undisturbed)
    {first run : Run κ} (hfirst : first = .begin ⟨now, scopes, base, [], allowed⟩ broadcaster)
    (hrun : run = first.run moves) {sent : List Signal}
    (hsent : sent = moves.filterMap RunMove.signal?) :
    (first.passes moves <+: [.start, .stop] ∧
        run.host.coordinator.asked = base.coordinator.asked + (first.passes moves).length ∧
        (∀ id, (id, .start) ∈ run.host.coordinator.line → first.passes moves = [.start]) ∧
        ∀ (n : Nat) call fate, run.host.calls[n]? = some ⟨.waiting call, fate⟩ →
          run.host.coordinator.line = [(call.pass, call.stage.phase)]) ∧
      (∀ fate, sent ≠ [] → run.host.calls[0]? = some ⟨.ended (.ok ()), fate⟩ → run.Alive →
        ∀ more : List (RunMove κ), (∀ m ∈ more, m.Undisturbed ∧ m.Kept) →
          Run.goOn.Sublist more → first.passes (moves ++ more) = [.start, .stop]) ∧
      (∀ fate, run.host.calls[1]? = some ⟨.ended (.ok ()), fate⟩ → run.state ≠ .dropped →
        ∃ signal, sent.head? = some signal ∧ (run.step .poll).state = .ended (.ok signal)) ∧
      ∀ signal, run.state = .ended (.ok signal) →
        sent.head? = some signal ∧ first.passes moves = [.start, .stop] ∧
          run.host.coordinator.lifecycle.state = .stopped ∧
          run.host.coordinator.lifecycle.started = 0 ∧
          ∀ more, (run.run more).state = .ended (.ok signal) := by
  have hbegun : first.Way none [] := by
    rw [hfirst]
    exact .begin hbase hgate now scopes allowed broadcaster
  have hway : run.Way sent.head? (first.passes moves) := by
    rw [hrun, hsent]
    exact hbegun.along hmoves
  refine ⟨⟨hway.passes_isPrefix, ?_, fun id => hway.start_first, fun n call fate => hway.alone⟩,
    ?_, fun fate => hway.returns, ?_⟩
  · have hasked := hbegun.run_asked hmoves
    rw [← hrun] at hasked
    rw [hasked, hfirst, Run.begin, Host.step_call]
    rfl
  · intro fate hsome hstarted halive more hmore hown
    obtain ⟨signal, rest, rfl⟩ := List.exists_cons_of_ne_nil hsome
    obtain ⟨own, hahead, hsub⟩ := hway.ahead hstarted halive
    rw [Run.passes_append, ← hrun]
    exact hahead.passes_eq hway hmore (hsub.trans hown)
  · intro signal hended
    obtain ⟨hdue, hpasses, hstopped, hstarted⟩ := hway.returned hended
    exact ⟨hdue, hpasses, hstopped, hstarted, Run.run_ended hended⟩

/-- An application with one hook is run. -/
def oneHookRun : Run Nat :=
  .begin ⟨0, ⟨0, []⟩, .of [.append "serve" ⟨some 0, some 1, none⟩], [], fun _ => 100⟩ .empty

/-- The hook asks to stop while it starts, and so does someone else. -/
def stopsEarly : List (RunMove Nat) :=
  [.host (.launch 0), .host (.enter 0), .signal .shutdown, .signal (.broadcast .interrupt),
    .host (.returned 0 (.ok ()))]

/-- The application is stopped as soon as it has started. -/
def stopsAgain : List (RunMove Nat) :=
  Run.goOn ++ [.host (.enter 1), .host (.returned 1 (.ok ())), .poll]

/-- An application that asks to stop before it has started is stopped. -/
theorem stopsEarly_heeded :
    oneHookRun.passes (stopsEarly ++ stopsAgain) = [.start, .stop] ∧
      (oneHookRun.run (stopsEarly ++ stopsAgain)).state = .ended (.ok .terminate) ∧
      (oneHookRun.run (stopsEarly ++ stopsAgain)).host.coordinator.lifecycle.state = .stopped := by
  have hbase : (Course.of [.append "serve" ⟨some 0, some 1, none⟩] : Course Nat).Possible :=
    ⟨_, rfl⟩
  have hearly : ∀ m ∈ stopsEarly, m.Undisturbed := by
    simp [stopsEarly, RunMove.Undisturbed]
  have hagain : ∀ m ∈ stopsAgain, m.Undisturbed ∧ m.Kept := by
    simp [stopsAgain, Run.goOn, RunMove.Undisturbed, RunMove.Kept]
  have hboth : ∀ m ∈ stopsEarly ++ stopsAgain, m.Undisturbed := fun m hm =>
    (List.mem_append.1 hm).elim (hearly m) fun h => (hagain m h).1
  have halive : (oneHookRun.run stopsEarly).Alive := by
    refine ⟨nofun, fun n fate => ?_⟩
    match n with
    | 0 => nofun
    | n + 1 => nofun
  obtain ⟨-, hstops, -⟩ :=
    run_loses_no_request hbase rfl 0 ⟨0, []⟩ (fun _ => 100) .empty hearly rfl rfl rfl
  obtain ⟨-, -, -, hreturned⟩ :=
    run_loses_no_request hbase rfl 0 ⟨0, []⟩ (fun _ => 100) .empty hboth rfl rfl rfl
  obtain ⟨-, -, hstopped, -⟩ := hreturned .terminate rfl
  exact ⟨hstops .passed nofun rfl halive _ hagain (List.sublist_append_left _ _), rfl, hstopped⟩

end ServiceHost
