import ServiceHost.Proofs.App.Requests
import ServiceHost.Rehearsal.Activity

/-!
# Runs in a rehearsal

A rehearsal holds a run as a frame around that of the call that the run waits for. The frame goes on
as the run does (`Run.ShownBy`): it begins with the call for the start (`Run.ShownBy.begin`), finds
with every poll the signal that the run finds (`Run.ShownBy.wait`), and when its call hands over a
result it waits, or is over, as the run does whose call has come to that result
(`Run.ShownBy.receive`). So a frame that is played along with a run (`Played`) shows it wherever the
run has come to (`Played.shown`), and what is said of the run is said of the frame: it hands over
the first signal that was sent, as soon as its stop has succeeded (`frame_returns_first_signal`).
-/

namespace ServiceHost

open Rehearsal

variable {κ : Type}

namespace Rehearsal.World

/-- The broadcaster of a subscription is this one. -/
structure Keeps (w : World) (receiver : Subscription) (b : Broadcaster) : Prop where
  known : receiver.broadcaster < w.broadcasters.size
  broadcaster : w.broadcasterOf receiver.broadcaster = b

theorem broadcasterOf_setBroadcaster {w : World} {id : Nat} (hid : id < w.broadcasters.size)
    (b : Broadcaster) : (w.setBroadcaster id b).broadcasterOf id = b := by
  simp [broadcasterOf, setBroadcaster, hid]

theorem keeps_setBroadcaster {w : World} {receiver : Subscription}
    (hknown : receiver.broadcaster < w.broadcasters.size) (b : Broadcaster) :
    (w.setBroadcaster receiver.broadcaster b).Keeps receiver b :=
  ⟨by simpa [setBroadcaster] using hknown, broadcasterOf_setBroadcaster hknown b⟩

end Rehearsal.World

/-- Nothing is taken where no signal waits. -/
theorem Broadcaster.take_eq_self {b : Broadcaster} {subscriber : Nat}
    (h : b.pending? subscriber = none) : (b.take subscriber).2 = b := by
  obtain ⟨channels⟩ := b
  refine congrArg Broadcaster.mk (List.ext_getElem? fun i => ?_)
  rw [List.getElem?_modify]
  by_cases hi : subscriber = i
  · subst hi
    simp only [Broadcaster.pending?, Option.bind_eq_none_iff] at h
    cases hchannel : channels[subscriber]? with
    | none => simp
    | some channel =>
      obtain ⟨pending, isOpen⟩ := channel
      cases h _ hchannel
      simp
  · simp [hi]

namespace Run

theorem run_concat (run : Run κ) (moves : List (RunMove κ)) (m : RunMove κ) :
    run.run (moves ++ [m]) = (run.run moves).step m :=
  List.foldl_append

/-- A run that stops waits for its second call. -/
theorem Way.call_stopping {run : Run κ} {due : Option Signal} {passes : List Phase}
    (h : run.Way due passes) {signal : Signal} {call : Nat}
    (hstate : run.state = .going (.stopping signal) call) : call = 1 := by
  cases h with
  | starting hgoing => cases hgoing.symm.trans hstate
  | waiting hgoing => cases hgoing.symm.trans hstate
  | refused hended => cases hended.symm.trans hstate
  | ended hended => cases hended.symm.trans hstate
  | dropped hdropped => cases hdropped.symm.trans hstate
  | stopping hgoing =>
    cases hgoing.symm.trans hstate
    rfl

/-- A frame that no signal of the operating system has reached shows a run which waits for the call
of that number: it is as far, and it has the same channel to the same broadcaster. -/
structure ShownBy (run : Run κ) (call : Nat) (w : World) (receiver : Subscription)
    (stage : RunStage) : Prop where
  state : run.state = .going stage call
  subscriber : receiver.subscriber = run.receiver
  keeps : w.Keeps receiver run.broadcaster

namespace ShownBy

variable {run : Run κ} {call : Nat} {w : World} {app : App} {receiver : Subscription}

/-- A frame of a run begins as a run does. -/
theorem begin (host : Host κ) (hknown : app.broadcaster < w.broadcasters.size) :
    ∃ receiver w', Launch.frames w (.run app) =
        ([.launch (.timedCall app .starting), .run app receiver .starting none], w') ∧
      (Run.begin host (w.broadcasterOf app.broadcaster)).ShownBy host.calls.length w' receiver
        .starting :=
  ⟨⟨app.broadcaster, _⟩, _, rfl, rfl, rfl, by simpa [World.setBroadcaster] using hknown,
    World.broadcasterOf_setBroadcaster hknown _⟩

/-- A frame that waits for a signal finds that which the run finds. -/
theorem wait (h : run.ShownBy call w receiver .waiting) (hallowance : w.allowance ≠ 0) :
    ((runTurn w app receiver none).1 = .wait ∧
      run.poll.ShownBy call (runTurn w app receiver none).2 receiver .waiting) ∨
    ∃ signal, (runTurn w app receiver none).1 =
        .go [.launch (.timedCall app .stopping), .run app receiver (.stopping signal) none] ∧
      run.poll.ShownBy run.host.calls.length (runTurn w app receiver none).2 receiver
        (.stopping signal) := by
  have htake : w.take receiver = ((run.broadcaster.take run.receiver).1,
      w.setBroadcaster receiver.broadcaster (run.broadcaster.take run.receiver).2) := by
    rw [World.take, h.keeps.broadcaster, h.subscriber]
  have hkeeps := World.keeps_setBroadcaster h.keeps.known (run.broadcaster.take run.receiver).2
  simp only [runTurn, if_neg hallowance, htake, Run.poll, h.state]
  cases hpending : run.broadcaster.pending? run.receiver with
  | none =>
    rw [show run.broadcaster.take run.receiver = (none, run.broadcaster) from
      Prod.ext hpending (Broadcaster.take_eq_self hpending)] at hkeeps ⊢
    exact .inl ⟨rfl, h.state, h.subscriber, hkeeps.known, hkeeps.broadcaster⟩
  | some signal =>
    rw [show run.broadcaster.take run.receiver =
      (some signal, (run.broadcaster.take run.receiver).2) from Prod.ext hpending rfl] at hkeeps ⊢
    exact .inr ⟨signal, rfl, rfl, h.subscriber, hkeeps.known, hkeeps.broadcaster⟩

/-- A frame takes the result of its call as the run takes that of its own. -/
theorem receive {stage : RunStage} (h : run.ShownBy call w receiver stage)
    (hstage : stage ≠ .waiting) {result : Except LifecycleError Unit} {fate : Fate}
    (hcall : run.host.calls[call]? = some ⟨.ended result, fate⟩) :
    ((Frame.run app receiver stage none).receive w (.pass result) =
        (.go [.run app receiver .waiting none], w) ∧
      run.poll.ShownBy call w receiver .waiting) ∨
    ∃ outcome, (Frame.run app receiver stage none).receive w (.pass result) =
        (.hand (.run outcome), w.unsubscribe receiver) ∧
      run.poll.state = .ended outcome ∧
      (w.unsubscribe receiver).broadcasterOf receiver.broadcaster = run.poll.broadcaster := by
  have hpoll : run.poll = run.follow call (stage.after result) := by
    cases stage with
    | waiting => exact absurd rfl hstage
    | starting => simp only [Run.poll, h.state, hcall]
    | stopping => simp only [Run.poll, h.state, hcall]
  simp only [hpoll, Frame.receive]
  cases stage.after result with
  | wait => exact .inl ⟨rfl, rfl, h.subscriber, h.keeps⟩
  | finish outcome =>
    refine .inr ⟨outcome, rfl, rfl, ?_⟩
    rw [World.unsubscribe, World.broadcasterOf_setBroadcaster h.keeps.known, h.keeps.broadcaster,
      h.subscriber]
    rfl

end ShownBy

end Run

/-! ## Frames that are played -/

/-- A frame is played along with a run that begins at the host, and the run has made these moves. It
takes its turns and what its calls hand over, and whatever else happens in the world is the same to
its broadcaster as to that of the run. -/
inductive Played (host : Host κ) (start : World) (app : App) :
    List (RunMove κ) → Run κ → World → Subscription → RunStage → Prop
  | begin {receiver : Subscription} {w : World}
      (hknown : app.broadcaster < start.broadcasters.size)
      (hframes : Launch.frames start (.run app) =
        ([.launch (.timedCall app .starting), .run app receiver .starting none], w)) :
      Played host start app [] (Run.begin host (start.broadcasterOf app.broadcaster)) w receiver
        .starting
  | elsewhere {moves : List (RunMove κ)} {run : Run κ} {w w' : World} {receiver : Subscription}
      {stage : RunStage} (h : Played host start app moves run w receiver stage) (m : HostMove κ)
      (hw' : w'.Keeps receiver run.broadcaster) :
      Played host start app (moves ++ [.host m]) (run.step (.host m)) w' receiver stage
  | signal {moves : List (RunMove κ)} {run : Run κ} {w w' : World} {receiver : Subscription}
      {stage : RunStage} (h : Played host start app moves run w receiver stage) (m : SignalMove)
      (hother : m.subscriber? ≠ some receiver.subscriber)
      (hw' : w'.Keeps receiver (run.broadcaster.apply m)) :
      Played host start app (moves ++ [.signal m]) (run.step (.signal m)) w' receiver stage
  | waits {moves : List (RunMove κ)} {run : Run κ} {w w' : World} {receiver : Subscription}
      (h : Played host start app moves run w receiver .waiting) (hallowance : w.allowance ≠ 0)
      (hturn : runTurn w app receiver none = (.wait, w')) :
      Played host start app (moves ++ [.poll]) run.poll w' receiver .waiting
  | asks {moves : List (RunMove κ)} {run : Run κ} {w w' : World} {receiver : Subscription}
      {signal : Signal} (h : Played host start app moves run w receiver .waiting)
      (hallowance : w.allowance ≠ 0)
      (hturn : runTurn w app receiver none =
        (.go [.launch (.timedCall app .stopping), .run app receiver (.stopping signal) none], w')) :
      Played host start app (moves ++ [.poll]) run.poll w' receiver (.stopping signal)
  | started {moves : List (RunMove κ)} {run : Run κ} {w w' : World} {receiver : Subscription}
      (h : Played host start app moves run w receiver .starting) {call : Nat} {fate : Fate}
      (hstate : run.state = .going .starting call)
      (hcall : run.host.calls[call]? = some ⟨.ended (.ok ()), fate⟩)
      (hturn : (Frame.run app receiver .starting none).receive w (.pass (.ok ())) =
        (.go [.run app receiver .waiting none], w')) :
      Played host start app (moves ++ [.poll]) run.poll w' receiver .waiting

namespace Played

variable {host : Host κ} {start w : World} {app : App} {moves : List (RunMove κ)} {run : Run κ}
  {receiver : Subscription} {stage : RunStage}

/-- The run has made the moves. -/
theorem run_eq (h : Played host start app moves run w receiver stage) :
    run = (Run.begin host (start.broadcasterOf app.broadcaster)).run moves := by
  induction h with
  | begin => rfl
  | elsewhere _ m _ ih => rw [Run.run_concat, ← ih]
  | signal _ m _ _ ih => rw [Run.run_concat, ← ih]
  | waits _ _ _ ih =>
    rw [Run.run_concat, ← ih]
    rfl
  | asks _ _ _ ih =>
    rw [Run.run_concat, ← ih]
    rfl
  | started _ _ _ _ ih =>
    rw [Run.run_concat, ← ih]
    rfl

/-- A frame that is played along with a run shows it. -/
theorem shown (h : Played host start app moves run w receiver stage) :
    ∃ call, run.ShownBy call w receiver stage := by
  induction h with
  | begin hknown hframes =>
    obtain ⟨receiver', w', hbegins, hshown⟩ := @Run.ShownBy.begin _ _ _ host hknown
    cases hbegins.symm.trans hframes
    exact ⟨_, hshown⟩
  | elsewhere _ m hw' ih =>
    obtain ⟨call, hshown⟩ := ih
    exact ⟨call, hshown.state, hshown.subscriber, hw'⟩
  | signal _ m hother hw' ih =>
    obtain ⟨call, hshown⟩ := ih
    rw [hshown.subscriber] at hother
    refine ⟨call, ?_⟩
    rw [Run.step, if_neg hother]
    exact ⟨hshown.state, hshown.subscriber, hw'⟩
  | waits _ hallowance hturn ih =>
    obtain ⟨call, hshown⟩ := ih
    have hwait := @Run.ShownBy.wait _ _ _ _ app _ hshown hallowance
    rw [hturn] at hwait
    obtain ⟨-, hafter⟩ | ⟨signal, hgoes, -⟩ := hwait
    · exact ⟨call, hafter⟩
    · cases hgoes
  | asks _ hallowance hturn ih =>
    obtain ⟨call, hshown⟩ := ih
    have hwait := @Run.ShownBy.wait _ _ _ _ app _ hshown hallowance
    rw [hturn] at hwait
    obtain ⟨hwaits, -⟩ | ⟨signal, hgoes, hafter⟩ := hwait
    · cases hwaits
    · cases hgoes
      exact ⟨_, hafter⟩
  | @started _ _ _ _ _ _ call _ hstate hcall hturn ih =>
    obtain ⟨call', hshown⟩ := ih
    obtain rfl : call = call' := by
      cases hstate.symm.trans hshown.state
      rfl
    have hreceive := @Run.ShownBy.receive _ _ _ _ app _ _ hshown RunStage.noConfusion _ _ hcall
    rw [hturn] at hreceive
    obtain ⟨hgoes, hafter⟩ | ⟨outcome, hhands, -⟩ := hreceive
    · cases hgoes
      exact ⟨call, hafter⟩
    · cases hhands

end Played

/-- A run begins while no pass stands at the gate, and no other call comes to the lifecycle. A frame
that is played along with it takes the success of its stop, gives its channel back, and hands over
the first signal that was sent since the run began. -/
theorem frame_returns_first_signal {base : Course κ} (hbase : base.Possible)
    (hgate : base.coordinator.line = []) (now : Nat) (scopes : Scopes) (allowed : Phase → Nat)
    {start w : World} {app : App} {moves : List (RunMove κ)} (hmoves : ∀ m ∈ moves, m.Undisturbed)
    {run : Run κ} {receiver : Subscription} {signal : Signal}
    (h : Played ⟨now, scopes, base, [], allowed⟩ start app moves run w receiver
      (.stopping signal)) {fate : Fate}
    (hstopped : run.host.calls[1]? = some ⟨.ended (.ok ()), fate⟩) :
    (moves.filterMap RunMove.signal?).head? = some signal ∧
      (Frame.run app receiver (.stopping signal) none).receive w (.pass (.ok ())) =
        (.hand (.run (.ok signal)), w.unsubscribe receiver) := by
  obtain ⟨call, hshown⟩ := h.shown
  have hway : run.Way (moves.filterMap RunMove.signal?).head? _ :=
    h.run_eq ▸ (Run.Way.begin hbase hgate now scopes allowed _).along hmoves
  have halive : run.state ≠ .dropped := by
    rw [hshown.state]
    rintro ⟨⟩
  obtain ⟨first, hfirst, hreturned⟩ := hway.returns hstopped halive
  obtain rfl : call = 1 := hway.call_stopping hshown.state
  have hreceive := @Run.ShownBy.receive _ _ _ _ app _ _ hshown RunStage.noConfusion _ _ hstopped
  rcases hreceive with ⟨hgoes, -⟩ | ⟨outcome, hhands, hended, -⟩
  · cases hgoes
  · cases hhands
    cases hreturned.symm.trans hended
    exact ⟨hfirst, rfl⟩

end ServiceHost
