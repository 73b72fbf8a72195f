import Mathlib.Data.List.Induction
import ServiceHost.Shutdown

/-!
# Delivery of signals

A broadcaster is shared by all who hold it, so that what happens to it is one sequence of moves,
whoever makes them: subscribers are added, signals are sent, receivers take what waits for them and
are given up (`SignalMove`). Two things are to be known of a subscriber, whether its receiver is
held and which signal waits for it, and each operation is told by what it does to these two
(`isHeld_broadcast`, `pending?_broadcast` and so on). So a move keeps the balance of a subscriber:
what waits for it and what becomes due to it by the move is what it takes and what waits for it
then (`pending?_apply`). Over a whole sequence of moves this says that nothing which was due is
lost, overwritten or taken twice (`pending?_run`).
-/

namespace ServiceHost

/-- What can happen to a broadcaster, through any of its holders, and to its subscribers. -/
inductive SignalMove where
  | register
  | broadcast (signal : Signal)
  | shutdown
  /-- A subscriber looks for a signal. One that waits does so until there is one. -/
  | receive (subscriber : Nat)
  /-- A subscriber gives up its receiver. -/
  | close (subscriber : Nat)
deriving DecidableEq, Repr

/-- The signal that is sent by a move. -/
def SignalMove.signal? : SignalMove → Option Signal
  | .broadcast signal => some signal
  | .shutdown => some .terminate
  | .register => none
  | .receive _ => none
  | .close _ => none

namespace Broadcaster

/-- The subscriber holds its receiver. -/
def isHeld (b : Broadcaster) (subscriber : Nat) : Bool :=
  b.channels[subscriber]?.any (·.isOpen)

/-- The subscriber holds its receiver, and no signal waits for it. -/
def awaits (b : Broadcaster) (subscriber : Nat) : Bool :=
  b.isHeld subscriber && (b.pending? subscriber).isNone

/-- The broadcaster after a move. A receiver that was given up takes nothing any more. -/
def apply (b : Broadcaster) : SignalMove → Broadcaster
  | .register => b.register.2
  | .broadcast signal => (b.broadcast signal).2
  | .shutdown => b.shutdown.2
  | .receive subscriber => if b.isHeld subscriber then (b.take subscriber).2 else b
  | .close subscriber => b.close subscriber

/-- The broadcaster after more moves. -/
def run (b : Broadcaster) (moves : List SignalMove) : Broadcaster :=
  moves.foldl apply b

/-- The signal that becomes due to a subscriber by a move: it is sent while the subscriber holds its
receiver and no other signal waits there. -/
def dueBy (subscriber : Nat) (b : Broadcaster) (m : SignalMove) : Option Signal :=
  if b.awaits subscriber then m.signal? else none

/-- The signal that a subscriber takes by a move. -/
def takenBy (subscriber : Nat) (b : Broadcaster) : SignalMove → Option Signal
  | .receive other =>
    if other = subscriber ∧ b.isHeld subscriber then (b.take subscriber).1 else none
  | _ => none

/-- What is told of each of some moves, in their order. -/
def collect (tell : Broadcaster → SignalMove → Option Signal) :
    Broadcaster → List SignalMove → List Signal
  | _, [] => []
  | b, m :: rest => (tell b m).toList ++ collect tell (b.apply m) rest

/-- The signals that became due to a subscriber of a new broadcaster. -/
def due (subscriber : Nat) (moves : List SignalMove) : List Signal :=
  collect (dueBy subscriber) .empty moves

/-- The signals that a subscriber of a new broadcaster has taken. -/
def obtained (subscriber : Nat) (moves : List SignalMove) : List Signal :=
  collect (takenBy subscriber) .empty moves

/-! ## Operations and what they do to a subscriber -/

section
variable (b : Broadcaster) (signal : Signal) (other i : Nat)

/-- A broadcast offers its signal to every subscriber there is. -/
theorem channels_broadcast : (b.broadcast signal).2.channels = b.channels.map (.offer signal) := by
  unfold broadcast
  split
  · next hempty => simp [List.isEmpty_iff.1 hempty]
  · simp only
    split <;> rfl

/-- A new subscriber holds its receiver, and the others as before. -/
@[simp] theorem isHeld_register :
    b.register.2.isHeld i = (b.isHeld i || i == b.channels.length) := by
  simp only [isHeld, register]
  rcases Nat.lt_trichotomy i b.channels.length with hlt | rfl | hgt
  · rw [List.getElem?_append_left hlt, beq_eq_false_iff_ne.2 (Nat.ne_of_lt hlt), Bool.or_false]
  · simp [Channel.fresh]
  · simp [Nat.ne_of_gt hgt, Nat.not_lt.2 (Nat.le_of_lt hgt), List.getElem?_append,
      Nat.sub_ne_zero_of_lt hgt]

/-- Nothing waits for a new subscriber, and the same as before for the others. -/
@[simp] theorem pending?_register : b.register.2.pending? i = b.pending? i := by
  simp only [pending?, register]
  rcases Nat.lt_trichotomy i b.channels.length with hlt | rfl | hgt
  · rw [List.getElem?_append_left hlt]
  · simp [Channel.fresh]
  · simp [Nat.not_lt.2 (Nat.le_of_lt hgt), List.getElem?_append, Nat.sub_ne_zero_of_lt hgt]

/-- A signal takes no receiver away. -/
@[simp] theorem isHeld_broadcast : (b.broadcast signal).2.isHeld i = b.isHeld i := by
  simp only [isHeld, channels_broadcast, List.getElem?_map]
  cases b.channels[i]? with
  | none => rfl
  | some channel =>
    simp only [Option.map_some, Option.any_some, Channel.offer]
    split <;> rfl

/-- A signal waits for each subscriber that holds its receiver and has none waiting. -/
@[simp] theorem pending?_broadcast :
    (b.broadcast signal).2.pending? i = if b.awaits i then some signal else b.pending? i := by
  simp only [awaits, isHeld, pending?, channels_broadcast, List.getElem?_map]
  rcases Option.eq_none_or_eq_some b.channels[i]? with hnone | ⟨channel, hsome⟩
  · simp [hnone]
  · simp only [hsome, Option.map_some, Option.bind_some, Option.any_some, Channel.offer]
    change _ = if channel.hasRoom then some signal else channel.pending
    split <;> rfl

/-- Taking a signal gives up no receiver. -/
@[simp] theorem isHeld_take : (b.take other).2.isHeld i = b.isHeld i := by
  simp only [isHeld, take, List.getElem?_modify]
  cases b.channels[i]? with
  | none => rfl
  | some channel =>
    simp only [Option.map_eq_map, Option.map_some, Option.any_some]
    split <;> rfl

/-- Nothing waits for a subscriber that has taken its signal. -/
@[simp] theorem pending?_take :
    (b.take other).2.pending? i = if other = i then none else b.pending? i := by
  simp only [pending?, take, List.getElem?_modify]
  cases b.channels[i]? with
  | none => split <;> rfl
  | some channel =>
    simp only [Option.map_eq_map, Option.map_some, Option.bind_some]
    split <;> rfl

/-- A subscriber that goes away holds its receiver no more. -/
@[simp] theorem isHeld_close : (b.close other).isHeld i = (b.isHeld i && other != i) := by
  simp only [isHeld, close, List.getElem?_modify]
  cases b.channels[i]? with
  | none => rfl
  | some channel =>
    by_cases hother : other = i <;> simp [hother]

/-- What waits for a subscriber stays there when it goes away. -/
@[simp] theorem pending?_close : (b.close other).pending? i = b.pending? i := by
  simp only [pending?, close, List.getElem?_modify]
  cases b.channels[i]? with
  | none => rfl
  | some channel =>
    simp only [Option.map_eq_map, Option.map_some, Option.bind_some]
    split <;> rfl

end

/-- The elements with a property are as many as the places at which there is one. -/
theorem countP_eq_range {α : Type} (p : α → Bool) (l : List α) :
    l.countP p = (List.range l.length).countP fun i => l[i]?.any p := by
  induction l using List.reverseRecOn with
  | nil => rfl
  | append_singleton l last ih =>
    have hbefore : ∀ i ∈ List.range l.length, (l ++ [last])[i]?.any p ↔ l[i]?.any p := by
      intro i hi
      rw [List.getElem?_append_left (List.mem_range.1 hi)]
    rw [List.length_append, List.length_singleton, List.range_succ, List.countP_append,
      List.countP_append, List.countP_congr hbefore, ← ih]
    simp [List.countP_cons]

/-- The number of subscribers that cannot be given a signal: those that gave up their receiver, and
those for which another signal still waits. -/
def unreachable (b : Broadcaster) : Nat :=
  (List.range b.subscriberCount).countP fun i => !b.isHeld i || (b.pending? i).isSome

/-- A broadcast fails for want of subscribers if there are none, and otherwise if there are some
that cannot be given the signal. -/
theorem broadcast_fst (b : Broadcaster) (signal : Signal) :
    (b.broadcast signal).1 =
      if b.subscriberCount = 0 then .error .noSubscribers
      else if b.unreachable = 0 then .ok ()
      else .error (.undelivered signal b.unreachable b.subscriberCount) := by
  have hunsent : b.channels.countP (fun c => !c.hasRoom) = b.unreachable := by
    rw [countP_eq_range, unreachable, subscriberCount]
    refine List.countP_congr fun i hi => ?_
    have hlt := List.mem_range.1 hi
    simp only [isHeld, pending?, List.getElem?_eq_getElem hlt, Option.any_some, Option.bind_some,
      Channel.hasRoom]
    cases b.channels[i].isOpen <;> simp
  unfold broadcast subscriberCount
  by_cases hempty : b.channels = []
  · simp [hempty]
  · simp only [hunsent, List.isEmpty_iff, hempty, if_false, List.length_eq_zero_iff]
    split <;> rfl

/-! ## Moves and whole sequences of them -/

/-- The balance of a subscriber at a move: what waited and what became due was taken or waits. -/
theorem pending?_apply (b : Broadcaster) (m : SignalMove) (i : Nat) :
    (b.pending? i).toList ++ (dueBy i b m).toList =
      (takenBy i b m).toList ++ ((b.apply m).pending? i).toList := by
  have hsent (signal : Signal) : (b.pending? i).toList ++
      (if b.awaits i then some signal else none).toList =
        ((b.broadcast signal).2.pending? i).toList := by
    rw [pending?_broadcast]
    by_cases hawaits : b.awaits i
    · obtain ⟨-, hempty⟩ := Bool.and_eq_true_iff.1 hawaits
      simp [hawaits, Option.isNone_iff_eq_none.1 hempty]
    · simp [hawaits]
  cases m with
  | register => simp [dueBy, takenBy, apply, SignalMove.signal?]
  | broadcast signal => exact hsent signal
  | shutdown => exact hsent .terminate
  | close other => simp [dueBy, takenBy, apply, SignalMove.signal?]
  | receive other =>
    simp only [dueBy, takenBy, apply, SignalMove.signal?, ite_self, Option.toList_none,
      List.append_nil]
    by_cases hother : other = i
    · subst hother
      by_cases hheld : b.isHeld other
      · simp [hheld, show (b.take other).1 = b.pending? other from rfl]
      · simp [hheld]
    · by_cases hheld : b.isHeld other <;> simp [hother, hheld]

/-- Over any moves, what waited for a subscriber and what became due to it is, in this order, what
it took and what still waits. -/
theorem pending?_run (b : Broadcaster) (moves : List SignalMove) (i : Nat) :
    (b.pending? i).toList ++ collect (dueBy i) b moves =
      collect (takenBy i) b moves ++ ((b.run moves).pending? i).toList := by
  induction moves generalizing b with
  | nil => exact List.append_nil _
  | cons m rest ih =>
    calc (b.pending? i).toList ++ collect (dueBy i) b (m :: rest)
        = ((b.pending? i).toList ++ (dueBy i b m).toList) ++ collect (dueBy i) (b.apply m) rest :=
          (List.append_assoc ..).symm
      _ = (takenBy i b m).toList ++
            (((b.apply m).pending? i).toList ++ collect (dueBy i) (b.apply m) rest) := by
          rw [pending?_apply, List.append_assoc]
      _ = collect (takenBy i) b (m :: rest) ++ ((b.run (m :: rest)).pending? i).toList := by
          rw [ih, ← List.append_assoc]
          rfl

theorem collect_concat (tell : Broadcaster → SignalMove → Option Signal) (b : Broadcaster)
    (moves : List SignalMove) (m : SignalMove) :
    collect tell b (moves ++ [m]) = collect tell b moves ++ (tell (b.run moves) m).toList := by
  induction moves generalizing b with
  | nil => exact List.append_nil _
  | cons first rest ih => exact (congrArg _ (ih _)).trans (List.append_assoc ..).symm

theorem run_concat (b : Broadcaster) (moves : List SignalMove) (m : SignalMove) :
    b.run (moves ++ [m]) = (b.run moves).apply m := by
  simp only [run, List.foldl_append, List.foldl_cons, List.foldl_nil]

/-- A subscriber is counted when it comes, and for good. -/
theorem subscriberCount_apply (b : Broadcaster) (m : SignalMove) :
    (b.apply m).subscriberCount = b.subscriberCount + [m].count .register := by
  cases m with
  | register => exact List.length_append
  | broadcast signal => simp [apply, subscriberCount, channels_broadcast]
  | shutdown => simp [apply, shutdown, subscriberCount, channels_broadcast]
  | close other => simp [apply, subscriberCount, close]
  | receive other =>
    simp only [apply]
    split <;> simp [subscriberCount, take]

/-- Subscribers are never taken from the list: they are as many as ever came. -/
theorem subscriberCount_run (moves : List SignalMove) :
    (empty.run moves).subscriberCount = moves.count .register := by
  induction moves using List.reverseRecOn with
  | nil => rfl
  | append_singleton moves m ih => rw [run_concat, subscriberCount_apply, ih, List.count_append]

/-- A move gives up the receiver it names, and only a registration brings a new one. -/
theorem isHeld_apply (b : Broadcaster) (m : SignalMove) (i : Nat) :
    (b.apply m).isHeld i ↔
      (b.isHeld i ∧ m ≠ .close i) ∨ (m = .register ∧ b.subscriberCount = i) := by
  cases m with
  | register => simp [apply, subscriberCount, eq_comm (a := i)]
  | broadcast signal => simp [apply]
  | shutdown => simp [apply, shutdown]
  | close other => simp [apply]
  | receive other =>
    simp only [apply]
    split <;> simp

/-- A receiver is held from the registration that made it until it is given up. -/
theorem isHeld_run (moves : List SignalMove) (i : Nat) :
    (empty.run moves).isHeld i ↔
      ∃ before after, moves = before ++ .register :: after ∧ before.count .register = i ∧
        .close i ∉ after := by
  induction moves using List.reverseRecOn with
  | nil => simp [run, isHeld, empty]
  | append_singleton moves m ih =>
    rw [run_concat, isHeld_apply, ih, subscriberCount_run]
    constructor
    · rintro (⟨⟨before, after, rfl, hcount, hopen⟩, hclose⟩ | ⟨rfl, hcount⟩)
      · exact ⟨before, after ++ [m], by simp, hcount, by simp [hopen, Ne.symm hclose]⟩
      · exact ⟨moves, [], rfl, hcount, List.not_mem_nil⟩
    · rintro ⟨before, after, hmoves, hcount, hopen⟩
      rcases List.eq_nil_or_concat after with rfl | ⟨after, last, rfl⟩
      · obtain ⟨rfl, hm⟩ := List.append_inj' hmoves rfl
        exact .inr ⟨List.singleton_inj.1 hm, hcount⟩
      · rw [List.concat_eq_append] at hmoves hopen
        rw [← List.cons_append, ← List.append_assoc] at hmoves
        obtain ⟨rfl, hm⟩ := List.append_inj' hmoves rfl
        obtain rfl := List.singleton_inj.1 hm
        simp only [List.mem_append, List.mem_singleton, not_or] at hopen
        exact .inl ⟨⟨before, after, rfl, hcount, hopen.1⟩, Ne.symm hopen.2⟩

/-- What is due to a subscriber has been taken by it or waits for it, in the order in which it was
sent. -/
theorem due_eq (moves : List SignalMove) (i : Nat) :
    due i moves = obtained i moves ++ ((empty.run moves).pending? i).toList :=
  pending?_run empty moves i

/-- No subscriber is unreachable if every one holds its receiver and has no signal waiting. -/
theorem unreachable_eq_zero (b : Broadcaster) :
    b.unreachable = 0 ↔ ∀ i < b.subscriberCount, b.awaits i := by
  simp [unreachable, List.countP_eq_zero, awaits]

/-- What a broadcast does after some moves, whoever made them: `b` is the broadcaster that they
leave behind and `b'` the one after the broadcast. -/
structure Delivers (moves : List SignalMove) (signal : Signal) (b b' : Broadcaster)
    (result : Except ShutdownError Unit) : Prop where
  /-- It fails for want of subscribers if nobody ever subscribed. -/
  alone : result = .error .noSubscribers ↔ .register ∉ moves
  /-- It succeeds if there are subscribers, all hold their receivers and none has a signal
  waiting. -/
  done : result = .ok () ↔ .register ∈ moves ∧ ∀ i < moves.count .register, b.awaits i
  /-- Otherwise it tells how many did not get the signal, out of how many there ever were: those
  that gave up their receiver, and those for which another signal waits. -/
  missed : ∀ other unsent total, result = .error (.undelivered other unsent total) ↔
    other = signal ∧ total = moves.count .register ∧ unsent ≠ 0 ∧
      unsent = (List.range total).countP fun i => !b.isHeld i || (b.pending? i).isSome
  /-- A receiver that is held and has nothing waiting has the signal waiting then. -/
  sent : ∀ i, b.isHeld i → b.pending? i = none → b'.pending? i = some signal
  /-- A signal that waits is left as it is. -/
  left : ∀ i older, b.pending? i = some older → b'.pending? i = some older
  /-- Nothing is put where the receiver was given up. -/
  closed : ∀ i, b.isHeld i = false → b'.pending? i = b.pending? i
  /-- The same receivers are held. -/
  held : ∀ i, b'.isHeld i = b.isHeld i

/-- A broadcast after any moves does what it should. -/
theorem delivers (moves : List SignalMove) (signal : Signal) :
    Delivers moves signal (empty.run moves) ((empty.run moves).broadcast signal).2
      ((empty.run moves).broadcast signal).1 := by
  have hcount := subscriberCount_run moves
  have hsome : .register ∈ moves ↔ moves.count .register ≠ 0 := by
    rw [← Nat.pos_iff_ne_zero, List.count_pos_iff]
  have hresult := broadcast_fst (empty.run moves) signal
  generalize empty.run moves = b at hcount hresult ⊢
  rw [hcount] at hresult
  have hall : (∀ i < moves.count .register, b.awaits i) ↔ b.unreachable = 0 := by
    rw [unreachable_eq_zero, hcount]
  refine
    { alone := ?_
      done := ?_
      missed := ?_
      sent := ?_
      left := ?_
      closed := ?_
      held := fun i => isHeld_broadcast b signal i }
  · rw [hresult, hsome, not_not]
    split_ifs <;> simp [*]
  · rw [hresult, hsome, hall]
    split_ifs <;> simp [*]
  · intro other unsent total
    have hunsent : b.unreachable = (List.range (moves.count .register)).countP fun i =>
        !b.isHeld i || (b.pending? i).isSome := by
      rw [unreachable, hcount]
    rw [hresult]
    constructor
    · intro hmissed
      split_ifs at hmissed with hnobody hreached
      · cases hmissed
      · obtain ⟨rfl, rfl, rfl⟩ := ShutdownError.undelivered.inj (Except.error.inj hmissed)
        exact ⟨rfl, rfl, hreached, hunsent⟩
    · rintro ⟨rfl, rfl, hsomeone, hnumber⟩
      rw [← hunsent] at hnumber
      subst hnumber
      have hsubscribed : moves.count .register ≠ 0 := by
        intro hnobody
        rw [hunsent, hnobody] at hsomeone
        exact hsomeone rfl
      rw [if_neg hsubscribed, if_neg hsomeone]
  · intro i hheld hempty
    simp [awaits, hheld, hempty]
  · intro i older holder
    simp [awaits, holder]
  · intro i hclosed
    simp [awaits, hclosed]

end Broadcaster

/-- After any moves at a broadcaster a broadcast does what `Broadcaster.Delivers` says, and so does
a request to terminate. Receivers are numbered by their registrations, and one is held until it is
given up. What a subscriber has taken, followed by what waits for it, is what was sent while it held
its receiver and had nothing waiting; once it looks again, it has taken all of that. A broadcast
that succeeds is due to everyone who subscribed before. -/
theorem signals_delivered_once (moves : List SignalMove) :
    let b := Broadcaster.empty.run moves
    (∀ signal, Broadcaster.Delivers moves signal b (b.broadcast signal).2 (b.broadcast signal).1) ∧
    Broadcaster.Delivers moves .terminate b b.shutdown.2 b.shutdown.1 ∧
    (∀ i, b.isHeld i ↔
      ∃ before after, moves = before ++ .register :: after ∧ before.count .register = i ∧
        .close i ∉ after) ∧
    (∀ i, Broadcaster.due i moves = Broadcaster.obtained i moves ++ (b.pending? i).toList) ∧
    (∀ i, b.isHeld i →
      Broadcaster.obtained i (moves ++ [.receive i]) = Broadcaster.due i moves) ∧
    ∀ signal, (b.broadcast signal).1 = .ok () → ∀ i < moves.count .register,
      Broadcaster.due i (moves ++ [.broadcast signal]) = Broadcaster.due i moves ++ [signal] := by
  intro b
  refine ⟨fun signal => Broadcaster.delivers moves signal, Broadcaster.delivers moves .terminate,
    Broadcaster.isHeld_run moves, Broadcaster.due_eq moves, ?_, ?_⟩
  · intro i hheld
    rw [Broadcaster.obtained, Broadcaster.collect_concat, Broadcaster.due_eq]
    simp only [Broadcaster.takenBy]
    rw [if_pos ⟨trivial, hheld⟩]
    rfl
  · intro signal hok i hi
    have hawaits : b.awaits i := ((Broadcaster.delivers moves signal).done.1 hok).2 i hi
    rw [Broadcaster.due, Broadcaster.collect_concat, Broadcaster.dueBy, if_pos hawaits]
    rfl

end ServiceHost
