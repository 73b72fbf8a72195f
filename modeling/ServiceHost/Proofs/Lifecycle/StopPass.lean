import ServiceHost.Proofs.Lifecycle.Reports
import ServiceHost.Proofs.Lifecycle.StartPass

/-!
# What a stop pass does

A stop pass goes back over the counted hooks and begins each stop callback only if the context is
not done. A callback that fails does not halt it: its failure is kept, and the pass goes on. So a
pass ends in one of three ways (`Turn.Rests`): it has come past all hooks, it is cut off at a hook
whose callback was to begin while the context was done, or it waits for a callback. What it has
seen, kept and recorded are the rounds of the callbacks that have returned (`StopRound`), and by
induction on the count they are those of the hooks that it has come past
(`Execution.stopFrom_unwound`), in any course, whatever other calls and hooks come in between.
-/

namespace ServiceHost

variable {κ : Type}

/-! ## Rounds -/

/-- The number of hooks with a stop callback. -/
def stopCallbacks (hooks : List (RegisteredHook κ)) : Nat :=
  hooks.countP RegisteredHook.stops

/-- A stop callback that returned, between what its pass was told before it and after it. -/
structure StopRound (κ : Type) where
  hook : RegisteredHook κ
  before : Reading
  result : Except Failure Unit
  after : Reading

namespace StopRound

/-- What is seen of the callback. -/
def events (id : PassId) (round : StopRound κ) : List (Event κ) :=
  [.began id .stop round.hook, .ended id .stop round.hook round.result]

/-- The failure of the callback, if it failed. -/
def failure? (round : StopRound κ) : Option StopFailure :=
  round.hook.failure? round.result

/-- The record of the callback, whatever came of it. -/
def record (round : StopRound κ) : HookRecord :=
  Lifecycle.recordOf round.hook round.before.now round.after

/-- The rounds of hooks that have a stop callback, as far as it is told what came of them. -/
def along : Reading → List (RegisteredHook κ) → List (Except Failure Unit × Reading) →
    List (StopRound κ)
  | before, hook :: rest, (result, after) :: more =>
    ⟨hook, before, result, after⟩ :: along after rest more
  | _, _ :: _, [] => []
  | _, [], _ => []

theorem failures_cons (round : StopRound κ) (rounds : List (StopRound κ)) :
    (round :: rounds).filterMap failure? = round.failure?.toList ++ rounds.filterMap failure? := by
  rw [List.filterMap_cons]
  cases round.failure? <;> rfl

end StopRound

/-- The result of a stop pass that has come past all hooks. -/
def stopOutcome (failures : StopFailures) : Except LifecycleError Unit :=
  if failures.isEmpty then .ok () else .error (.stopFailed failures)

namespace Turn

/-- The rounds of these hooks in a stop pass. -/
def stopRounds (turn : Turn) (hooks : List (RegisteredHook κ)) : List (StopRound κ) :=
  StopRound.along turn.reading (hooks.filter RegisteredHook.stops) turn.returns

/-- The failures among the rounds of these hooks. -/
def stopFailures (turn : Turn) (hooks : List (RegisteredHook κ)) : StopFailures :=
  (turn.stopRounds hooks).filterMap StopRound.failure?

/-- Where a stop pass is that has come past the hooks `past`: the hooks that it still has before it,
those of them that are counted, what is seen of the pass there, and the state of the lifecycle. When
it began, the failures `kept` had been kept. -/
inductive Rests (turn : Turn) (kept : StopFailures) (past : List (RegisteredHook κ)) :
    List (RegisteredHook κ) → List (RegisteredHook κ) → List (Event κ) → LifecycleState → Prop
  | done :
      Rests turn kept past [] [] [.finished turn.id (stopOutcome (kept ++ turn.stopFailures past))]
        .stopped
  /-- The context is done just before the callback of a hook, which stays counted. -/
  | cut {hook : RegisteredHook κ} {below : List (RegisteredHook κ)} {reason : ContextError}
      (hstops : hook.stops = true) (hdone : turn.DoneAfter (stopCallbacks past) reason) :
      Rests turn kept past (hook :: below) (hook :: below)
        [.finished turn.id
          (.error (.cancelled .stop hook.caller reason (kept ++ turn.stopFailures past)))]
        .stopping
  /-- It waits for the callback of a hook, which is not counted any more. -/
  | waiting {hook : RegisteredHook κ} {below : List (RegisteredHook κ)}
      (hstops : hook.stops = true) (hlive : turn.LiveAfter (stopCallbacks past))
      (hreturned : stopCallbacks past = turn.returns.length) :
      Rests turn kept past (hook :: below) below [.began turn.id .stop hook] .stopping

/-! ### One hook less -/

section
variable {turn turn' : Turn} {hook : RegisteredHook κ}
  {past rest counted : List (RegisteredHook κ)} {kept : StopFailures} {last : List (Event κ)}
  {state : LifecycleState} {result : Except Failure Unit} {reading : Reading}
  {more : List (Except Failure Unit × Reading)}

theorem stopCallbacks_cons (hook : RegisteredHook κ) (past : List (RegisteredHook κ)) :
    stopCallbacks (hook :: past) = stopCallbacks past + if hook.stops then 1 else 0 :=
  List.countP_cons

/-- There are no failures before the first round. -/
theorem append_stopFailures_nil (turn : Turn) (kept : StopFailures) :
    kept ++ turn.stopFailures ([] : List (RegisteredHook κ)) = kept :=
  List.append_nil kept

/-- A hook without a stop callback makes no round. -/
theorem stopRounds_skip (turn : Turn) (hskip : hook.stops = false) :
    turn.stopRounds (hook :: past) = turn.stopRounds past := by
  rw [stopRounds, List.filter_cons_of_neg (by simp [hskip]), stopRounds]

/-- The first callback to return makes the first round. -/
theorem stopRounds_cons (hstops : hook.stops = true)
    (hreturns : turn.returns = (result, reading) :: more) :
    turn.stopRounds (hook :: past) = ⟨hook, turn.reading, result, reading⟩ ::
      stopRounds { turn with reading, returns := more } past := by
  rw [stopRounds, List.filter_cons_of_pos hstops, hreturns]
  rfl

/-- What a pass keeps when it comes past a hook without a stop callback. -/
theorem Rests.skip (h : turn.Rests kept past rest counted last state) (hskip : hook.stops = false) :
    turn.Rests kept (hook :: past) rest counted last state := by
  have hcallbacks : stopCallbacks (hook :: past) = stopCallbacks past := by
    rw [stopCallbacks_cons, hskip]
    rfl
  have hfailures : turn.stopFailures (hook :: past) = turn.stopFailures past :=
    congrArg (List.filterMap StopRound.failure?) (stopRounds_skip turn hskip)
  cases h with
  | done =>
    rw [← hfailures]
    exact .done
  | cut hstops hdone =>
    rw [← hcallbacks] at hdone
    rw [← hfailures]
    exact .cut hstops hdone
  | waiting hstops hlive hreturned =>
    rw [← hcallbacks] at hlive hreturned
    exact .waiting hstops hlive hreturned

/-- The pass has kept the failure of the first callback, if it failed, and goes on with the rest of
what it is told. -/
theorem Rests.round (hstops : hook.stops = true)
    (hreturns : turn.returns = (result, reading) :: more)
    (h : Rests { turn with reading, returns := more } (Lifecycle.noteFailure kept hook result) past
      rest counted last state) :
    turn.Rests kept (hook :: past) rest counted last state := by
  have hremains := Remains.returned hreturns
  have hcallbacks : stopCallbacks (hook :: past) = stopCallbacks past + 1 := by
    rw [stopCallbacks_cons, hstops]
    rfl
  have hfailures : Lifecycle.noteFailure kept hook result ++
      stopFailures { turn with reading, returns := more } past =
        kept ++ turn.stopFailures (hook :: past) := by
    rw [stopFailures, stopFailures, stopRounds_cons hstops hreturns,
      StopRound.failures_cons, Lifecycle.noteFailure_eq, List.append_assoc]
    rfl
  cases h with
  | done =>
    rw [hfailures]
    exact .done
  | cut hrest hdone =>
    rw [hremains.doneAfter, ← hcallbacks] at hdone
    rw [hfailures]
    exact .cut hrest hdone
  | waiting hrest hlive hreturned =>
    rw [hremains.liveAfter, ← hcallbacks] at hlive
    refine .waiting hrest hlive ?_
    rw [hcallbacks, hreturned, hremains.length]

end

end Turn

/-! ## Executions -/

/-- What has become of a stop pass over these hooks, the last counted one first, that was at work in
this lifecycle after these events: it has come past the hooks `past`, each callback of which began
while the context was not done and has returned, and the lifecycle says so. -/
structure Execution.Unwound (turn : Turn) (kept : StopFailures) (todo : List (RegisteredHook κ))
    (l : Lifecycle κ) (seen : List (Event κ)) (past rest counted : List (RegisteredHook κ))
    (last : List (Event κ)) (state : LifecycleState) (e : Execution κ) : Prop where
  split : todo = past ++ rest
  clears : ∀ n < stopCallbacks past, turn.LiveAfter n ∧ n < turn.returns.length
  rests : turn.Rests kept past rest counted last state
  seen : e.seen = seen ++ (turn.stopRounds past).flatMap (StopRound.events turn.id) ++ last
  state : e.lifecycle.state = state
  started : e.lifecycle.started = counted.length
  records : e.lifecycle.stopRecords = l.stopRecords ++ (turn.stopRounds past).map StopRound.record

namespace Execution

section
variable {turn : Turn} {hook : RegisteredHook κ}
  {todo past rest counted : List (RegisteredHook κ)} {kept : StopFailures} {l : Lifecycle κ}
  {seen last : List (Event κ)} {state : LifecycleState} {e : Execution κ}

/-- A stop callback has returned. -/
theorem goOn_stop (id : PassId) (seen : List (Event κ)) (l : Lifecycle κ)
    (hook : RegisteredHook κ) (own : List (RegisteredHook κ)) (kept : StopFailures) (begun : Nat)
    (result : Except Failure Unit) (reading : Reading) :
    goOn id ⟨seen, l, some (.stopping hook own kept begun)⟩ (result, reading) =
      let r := Lifecycle.stopFrom reading own (Lifecycle.noteFailure kept hook result) l.started
        { l with
          running := none
          stopRecords := l.stopRecords ++ [Lifecycle.recordOf hook begun reading] }
      ⟨seen ++ [.ended id .stop hook result] ++ r.1.events id, r.2, r.1.waiting⟩ := by
  show Execution.mk (seen ++ _ :: _) _ _ = _
  rw [List.append_cons]
  rfl

/-- The pass has stopped before it came past any hook. -/
theorem Unwound.first (hrests : turn.Rests kept [] todo counted last state)
    (hseen : e.seen = seen ++ last) (hstate : e.lifecycle.state = state)
    (hstarted : e.lifecycle.started = counted.length)
    (hrecords : e.lifecycle.stopRecords = l.stopRecords) :
    e.Unwound turn kept todo l seen [] todo counted last state where
  split := rfl
  clears := nofun
  rests := hrests
  seen := hseen.trans (congrArg (· ++ last) (List.append_nil seen).symm)
  state := hstate
  started := hstarted
  records := hrecords.trans (List.append_nil _).symm

/-- A hook without a stop callback is taken off the count. -/
theorem Unwound.skip {count : Nat}
    (h : e.Unwound turn kept todo { l with started := count } seen past rest counted last state)
    (hskip : hook.stops = false) :
    e.Unwound turn kept (hook :: todo) l seen (hook :: past) rest counted last state where
  split := congrArg (hook :: ·) h.split
  clears := by
    rw [Turn.stopCallbacks_cons, hskip]
    exact h.clears
  rests := h.rests.skip hskip
  seen := by
    rw [Turn.stopRounds_skip turn hskip]
    exact h.seen
  state := h.state
  started := h.started
  records := by
    rw [Turn.stopRounds_skip turn hskip]
    exact h.records

/-- A stop callback has returned, and the pass has gone on. -/
theorem Unwound.round {result : Except Failure Unit} {reading : Reading}
    {more : List (Except Failure Unit × Reading)} {running : Option String} {count : Nat}
    (hstops : hook.stops = true) (hlive : turn.LiveAfter 0)
    (hreturns : turn.returns = (result, reading) :: more)
    (h : e.Unwound { turn with reading, returns := more } (Lifecycle.noteFailure kept hook result)
      todo
      { l with
        started := count
        running
        stopRecords := l.stopRecords ++ [Lifecycle.recordOf hook turn.reading.now reading] }
      (seen ++ [.began turn.id .stop hook] ++ [.ended turn.id .stop hook result]) past rest counted
      last state) :
    e.Unwound turn kept (hook :: todo) l seen (hook :: past) rest counted last state := by
  have hremains := Turn.Remains.returned hreturns
  refine ⟨congrArg (hook :: ·) h.split, fun n hn => ?_, h.rests.round hstops hreturns, ?_, h.state,
    h.started, ?_⟩
  · rw [hreturns, List.length_cons]
    cases n with
    | zero => exact ⟨hlive, Nat.succ_pos _⟩
    | succ n =>
      rw [Turn.stopCallbacks_cons, hstops] at hn
      obtain ⟨hlater, hreturned⟩ := h.clears n (Nat.lt_of_succ_lt_succ hn)
      exact ⟨hremains.liveAfter.1 hlater, Nat.succ_lt_succ hreturned⟩
  · rw [h.seen, Turn.stopRounds_cons hstops hreturns]
    simp [StopRound.events]
  · rw [h.records, Turn.stopRounds_cons hstops hreturns]
    simp [StopRound.record]

/-- A hook that is appended does not change what has become of the pass. -/
theorem Unwound.late (h : e.Unwound turn kept todo l seen past rest counted last state)
    (s : Schedule κ) :
    (s.lateSteps.foldl step e).Unwound turn kept todo l seen past rest counted last state := by
  unfold Schedule.lateSteps
  induction s.late generalizing e with
  | nil => exact h
  | cons appended more ih =>
    refine ih (e := e.append appended.1 appended.2) ?_
    rw [append_eq]
    exact ⟨h.split, h.clears, h.rests, h.seen, h.state, h.started, h.records⟩

end

/-- A stop pass comes back over the counted hooks to the first where it is cut off or waits, or past
all of them. -/
theorem stopFrom_unwound (turn : Turn) (own : List (RegisteredHook κ)) (kept : StopFailures)
    {count : Nat} {l : Lifecycle κ} (hcount : l.started = count) (hle : count ≤ own.length)
    (hstate : l.state = .stopping) (seen : List (Event κ)) :
    let r := Lifecycle.stopFrom turn.reading own kept count l
    ∃ past rest counted last state, (turn.returns.foldl (goOn turn.id)
      ⟨seen ++ r.1.events turn.id, r.2, r.1.waiting⟩).Unwound turn kept (own.take count).reverse l
        seen past rest counted last state := by
  induction count generalizing turn kept l seen with
  | zero =>
    simp only [Lifecycle.stopFrom]
    rw [foldl_goOn _ rfl]
    have hdone : turn.Rests (κ := κ) kept [] [] [] _ _ := .done
    rw [Turn.append_stopFailures_nil] at hdone
    exact ⟨[], [], [], _, _, .first hdone rfl rfl hcount rfl⟩
  | succ count ih =>
    have hlt : count < own.length := hle
    have htodo : (own.take (count + 1)).reverse = own[count] :: (own.take count).reverse := by
      rw [List.take_succ_eq_append_getElem hlt, List.reverse_append, List.reverse_singleton]
      rfl
    have hlength : (own.take count).reverse.length = count := by
      rw [List.length_reverse, List.length_take_of_le (Nat.le_of_lt hlt)]
    rw [htodo]
    generalize hhook : own[count] = hook
    have hfound : own[count]? = some hook := by rw [List.getElem?_eq_getElem hlt, hhook]
    cases hstop : hook.onStop with
    | none =>
      have hskip : hook.stops = false := by rw [RegisteredHook.stops, hstop]; rfl
      obtain ⟨past, rest, counted, last, state, hrest⟩ :=
        ih turn kept (l := { l with started := count }) rfl (Nat.le_of_lt hlt) hstate seen
      simp only [Lifecycle.stopFrom, hfound, hstop]
      exact ⟨_, _, _, _, _, hrest.skip hskip⟩
    | some callback =>
      have hstops : hook.stops = true := by rw [RegisteredHook.stops, hstop]; rfl
      cases herr : turn.reading.contextError with
      | some reason =>
        simp only [Lifecycle.stopFrom, hfound, hstop, herr]
        rw [foldl_goOn _ rfl]
        have hstays : l.started = (hook :: (own.take count).reverse).length := by
          rw [List.length_cons, hlength, hcount]
        have hcut : turn.Rests kept [] (hook :: (own.take count).reverse) _ _ _ :=
          .cut hstops ⟨_, rfl, herr⟩
        rw [Turn.append_stopFailures_nil] at hcut
        exact ⟨_, _, _, _, _, .first hcut rfl hstate hstays rfl⟩
      | none =>
        have hlive : turn.LiveAfter 0 := ⟨_, rfl, herr⟩
        simp only [Lifecycle.stopFrom, hfound, hstop, herr, PassStep.waiting]
        cases hreturns : turn.returns with
        | nil =>
          have hwaits : turn.Rests kept [] (hook :: (own.take count).reverse) _ _ _ :=
            .waiting hstops hlive (by rw [hreturns]; rfl)
          exact ⟨_, _, _, _, _, .first hwaits rfl hstate hlength.symm rfl⟩
        | cons returned more =>
          obtain ⟨result, reading⟩ := returned
          obtain ⟨past, rest, counted, last, state, hrest⟩ :=
            ih { turn with reading, returns := more } (Lifecycle.noteFailure kept hook result)
              (l := { l with
                started := count
                running := none
                stopRecords :=
                  l.stopRecords ++ [Lifecycle.recordOf hook turn.reading.now reading] })
              rfl (Nat.le_of_lt hlt) hstate
              (seen ++ [.began turn.id .stop hook] ++ [.ended turn.id .stop hook result])
          rw [List.foldl_cons]
          show ∃ past rest counted last state, (more.foldl (goOn turn.id) (goOn turn.id
            ⟨seen ++ [.began turn.id .stop hook], _, some (.stopping hook own kept _)⟩
            (result, reading))).Unwound turn kept _ l seen past rest counted last state
          rw [goOn_stop]
          exact ⟨_, _, _, _, _, .round hstops hlive hreturns hrest⟩

/-- A stop pass begins in any lifecycle. -/
theorem enter_stop (e : Execution κ) (id : PassId) (reading : Reading) :
    e.enter id .stop reading =
      let r := Lifecycle.stopFrom reading e.lifecycle.hooks [] e.lifecycle.started
        { e.lifecycle with state := .stopping, stopRecords := [] }
      ⟨e.seen ++ r.1.events id, r.2, r.1.waiting⟩ :=
  rfl

end Execution

/-- The stop pass that came to its turn last goes back over the hooks that were counted then. -/
theorem Schedule.unwound_of {moves : List (Move κ)} {turn : Turn}
    (hlast : (of moves).last = some turn) (hphase : turn.phase = .stop) :
    ∃ earlier later, Came moves turn earlier later ∧
      let l := (Course.of earlier).coordinator.lifecycle
      ∃ past rest counted last state, (Execution.of (of moves).steps).Unwound turn []
        (l.hooks.take l.started).reverse { l with state := .stopping, stopRecords := [] }
        (Course.of earlier).seen past rest counted last state := by
  obtain ⟨earlier, later, hcame⟩ := came hlast
  refine ⟨earlier, later, hcame, ?_⟩
  have hpossible : (Course.of earlier).Possible := ⟨earlier, rfl⟩
  obtain ⟨hreproduces, -, -⟩ := of_moves earlier
  rw [of_last hlast, hcame.earlier, Execution.step, hphase, Execution.enter_stop,
    hreproduces.lifecycle, hreproduces.seen]
  obtain ⟨past, rest, counted, last, state, hunwound⟩ := Execution.stopFrom_unwound turn
    (Course.of earlier).coordinator.lifecycle.hooks []
    (l := { (Course.of earlier).coordinator.lifecycle with state := .stopping, stopRecords := [] })
    rfl hpossible.counted.started rfl (Course.of earlier).seen
  exact ⟨past, rest, counted, last, state, hunwound.late (of moves)⟩

/-! ## Courses -/

/-- What comes of a stop pass over these hooks, the last counted one first, before which these
events were seen. -/
structure Turn.Unwinds (turn : Turn) (todo : List (RegisteredHook κ)) (before : List (Event κ))
    (course : Course κ) (past rest counted : List (RegisteredHook κ)) (last : List (Event κ)) :
    Prop where
  /-- It has come past some of the hooks. -/
  split : todo = past ++ rest
  /-- There it is done, cut off, or waiting. -/
  rests : turn.Rests [] past rest counted last course.coordinator.lifecycle.state
  seen : course.seen = before ++ (turn.stopRounds past).flatMap (StopRound.events turn.id) ++ last
  /-- Every stop callback of the hooks that it has come past has returned, in this order. -/
  ran : (turn.stopRounds past).map StopRound.hook = past.filter RegisteredHook.stops
  /-- The context was not done before any of them. -/
  live : ∀ n < stopCallbacks past, turn.LiveAfter n
  /-- The records are those of all of them, whatever came of them. -/
  recorded : course.coordinator.lifecycle.stopRecords = (turn.stopRounds past).map StopRound.record
  started : course.coordinator.lifecycle.started = counted.length
  counted : course.coordinator.lifecycle.hooks.take counted.length = counted.reverse

namespace Turn

section
variable {turn : Turn} {todo past rest counted : List (RegisteredHook κ)}
  {before last : List (Event κ)} {kept : StopFailures} {state : LifecycleState} {course : Course κ}

/-- As many rounds as callbacks have returned, if so many have. -/
theorem map_hook_stopRounds (h : ∀ n < stopCallbacks past, n < turn.returns.length) :
    (turn.stopRounds past).map StopRound.hook = past.filter RegisteredHook.stops := by
  have hlength : (past.filter RegisteredHook.stops).length ≤ turn.returns.length := by
    rw [← List.countP_eq_length_filter]
    by_contra hlt
    exact Nat.lt_irrefl _ (h _ (Nat.lt_of_not_le hlt))
  rw [stopRounds]
  generalize past.filter RegisteredHook.stops = hooks, turn.returns = returns,
    turn.reading = reading at hlength
  induction hooks generalizing returns reading with
  | nil => rfl
  | cons hook hooks ih =>
    cases returns with
    | nil => cases hlength
    | cons returned more =>
      obtain ⟨result, after⟩ := returned
      exact congrArg (hook :: ·) (ih more after (Nat.le_of_succ_le_succ hlength))

/-- The hooks left counted are among those that the pass has not come past, from the last one on. -/
theorem Rests.suffix (h : turn.Rests kept past rest counted last state) : counted <:+ rest := by
  cases h with
  | done => exact List.suffix_refl _
  | cut => exact List.suffix_refl _
  | waiting => exact List.suffix_cons _ _

/-- A callback before which the context is done is one that has not returned. -/
theorem Unwinds.not_doneAfter (h : turn.Unwinds todo before course past [] counted last)
    {above below : List (RegisteredHook κ)} {hook : RegisteredHook κ} {reason : ContextError}
    (htodo : todo = above ++ hook :: below) (hstops : hook.stops = true) :
    ¬ turn.DoneAfter (stopCallbacks above) reason := by
  refine (h.live (stopCallbacks above) ?_).not_doneAfter
  have hpast : past = above ++ hook :: below := by
    rw [← htodo, h.split, List.append_nil]
  rw [hpast, stopCallbacks, stopCallbacks, List.countP_append, List.countP_cons_of_pos hstops]
  omega

/-- What is seen of the end of a pass is seen where it has stopped. -/
theorem Unwinds.finished_mem (h : turn.Unwinds todo before course past rest counted last)
    (hbefore : ∀ event ∈ before, event.pass ≠ turn.id) {result : Except LifecycleError Unit}
    (hfinished : .finished turn.id result ∈ course.seen) : .finished turn.id result ∈ last := by
  rw [h.seen, List.append_assoc] at hfinished
  rcases List.mem_append.1 hfinished with hmem | hmem
  · exact absurd rfl (hbefore _ hmem)
  · refine (List.mem_append.1 hmem).resolve_left fun hround => ?_
    obtain ⟨round, -, hevent⟩ := List.mem_flatMap.1 hround
    simp [StopRound.events] at hevent

/-- A stop pass returns as cancelled exactly if the context was done just before the callback of a
hook that was still counted. -/
theorem Unwinds.cancelled_iff (h : turn.Unwinds todo before course past rest counted last)
    (hbefore : ∀ event ∈ before, event.pass ≠ turn.id) {result : Except LifecycleError Unit}
    (hfinished : .finished turn.id result ∈ course.seen) :
    (∃ caller reason failures, result = .error (.cancelled .stop caller reason failures)) ↔
      ∃ above hook below reason, todo = above ++ hook :: below ∧ hook.stops = true ∧
        turn.DoneAfter (stopCallbacks above) reason := by
  have hlast := h.finished_mem hbefore hfinished
  have hrests := h.rests
  generalize course.coordinator.lifecycle.state = state at hrests
  cases hrests with
  | done =>
    have hresult : result = stopOutcome (turn.stopFailures past) := by
      cases List.mem_singleton.1 hlast
      rfl
    constructor
    · rintro ⟨caller, reason, failures, hcancelled⟩
      rw [hresult, stopOutcome] at hcancelled
      split at hcancelled <;> cases hcancelled
    · rintro ⟨above, hook, below, reason, htodo, hstops, hdone⟩
      exact absurd hdone (h.not_doneAfter htodo hstops)
  | @cut hook below reason hstops hdone =>
    cases List.mem_singleton.1 hlast
    exact ⟨fun _ => ⟨past, hook, below, reason, h.split, hstops, hdone⟩,
      fun _ => ⟨_, _, _, rfl⟩⟩
  | waiting => cases List.mem_singleton.1 hlast

end

end Turn

/-- What comes of a stop pass is read off the place where it has stopped. -/
theorem Execution.Unwound.unwinds {turn : Turn} {todo past rest counted : List (RegisteredHook κ)}
    {l : Lifecycle κ} {before last : List (Event κ)} {state : LifecycleState} {e : Execution κ}
    (h : e.Unwound turn [] todo l before past rest counted last state)
    (hrecords : l.stopRecords = []) {course : Course κ} (hseen : e.seen = course.seen)
    (hlifecycle : e.lifecycle = course.coordinator.lifecycle)
    (hhooks : todo.reverse <+: course.coordinator.lifecycle.hooks) :
    turn.Unwinds todo before course past rest counted last := by
  have hstate := h.state
  have hstarted := h.started
  have hnoted := h.records
  rw [hlifecycle] at hstate hstarted hnoted
  rw [hrecords, List.nil_append] at hnoted
  have hcounted : counted.reverse <+: todo.reverse := by
    rw [List.reverse_prefix, h.split]
    exact h.rests.suffix.trans (List.suffix_append _ _)
  refine ⟨h.split, hstate ▸ h.rests, hseen.symm.trans h.seen,
    Turn.map_hook_stopRounds fun n hn => (h.clears n hn).2, fun n hn => (h.clears n hn).1, hnoted,
    hstarted, ?_⟩
  rw [List.prefix_iff_eq_take.1 (hcounted.trans hhooks), List.length_reverse]

/-- The stop pass that came to its turn last goes back over the hooks that were counted then. -/
theorem Schedule.unwinds_of {moves : List (Move κ)} {turn : Turn}
    (hlast : (of moves).last = some turn) (hphase : turn.phase = .stop) :
    ∃ earlier later, Came moves turn earlier later ∧
      let l := (Course.of earlier).coordinator.lifecycle
      ∃ past rest counted last, turn.Unwinds (l.hooks.take l.started).reverse
        (Course.of earlier).seen (Course.of moves) past rest counted last := by
  obtain ⟨earlier, later, hcame, past, rest, counted, last, state, hunwound⟩ :=
    unwound_of hlast hphase
  obtain ⟨hreproduces, -, -⟩ := of_moves moves
  have hhooks : (Course.of earlier).coordinator.lifecycle.hooks <+:
      (Course.of moves).coordinator.lifecycle.hooks := by
    rw [Course.hooks_of, Course.hooks_of, hcame.split, List.filterMap_append]
    exact List.prefix_append _ _
  refine ⟨earlier, later, hcame, past, rest, counted, last,
    hunwound.unwinds rfl hreproduces.seen hreproduces.lifecycle ?_⟩
  rw [List.reverse_reverse]
  exact (List.take_prefix _ _).trans hhooks

/-- A stop pass goes back over the hooks that are counted at its turn. It begins no callback while
the context is done, keeps the failure of each callback that fails, and goes on. It returns as
cancelled exactly if the context is done just before the callback of a hook that is still counted:
then it names that hook, carries the failures so far and leaves the hook and all below it counted.
Otherwise the lifecycle is stopped with none counted, and the pass carries all failures, if there
are any. The records are those of the callbacks that it ran, failed or not. Of all passes of a cycle
that have returned, each failure is reported once. And once the lifecycle is stopped, every further
stop pass returns without a callback and without an error, until a start pass is let through. -/
theorem stop_pass_accounted (moves : List (Move κ)) :
    let course := Course.of moves
    (∀ turn, (Schedule.of moves).last = some turn → turn.phase = .stop →
      ∃ earlier later, Schedule.Came moves turn earlier later ∧
        let l := (Course.of earlier).coordinator.lifecycle
        let todo := (l.hooks.take l.started).reverse
        (∃ past rest counted last,
          turn.Unwinds todo (Course.of earlier).seen course past rest counted last) ∧
        ∀ result, .finished turn.id result ∈ course.seen →
          ((∃ caller reason failures,
              result = .error (.cancelled .stop caller reason failures)) ↔
            ∃ above hook below reason, todo = above ++ hook :: below ∧ hook.stops = true ∧
              turn.DoneAfter (stopCallbacks above) reason)) ∧
    (∀ id hooks since, Course.Latest course.seen id hooks since →
      reportsOf since = failuresOf (ofReturned since) ∧
        (begunOf .stop since).Sublist (hooks.filter RegisteredHook.stops).reverse) ∧
    (course.coordinator.lifecycle.state = .stopped → ∀ more,
      let later := Course.of (moves ++ more)
      ∃ new, later.seen = course.seen ++ new ∧
        ((∀ id hooks, .opened id hooks ∉ new) →
          (∀ event ∈ new, ∃ id, event = .finished id (.ok ())) ∧
          later.coordinator.lifecycle.state = .stopped ∧
          ∀ id reading, later.coordinator.turn? id = some .stop →
            later.coordinator.events (.enter id reading) = [.finished id (.ok ())])) := by
  have hpossible : (Course.of moves).Possible := ⟨moves, rfl⟩
  refine ⟨fun turn hlast hphase => ?_, fun id hooks since hlatest => ?_, fun hstopped more => ?_⟩
  · obtain ⟨earlier, later, hcame, past, rest, counted, last, hunwinds⟩ :=
      Schedule.unwinds_of hlast hphase
    have hquiet : (Course.of earlier).Quiet := Course.Possible.quiet ⟨earlier, rfl⟩
    exact ⟨earlier, later, hcame, ⟨past, rest, counted, last, hunwinds⟩,
      fun result => hunwinds.cancelled_iff (hquiet.of_turn hcame.entered)⟩
  · exact ⟨(hpossible.reported hlatest).reports, (hpossible.sequence hlatest).2.1⟩
  · have hlater : (Course.of (moves ++ more)).Possible := ⟨_, rfl⟩
    have hrun := Course.stopped_run hpossible hstopped more
    rw [Course.of, Course.run_append]
    obtain ⟨new, hseen, hkept⟩ := hrun
    refine ⟨new, hseen, fun hopened => ?_⟩
    obtain ⟨hstate, hnew⟩ := hkept hopened
    rw [Course.of, Course.run_append] at hlater
    exact ⟨hnew, hstate, fun id reading hturn =>
      Coordinator.events_stop_of_stopped hlater.counted hstate hturn reading⟩

/-- Of three hooks the second has no callbacks. A stop pass runs the callback of the third, which
fails, and then its context is done; the next one runs that of the first, which fails too; and a
third one comes when nothing is left. -/
def retriedFailures : List (Move Unit) :=
  [ .append "store" ⟨some (), some (), none⟩,
    .append "metrics" ⟨none, none, none⟩,
    .append "server" ⟨none, some (), none⟩,
    .ask .start, .enter 0 ⟨0, none⟩, .returned 0 (.ok ()) ⟨1, none⟩,
    .ask .stop, .enter 1 ⟨2, none⟩,
    .returned 1 (.error (.plain "still busy")) ⟨3, some .deadlineExceeded⟩,
    .ask .stop, .enter 2 ⟨4, none⟩, .returned 2 (.error (.plain "flush failed")) ⟨5, none⟩,
    .ask .stop, .enter 3 ⟨6, some .canceled⟩ ]

/-- Each of the two failures is reported once, by the pass that ran its callback. -/
theorem retriedFailures_reported :
    ∃ since hooks, Course.Latest (Course.of retriedFailures).seen 0 hooks since ∧
      .finished 1 (.error (.cancelled .stop "store" .deadlineExceeded
        [⟨"server", .plain "still busy"⟩])) ∈ since ∧
      .finished 2 (.error (.stopFailed [⟨"store", .plain "flush failed"⟩])) ∈ since ∧
      .finished 3 (.ok ()) ∈ since ∧
      failuresOf (ofReturned since) =
        [⟨"server", .plain "still busy"⟩, ⟨"store", .plain "flush failed"⟩] := by
  let store : RegisteredHook Unit := ⟨some (), some (), "store"⟩
  let metrics : RegisteredHook Unit := ⟨none, none, "metrics"⟩
  let server : RegisteredHook Unit := ⟨none, some (), "server"⟩
  let since : List (Event Unit) :=
    [.began 0 .start store, .ended 0 .start store (.ok ()), .finished 0 (.ok ()),
      .began 1 .stop server, .ended 1 .stop server (.error (.plain "still busy")),
      .finished 1 (.error (.cancelled .stop "store" .deadlineExceeded
        [⟨"server", .plain "still busy"⟩])),
      .began 2 .stop store, .ended 2 .stop store (.error (.plain "flush failed")),
      .finished 2 (.error (.stopFailed [⟨"store", .plain "flush failed"⟩])), .finished 3 (.ok ())]
  have hlatest : Course.Latest (Course.of retriedFailures).seen 0 [store, metrics, server] since :=
    ⟨⟨[], rfl⟩, by simp [since]⟩
  refine ⟨since, _, hlatest, ?_, ?_, ?_, ?_⟩
  · simp [since]
  · simp [since]
  · simp [since]
  · exact ((stop_pass_accounted retriedFailures).2.1 _ _ _ hlatest).1.symm.trans rfl

end ServiceHost
