import ServiceHost.Proofs.Lifecycle.Sequence

/-!
# What a start pass does

A start pass comes past the hooks one by one: past one without a start callback at once, past
another when its callback has returned without a failure, which is begun only if the context is not
done (`Turn.Clears`). Otherwise the hook halts the pass with an error (`Turn.Halts`), or the pass is
left waiting for the callback. What the call is told of the context, and what comes of each
callback, are data of the call (`Turn`), and since each hook takes none or one of them, the pass
over a list of hooks is the pass over the rest of the list with the rest of what the call is told
(`Turn.Remains`). So by induction on the hooks a pass stops at the first that it does not come past
(`Execution.startFrom_started`), and what it has counted, recorded and begun can be read off that
place (`Turn.Performs`). The hooks are those that were appended before the turn of the call
(`Schedule.started_of`), in any course, whatever other calls and hooks come in between.
-/

namespace ServiceHost

variable {κ : Type}

/-- The number of hooks with a start callback. -/
def startCallbacks (hooks : List (RegisteredHook κ)) : Nat :=
  hooks.countP RegisteredHook.starts

namespace Turn

/-- What the call is told of the outside when `n` of its callbacks have returned. -/
def told? (turn : Turn) (n : Nat) : Option Reading :=
  (turn.reading :: turn.returns.map Prod.snd)[n]?

/-- The context is not done when `n` callbacks have returned. -/
def LiveAfter (turn : Turn) (n : Nat) : Prop :=
  ∃ reading, turn.told? n = some reading ∧ reading.contextError = none

/-- The context is done for this reason when `n` callbacks have returned. -/
def DoneAfter (turn : Turn) (n : Nat) (reason : ContextError) : Prop :=
  ∃ reading, turn.told? n = some reading ∧ reading.contextError = some reason

/-- What came of the next callback when `n` others had returned. -/
def Returned (turn : Turn) (n : Nat) (result : Except Failure Unit) : Prop :=
  ∃ reading, turn.returns[n]? = some (result, reading)

/-- The start pass does not come past the hook at place `i` but fails with this error, and this is
what is seen of the hook: the context is done just before its callback, or the callback fails. -/
inductive Halts (turn : Turn) (hooks : List (RegisteredHook κ)) (i : Nat) :
    LifecycleError → List (Event κ) → Prop
  | cancelled {hook : RegisteredHook κ} {reason : ContextError} (hhook : hooks[i]? = some hook)
      (hstarts : hook.starts = true)
      (hdone : turn.DoneAfter (startCallbacks (hooks.take i)) reason) :
      Halts turn hooks i (.cancelled .start hook.caller reason []) []
  | failed {hook : RegisteredHook κ} {failure : Failure} (hhook : hooks[i]? = some hook)
      (hstarts : hook.starts = true) (hlive : turn.LiveAfter (startCallbacks (hooks.take i)))
      (hfailed : turn.Returned (startCallbacks (hooks.take i)) (.error failure)) :
      Halts turn hooks i (.hookFailed .start hook.caller failure)
        [.began turn.id .start hook, .ended turn.id .start hook (.error failure)]

/-- The start pass comes past the hook at place `i`. -/
def Clears (turn : Turn) (hooks : List (RegisteredHook κ)) (i : Nat) : Prop :=
  ∀ hook, hooks[i]? = some hook → hook.starts = true →
    turn.LiveAfter (startCallbacks (hooks.take i)) ∧
      turn.Returned (startCallbacks (hooks.take i)) (.ok ())

/-- What is seen of start callbacks that return without a failure. -/
def rounds (turn : Turn) (hooks : List (RegisteredHook κ)) : List (Event κ) :=
  (hooks.filter RegisteredHook.starts).flatMap fun hook =>
    [.began turn.id .start hook, .ended turn.id .start hook (.ok ())]

/-- Where a start pass has stopped: what is seen of it there, and the state that it has brought the
lifecycle to. -/
inductive Stops (turn : Turn) (hooks : List (RegisteredHook κ)) :
    Nat → List (Event κ) → LifecycleState → Prop
  | done : Stops turn hooks hooks.length [.finished turn.id (.ok ())] .started
  | halted {i : Nat} {error : LifecycleError} {own : List (Event κ)}
      (h : turn.Halts hooks i error own) :
      Stops turn hooks i (own ++ [.finished turn.id (.error error)]) .startFailed
  /-- It waits for a callback. -/
  | waiting {i : Nat} {hook : RegisteredHook κ} (hhook : hooks[i]? = some hook)
      (hstarts : hook.starts = true) (hlive : turn.LiveAfter (startCallbacks (hooks.take i)))
      (hreturned : startCallbacks (hooks.take i) = turn.returns.length) :
      Stops turn hooks i [.began turn.id .start hook] .starting

/-! ### One hook less -/

/-- Of the call, this is left when `k` of its callbacks have returned. -/
structure Remains (turn turn' : Turn) (k : Nat) : Prop where
  id : turn'.id = turn.id
  told : ∀ n, turn'.told? n = turn.told? (n + k)
  returns : ∀ n, turn'.returns[n]? = turn.returns[n + k]?
  length : turn.returns.length = turn'.returns.length + k

section
variable {turn turn' : Turn} {hook : RegisteredHook κ} {hooks rest : List (RegisteredHook κ)}
  {i n k : Nat} {result : Except Failure Unit}

theorem Remains.refl (turn : Turn) : turn.Remains turn 0 :=
  ⟨rfl, fun _ => rfl, fun _ => rfl, rfl⟩

/-- One callback has returned, and the others remain. -/
theorem Remains.returned {reading : Reading} {more : List (Except Failure Unit × Reading)}
    (h : turn.returns = (result, reading) :: more) :
    turn.Remains { turn with reading, returns := more } 1 := by
  refine ⟨rfl, fun n => ?_, fun n => ?_, ?_⟩
  · rw [told?, told?, h]
    rfl
  · rw [h]
    rfl
  · rw [h]
    rfl

theorem Remains.liveAfter (h : turn.Remains turn' k) :
    turn'.LiveAfter n ↔ turn.LiveAfter (n + k) := by
  rw [LiveAfter, LiveAfter, h.told]

theorem Remains.doneAfter (h : turn.Remains turn' k) {reason : ContextError} :
    turn'.DoneAfter n reason ↔ turn.DoneAfter (n + k) reason := by
  rw [DoneAfter, DoneAfter, h.told]

theorem Remains.returned_iff (h : turn.Remains turn' k) :
    turn'.Returned n result ↔ turn.Returned (n + k) result := by
  rw [Returned, Returned, h.returns]

theorem startCallbacks_cons (hook : RegisteredHook κ) (rest : List (RegisteredHook κ)) (i : Nat) :
    startCallbacks ((hook :: rest).take (i + 1)) =
      startCallbacks (rest.take i) + if hook.starts then 1 else 0 := by
  rw [startCallbacks, List.take_succ_cons, List.countP_cons]
  rfl

/-- A pass that clears the other hooks clears all of them. -/
theorem Clears.cons (h : turn.Remains turn' (if hook.starts then 1 else 0))
    (hclears : turn'.Clears rest i) : turn.Clears (hook :: rest) (i + 1) := by
  intro next hnext hstarts
  rw [List.getElem?_cons_succ] at hnext
  rw [startCallbacks_cons, ← h.liveAfter, ← h.returned_iff]
  exact hclears next hnext hstarts

/-- A pass that halts among the other hooks halts one hook later. -/
theorem Halts.cons (h : turn.Remains turn' (if hook.starts then 1 else 0))
    {error : LifecycleError} {own : List (Event κ)} (hhalts : turn'.Halts rest i error own) :
    turn.Halts (hook :: rest) (i + 1) error own := by
  cases hhalts with
  | cancelled hhook hstarts hdone =>
    rw [h.doneAfter, ← startCallbacks_cons] at hdone
    exact .cancelled hhook hstarts hdone
  | failed hhook hstarts hlive hfailed =>
    rw [h.liveAfter, ← startCallbacks_cons] at hlive
    rw [h.returned_iff, ← startCallbacks_cons] at hfailed
    rw [h.id]
    exact .failed hhook hstarts hlive hfailed

/-- A pass that stops among the other hooks stops one hook later. -/
theorem Stops.cons (h : turn.Remains turn' (if hook.starts then 1 else 0))
    {last : List (Event κ)} {state : LifecycleState} (hstops : turn'.Stops rest i last state) :
    turn.Stops (hook :: rest) (i + 1) last state := by
  cases hstops with
  | done =>
    rw [h.id]
    exact .done
  | halted hhalts =>
    rw [h.id]
    exact .halted (hhalts.cons h)
  | waiting hhook hstarts hlive hreturned =>
    rw [h.liveAfter, ← startCallbacks_cons] at hlive
    rw [h.id]
    refine .waiting hhook hstarts hlive ?_
    rw [startCallbacks_cons, hreturned, h.length]

end

/-! ### Where the pass stops -/

section
variable {turn : Turn} {hook : RegisteredHook κ} {hooks : List (RegisteredHook κ)} {i j n : Nat}
  {error error' : LifecycleError} {own own' last : List (Event κ)} {state : LifecycleState}

/-- One hook with a start callback more. -/
theorem startCallbacks_succ (hhook : hooks[i]? = some hook) (hstarts : hook.starts = true) :
    startCallbacks (hooks.take (i + 1)) = startCallbacks (hooks.take i) + 1 := by
  rw [startCallbacks, startCallbacks, List.take_add_one, hhook, List.countP_append,
    Option.toList_some, List.countP_singleton, if_pos hstarts]

theorem startCallbacks_mono (hooks : List (RegisteredHook κ)) (h : i ≤ j) :
    startCallbacks (hooks.take i) ≤ startCallbacks (hooks.take j) :=
  (List.take_sublist_take_left h).countP_le

/-- A context that is live at a reading is not done then. -/
theorem LiveAfter.not_doneAfter (h : turn.LiveAfter n) {reason : ContextError} :
    ¬ turn.DoneAfter n reason := by
  rintro ⟨reading, htold, hdone⟩
  obtain ⟨reading', htold', hlive⟩ := h
  cases htold.symm.trans htold'
  cases hdone.symm.trans hlive

/-- Each callback returns one result. -/
theorem Returned.unique {result result' : Except Failure Unit} (h : turn.Returned n result)
    (h' : turn.Returned n result') : result = result' := by
  obtain ⟨_, hreturned⟩ := h
  obtain ⟨_, hreturned'⟩ := h'
  cases hreturned.symm.trans hreturned'
  rfl

theorem Returned.lt {result : Except Failure Unit} (h : turn.Returned n result) :
    n < turn.returns.length := by
  obtain ⟨_, hreturned⟩ := h
  exact (List.getElem?_eq_some_iff.1 hreturned).1

theorem Clears.not_halts (h : turn.Clears hooks i) : ¬ turn.Halts hooks i error own := by
  rintro (⟨hhook, hstarts, hdone⟩ | ⟨hhook, hstarts, -, hfailed⟩)
  · exact (h _ hhook hstarts).1.not_doneAfter hdone
  · cases (h _ hhook hstarts).2.unique hfailed

/-- The pass fails at a hook in one way only. -/
theorem Halts.unique (h : turn.Halts hooks i error own) (h' : turn.Halts hooks i error' own') :
    error' = error ∧ own' = own := by
  cases h with
  | cancelled hhook _ hdone =>
    cases h' with
    | cancelled hhook' _ hdone' =>
      obtain ⟨_, htold, hreason⟩ := hdone
      obtain ⟨_, htold', hreason'⟩ := hdone'
      cases hhook.symm.trans hhook'
      cases htold.symm.trans htold'
      cases hreason.symm.trans hreason'
      exact ⟨rfl, rfl⟩
    | failed _ _ hlive => exact absurd hdone hlive.not_doneAfter
  | failed hhook _ hlive hfailed =>
    cases h' with
    | cancelled _ _ hdone => exact absurd hdone hlive.not_doneAfter
    | failed hhook' _ _ hfailed' =>
      cases hhook.symm.trans hhook'
      cases hfailed.unique hfailed'
      exact ⟨rfl, rfl⟩

/-- The callbacks of the hooks before that at which the pass fails have returned. -/
theorem Halts.callbacks_le (h : turn.Halts hooks i error own) :
    startCallbacks (hooks.take i) ≤ turn.returns.length := by
  cases h with
  | cancelled _ _ hdone =>
    obtain ⟨_, htold, -⟩ := hdone
    have := (List.getElem?_eq_some_iff.1 htold).1
    rw [List.length_cons, List.length_map] at this
    exact Nat.le_of_lt_succ this
  | failed _ _ _ hfailed => exact Nat.le_of_lt hfailed.lt

/-- The context was not done before any callback of the hooks that the pass came past, and each
returned without a failure. -/
theorem Clears.all (h : ∀ j < i, turn.Clears hooks j) (hn : n < startCallbacks (hooks.take i)) :
    turn.LiveAfter n ∧ turn.Returned n (.ok ()) := by
  induction i with
  | zero => cases hn
  | succ i ih =>
    have hbefore := ih fun j hj => h j (Nat.lt_succ_of_lt hj)
    cases hhook : hooks[i]? with
    | none =>
      rw [List.take_add_one, hhook, Option.toList_none, List.append_nil] at hn
      exact hbefore hn
    | some hook =>
      cases hstarts : hook.starts with
      | false =>
        rw [List.take_add_one, hhook, startCallbacks, List.countP_append, Option.toList_some,
          List.countP_singleton, hstarts] at hn
        exact hbefore hn
      | true =>
        rw [startCallbacks_succ hhook hstarts] at hn
        rcases Nat.lt_succ_iff_lt_or_eq.1 hn with hlt | rfl
        · exact hbefore hlt
        · exact h i (Nat.lt_succ_self i) hook hhook hstarts

theorem Clears.callbacks_le (h : ∀ j < i, turn.Clears hooks j) :
    startCallbacks (hooks.take i) ≤ turn.returns.length := by
  by_contra hlt
  exact Nat.lt_irrefl _ (Clears.all h (Nat.lt_of_not_le hlt)).2.lt

/-- The pass stops at the first hook where it fails. -/
theorem Stops.of_halts (h : turn.Stops hooks i last state) (hclears : ∀ j < i, turn.Clears hooks j)
    (hhalts : turn.Halts hooks j error own)
    (hfirst : ∀ k < j, ∀ error own, ¬ turn.Halts hooks k error own) :
    i = j ∧ last = own ++ [.finished turn.id (.error error)] ∧ state = .startFailed := by
  have hle : i ≤ j := by
    by_contra hlt
    exact (hclears j (Nat.lt_of_not_le hlt)).not_halts hhalts
  cases h with
  | done =>
    have hlt : j < hooks.length := by
      cases hhalts with
      | cancelled hhook => exact (List.getElem?_eq_some_iff.1 hhook).1
      | failed hhook => exact (List.getElem?_eq_some_iff.1 hhook).1
    exact absurd hle (Nat.not_le_of_lt hlt)
  | @halted i error' own' hstop =>
    rcases Nat.lt_or_eq_of_le hle with hlt | rfl
    · exact absurd hstop (hfirst i hlt error' own')
    · obtain ⟨rfl, rfl⟩ := hhalts.unique hstop
      exact ⟨rfl, rfl, rfl⟩
  | @waiting i hook hhook hstarts hlive hreturned =>
    rcases Nat.lt_or_eq_of_le hle with hlt | rfl
    · -- the callback that it waits for would have returned
      have hmono := startCallbacks_mono hooks (Nat.succ_le_of_lt hlt)
      have hreached := hhalts.callbacks_le
      rw [startCallbacks_succ hhook hstarts, hreturned] at hmono
      exact absurd (Nat.le_trans hmono hreached) (Nat.not_succ_le_self _)
    · cases hhalts with
      | cancelled _ _ hdone => exact absurd hdone hlive.not_doneAfter
      | failed _ _ _ hfailed =>
        exact absurd hfailed.lt (Nat.not_lt_of_le (Nat.le_of_eq hreturned.symm))

/-- A pass that fails at no hook comes to its end, if it gets what it waits for. -/
theorem Stops.of_passes (h : turn.Stops hooks i last state)
    (hclears : ∀ j < i, turn.Clears hooks j)
    (hpasses : ∀ j error own, ¬ turn.Halts hooks j error own) :
    (startCallbacks hooks ≤ turn.returns.length →
      i = hooks.length ∧ last = [.finished turn.id (.ok ())] ∧ state = .started) ∧
    (turn.returns.length < startCallbacks hooks →
      ∃ hook, hooks[i]? = some hook ∧ hook.starts = true ∧
        startCallbacks (hooks.take i) = turn.returns.length ∧
        last = [.began turn.id .start hook] ∧ state = .starting) := by
  cases h with
  | done =>
    have hle := Clears.callbacks_le hclears
    rw [List.take_length] at hle
    exact ⟨fun _ => ⟨rfl, rfl, rfl⟩, fun hlt => absurd hle (Nat.not_le_of_lt hlt)⟩
  | halted hhalts => exact absurd hhalts (hpasses _ _ _)
  | @waiting i hook hhook hstarts hlive hreturned =>
    have hle := startCallbacks_mono hooks
      (Nat.succ_le_of_lt (List.getElem?_eq_some_iff.1 hhook).1)
    rw [startCallbacks_succ hhook hstarts, hreturned, List.take_length] at hle
    exact ⟨fun hall => absurd (Nat.le_trans hle hall) (Nat.not_succ_le_self _),
      fun _ => ⟨hook, hhook, hstarts, hreturned, rfl, rfl⟩⟩

/-- The callbacks that return without a failure began in the order of the hooks. -/
theorem begunOf_rounds (turn : Turn) (hooks : List (RegisteredHook κ)) :
    begunOf .start (turn.rounds hooks) = hooks.filter RegisteredHook.starts := by
  rw [rounds]
  induction hooks.filter RegisteredHook.starts with
  | nil => rfl
  | cons hook rest ih =>
    rw [List.flatMap_cons, begunOf_append, ih]
    rfl

/-- The context was not done before any callback that began. -/
theorem Stops.live (h : turn.Stops hooks i last state) (hclears : ∀ j < i, turn.Clears hooks j)
    (hn : n < (begunOf .start (turn.rounds (hooks.take i) ++ last)).length) :
    turn.LiveAfter n := by
  rw [begunOf_append, begunOf_rounds, List.length_append, ← List.countP_eq_length_filter] at hn
  have hbefore (hlt : n < startCallbacks (hooks.take i)) : turn.LiveAfter n :=
    (Clears.all hclears hlt).1
  -- the last one may have begun at the hook where the pass stopped
  have hone (hlive : turn.LiveAfter (startCallbacks (hooks.take i)))
      (hlt : n < startCallbacks (hooks.take i) + 1) : turn.LiveAfter n := by
    rcases Nat.lt_succ_iff_lt_or_eq.1 hlt with hlt | rfl
    · exact hbefore hlt
    · exact hlive
  cases h with
  | done => exact hbefore hn
  | halted hhalts =>
    cases hhalts with
    | cancelled => exact hbefore hn
    | failed _ _ hlive => exact hone hlive hn
  | waiting _ _ hlive => exact hone hlive hn

end

end Turn

/-- What has become of a start pass over these hooks, which was at work in this lifecycle after
these events: it has come past the first `i` of them and has stopped at the next, and the lifecycle
says so. -/
structure Execution.Started (turn : Turn) (hooks : List (RegisteredHook κ)) (l : Lifecycle κ)
    (seen : List (Event κ)) (i : Nat) (last : List (Event κ)) (state : LifecycleState)
    (e : Execution κ) : Prop where
  clears : ∀ j < i, turn.Clears hooks j
  stops : turn.Stops hooks i last state
  seen : e.seen = seen ++ turn.rounds (hooks.take i) ++ last
  state : e.lifecycle.state = state
  started : e.lifecycle.started = l.started + i
  records : e.lifecycle.startRecords.map HookRecord.caller =
    l.startRecords.map HookRecord.caller ++
      ((hooks.take i).filter RegisteredHook.starts).map RegisteredHook.caller

namespace Execution

section
variable {turn turn' : Turn} {hook : RegisteredHook κ} {hooks rest : List (RegisteredHook κ)}
  {l : Lifecycle κ} {seen last : List (Event κ)} {i : Nat} {state : LifecycleState}
  {e : Execution κ}

/-- A call that waits for nothing does not go on. -/
theorem foldl_goOn (id : PassId) (h : e.waiting = none)
    (returns : List (Except Failure Unit × Reading)) : returns.foldl (goOn id) e = e := by
  induction returns with
  | nil => rfl
  | cons returned more ih =>
    have hstill : e.goOn id returned = e := by
      rw [goOn, h]
    rw [List.foldl_cons, hstill, ih]

/-- The start callback of a hook has failed. -/
theorem goOn_error (id : PassId) (seen : List (Event κ)) (l : Lifecycle κ)
    (hook : RegisteredHook κ) (rest : List (RegisteredHook κ)) (begun : Nat) (failure : Failure)
    (reading : Reading) :
    goOn id ⟨seen, l, some (.starting hook rest begun)⟩ (.error failure, reading) =
      ⟨seen ++ [.ended id .start hook (.error failure),
          .finished id (.error (.hookFailed .start hook.caller failure))],
        { l with running := none, state := .startFailed }, none⟩ :=
  rfl

/-- The start callback of a hook has returned without a failure. -/
theorem goOn_ok (id : PassId) (seen : List (Event κ)) (l : Lifecycle κ)
    (hook : RegisteredHook κ) (rest : List (RegisteredHook κ)) (begun : Nat) (reading : Reading) :
    goOn id ⟨seen, l, some (.starting hook rest begun)⟩ (.ok (), reading) =
      let r := Lifecycle.startFrom reading rest { l with
        running := none
        startRecords := l.startRecords ++ [Lifecycle.recordOf hook begun reading]
        started := l.started + 1 }
      ⟨seen ++ [.ended id .start hook (.ok ())] ++ r.1.events id, r.2, r.1.waiting⟩ := by
  show Execution.mk (seen ++ _ :: _) _ _ = _
  rw [List.append_cons]
  rfl

/-- The pass has stopped before it came past any hook. -/
theorem Started.first (hstops : turn.Stops hooks 0 last state) (hseen : e.seen = seen ++ last)
    (hstate : e.lifecycle.state = state) (hstarted : e.lifecycle.started = l.started)
    (hrecords : e.lifecycle.startRecords = l.startRecords) :
    e.Started turn hooks l seen 0 last state where
  clears := nofun
  stops := hstops
  seen := by
    rw [hseen, Turn.rounds, List.take_zero, List.filter_nil, List.flatMap_nil, List.append_nil]
  state := hstate
  started := hstarted
  records := by
    rw [hrecords, List.take_zero, List.filter_nil, List.map_nil, List.append_nil]

/-- A hook without a start callback is counted. -/
theorem Started.skip (h : e.Started turn rest { l with started := l.started + 1 } seen i last state)
    (hskip : hook.starts = false) : e.Started turn (hook :: rest) l seen (i + 1) last state := by
  have hremains : turn.Remains turn (if hook.starts then 1 else 0) := by
    rw [hskip]
    exact .refl turn
  refine ⟨fun j hj => ?_, h.stops.cons hremains, ?_, h.state, ?_, ?_⟩
  · cases j with
    | zero =>
      rintro _ ⟨⟩ hstarts
      exact nomatch hskip.symm.trans hstarts
    | succ j => exact (h.clears j (Nat.lt_of_succ_lt_succ hj)).cons hremains
  · rw [h.seen, Turn.rounds, Turn.rounds, List.take_succ_cons, List.filter_cons, hskip]
    rfl
  · rw [h.started]
    show l.started + 1 + i = _
    omega
  · rw [h.records, List.take_succ_cons, List.filter_cons, hskip]
    rfl

/-- A start callback has returned without a failure. -/
theorem Started.pass {running : Option String} {record : HookRecord}
    (h : e.Started turn' rest
      { l with running, startRecords := l.startRecords ++ [record], started := l.started + 1 }
      (seen ++ [.began turn.id .start hook] ++ [.ended turn.id .start hook (.ok ())]) i last
      state)
    (hremains : turn.Remains turn' 1) (hstarts : hook.starts = true) (hlive : turn.LiveAfter 0)
    (hreturned : turn.Returned 0 (.ok ())) (hrecord : record.caller = hook.caller) :
    e.Started turn (hook :: rest) l seen (i + 1) last state := by
  replace hremains : turn.Remains turn' (if hook.starts then 1 else 0) := by
    rw [hstarts]
    exact hremains
  refine ⟨fun j hj => ?_, h.stops.cons hremains, ?_, h.state, ?_, ?_⟩
  · cases j with
    | zero =>
      rintro _ ⟨⟩ -
      exact ⟨hlive, hreturned⟩
    | succ j => exact (h.clears j (Nat.lt_of_succ_lt_succ hj)).cons hremains
  · rw [h.seen, Turn.rounds, Turn.rounds, List.take_succ_cons, List.filter_cons, hstarts,
      hremains.id]
    simp
  · rw [h.started]
    show l.started + 1 + i = _
    omega
  · rw [h.records, List.take_succ_cons, List.filter_cons, hstarts]
    simp [hrecord]

/-- A hook that is appended does not change what has become of the pass. -/
theorem Started.late (h : e.Started turn hooks l seen i last state) (s : Schedule κ) :
    (s.lateSteps.foldl step e).Started turn hooks l seen i last state := by
  unfold Schedule.lateSteps
  induction s.late generalizing e with
  | nil => exact h
  | cons appended more ih =>
    refine ih (e := e.append appended.1 appended.2) ?_
    rw [append_eq]
    exact ⟨h.clears, h.stops, h.seen, h.state, h.started, h.records⟩

end

/-- A start pass comes to the first hook where it is halted or waits, or to the end. -/
theorem startFrom_started (turn : Turn) (todo : List (RegisteredHook κ)) {l : Lifecycle κ}
    (hstate : l.state = .starting) (seen : List (Event κ)) :
    let r := Lifecycle.startFrom turn.reading todo l
    ∃ i last state, (turn.returns.foldl (goOn turn.id)
      ⟨seen ++ r.1.events turn.id, r.2, r.1.waiting⟩).Started turn todo l seen i last state := by
  induction todo generalizing turn l seen with
  | nil =>
    simp only [Lifecycle.startFrom]
    rw [foldl_goOn _ rfl]
    exact ⟨0, _, _, .first .done rfl rfl rfl rfl⟩
  | cons hook rest ih =>
    cases hstart : hook.onStart with
    | none =>
      have hskip : hook.starts = false := by rw [RegisteredHook.starts, hstart]; rfl
      obtain ⟨i, last, state, hrest⟩ :=
        ih turn (l := { l with started := l.started + 1 }) hstate seen
      simp only [Lifecycle.startFrom, hstart]
      exact ⟨i + 1, last, state, hrest.skip hskip⟩
    | some callback =>
      have hfirst : (hook :: rest)[0]? = some hook := rfl
      have hstarts : hook.starts = true := by rw [RegisteredHook.starts, hstart]; rfl
      cases herr : turn.reading.contextError with
      | some reason =>
        have hhalts := Turn.Halts.cancelled hfirst hstarts ⟨_, rfl, herr⟩
        simp only [Lifecycle.startFrom, hstart, herr]
        rw [foldl_goOn _ rfl]
        exact ⟨0, _, _, .first (.halted hhalts) rfl rfl rfl rfl⟩
      | none =>
        have hlive : turn.LiveAfter 0 := ⟨_, rfl, herr⟩
        simp only [Lifecycle.startFrom, hstart, herr, PassStep.waiting]
        cases hreturns : turn.returns with
        | nil =>
          have hwaits := Turn.Stops.waiting hfirst hstarts hlive (by rw [hreturns]; rfl)
          exact ⟨0, _, _, .first hwaits rfl hstate rfl rfl⟩
        | cons returned more =>
          obtain ⟨result, reading⟩ := returned
          have hreturned : turn.Returned 0 result := ⟨reading, by rw [hreturns]; rfl⟩
          rw [List.foldl_cons]
          cases result with
          | error failure =>
            have hhalts := Turn.Halts.failed hfirst hstarts hlive hreturned
            rw [goOn_error, foldl_goOn _ rfl, List.append_assoc]
            exact ⟨0, _, _, .first (.halted hhalts) rfl rfl rfl rfl⟩
          | ok =>
            obtain ⟨i, last, state, hrest⟩ :=
              ih { turn with reading, returns := more }
                (l := { l with
                  running := none
                  startRecords :=
                    l.startRecords ++ [Lifecycle.recordOf hook turn.reading.now reading]
                  started := l.started + 1 }) hstate
                (seen ++ [.began turn.id .start hook] ++ [.ended turn.id .start hook (.ok ())])
            rw [goOn_ok]
            exact ⟨i + 1, last, state,
              hrest.pass (.returned hreturns) hstarts hlive hreturned rfl⟩

/-- A start pass begins in a lifecycle that can be started. -/
theorem enter_start (e : Execution κ) (id : PassId) (reading : Reading)
    (h : e.lifecycle.Startable) :
    e.enter id .start reading =
      let r := Lifecycle.startFrom reading e.lifecycle.hooks
        { e.lifecycle with state := .starting, startRecords := [] }
      ⟨e.seen ++ [.opened id e.lifecycle.hooks] ++ r.1.events id, r.2, r.1.waiting⟩ := by
  rw [enter, if_pos ⟨rfl, h⟩, Lifecycle.begin, Lifecycle.beginStart_of_startable reading h,
    ← List.append_assoc]

end Execution

/-- The last call of a schedule is executed after what comes before it, and then the hooks are
appended that came since. -/
theorem Schedule.of_last {s : Schedule κ} {turn : Turn} (hlast : s.last = some turn) :
    Execution.of s.steps =
      s.lateSteps.foldl Execution.step ((Execution.of s.earlier).step (.call turn)) := by
  rw [steps, hlast, Execution.of_append, Execution.of_append]
  rfl

/-- The start pass that came to its turn last, in a lifecycle that could be started, goes over the
hooks that were appended before its turn. -/
theorem Schedule.started_of {moves : List (Move κ)} {turn : Turn}
    (hlast : (of moves).last = some turn) (hphase : turn.phase = .start) :
    ∃ earlier later, Came moves turn earlier later ∧
      ((Course.of earlier).coordinator.lifecycle.Startable →
        let hooks := earlier.filterMap Move.registered?
        ∃ i last state, (Execution.of (of moves).steps).Started turn hooks
          { (Course.of earlier).coordinator.lifecycle with state := .starting, startRecords := [] }
          ((Course.of earlier).seen ++ [.opened turn.id hooks]) i last state) := by
  obtain ⟨earlier, later, hcame⟩ := came hlast
  refine ⟨earlier, later, hcame, fun hstate => ?_⟩
  obtain ⟨hreproduces, -, -⟩ := of_moves earlier
  rw [← hreproduces.lifecycle] at hstate
  rw [of_last hlast, hcame.earlier, Execution.step, hphase, Execution.enter_start _ _ _ hstate,
    ← Course.hooks_of, hreproduces.lifecycle, hreproduces.seen]
  have hnew : { (Course.of earlier).coordinator.lifecycle with
      state := .starting, startRecords := [] }.state = .starting := rfl
  obtain ⟨i, last, state, hstarted⟩ := Execution.startFrom_started turn _ hnew _
  exact ⟨i, last, state, hstarted.late (of moves)⟩

/-- What comes of a start pass over these hooks, before which these events were seen. -/
structure Turn.Performs (turn : Turn) (hooks : List (RegisteredHook κ)) (before : List (Event κ))
    (course : Course κ) : Prop where
  /-- The pass fails at the first hook that it does not come past, and has counted those before. -/
  halted : ∀ i error own, turn.Halts hooks i error own →
    (∀ j < i, ∀ error own, ¬ turn.Halts hooks j error own) →
      course.seen = before ++ turn.rounds (hooks.take i) ++
        (own ++ [.finished turn.id (.error error)]) ∧
      course.coordinator.lifecycle.state = .startFailed ∧
      course.coordinator.lifecycle.started = i
  /-- If there is no such hook, the pass succeeds when all callbacks have returned. -/
  succeeded : (∀ i error own, ¬ turn.Halts hooks i error own) →
    startCallbacks hooks ≤ turn.returns.length →
      course.seen = before ++ turn.rounds hooks ++ [.finished turn.id (.ok ())] ∧
      course.coordinator.lifecycle.state = .started ∧
      course.coordinator.lifecycle.started = hooks.length
  /-- Until then it waits for the callback of the hook behind those that it has counted. -/
  waiting : (∀ i error own, ¬ turn.Halts hooks i error own) →
    turn.returns.length < startCallbacks hooks →
      ∃ i hook, hooks[i]? = some hook ∧ hook.starts = true ∧
        startCallbacks (hooks.take i) = turn.returns.length ∧
        course.seen = before ++ turn.rounds (hooks.take i) ++ [.began turn.id .start hook] ∧
        course.coordinator.lifecycle.state = .starting ∧
        course.coordinator.lifecycle.started = i
  /-- The records are those of the counted hooks that have a start callback. -/
  recorded : course.coordinator.lifecycle.startRecords.map HookRecord.caller =
    ((hooks.take course.coordinator.lifecycle.started).filter RegisteredHook.starts).map
      RegisteredHook.caller
  /-- No callback began while the context was done. -/
  live : ∃ more, course.seen = before ++ more ∧
    ∀ n < (begunOf .start more).length, turn.LiveAfter n

/-- What comes of a start pass is read off the place where it has stopped. -/
theorem Execution.Started.performs {turn : Turn} {hooks : List (RegisteredHook κ)}
    {l : Lifecycle κ} {before last : List (Event κ)} {i : Nat} {state : LifecycleState}
    {e : Execution κ} (h : e.Started turn hooks l before i last state) (hzero : l.started = 0)
    (hrecords : l.startRecords = []) {course : Course κ} (hseen : e.seen = course.seen)
    (hlifecycle : e.lifecycle = course.coordinator.lifecycle) :
    turn.Performs hooks before course := by
  have hended := h.state
  have hcount := h.started
  have hnoted := h.records
  rw [hlifecycle] at hended hcount hnoted
  rw [hzero, Nat.zero_add] at hcount
  rw [hrecords, List.map_nil, List.nil_append] at hnoted
  have hseen := hseen.symm.trans h.seen
  refine ⟨fun j error own hhalts hfirst => ?_, fun hpasses hall => ?_, fun hpasses hfew => ?_, ?_,
    turn.rounds (hooks.take i) ++ last, ?_, fun n hn => h.stops.live h.clears hn⟩
  · obtain ⟨rfl, rfl, rfl⟩ := h.stops.of_halts h.clears hhalts hfirst
    exact ⟨hseen, hended, hcount⟩
  · obtain ⟨rfl, rfl, rfl⟩ := (h.stops.of_passes h.clears hpasses).1 hall
    rw [List.take_length] at hseen
    exact ⟨hseen, hended, hcount⟩
  · obtain ⟨hook, hhook, hstarts, hreturned, rfl, rfl⟩ :=
      (h.stops.of_passes h.clears hpasses).2 hfew
    exact ⟨i, hook, hhook, hstarts, hreturned, hseen, hended, hcount⟩
  · rw [hcount]
    exact hnoted
  · rw [hseen, List.append_assoc]

/-- A start pass that comes to its turn in a lifecycle that is not started, or stopped, goes over
the hooks that were appended before, in this order, and waits for each callback before it begins
the next. At the first hook where the context is done just before the callback, or where the
callback fails, the pass fails with the error that says so. If there is no such hook, the lifecycle
is started in the end. In either case the hooks that the pass has come past are counted, those
without a callback included. -/
theorem start_pass_specified (moves : List (Move κ)) {turn : Turn}
    (hlast : (Schedule.of moves).last = some turn) (hphase : turn.phase = .start) :
    ∃ earlier later, Schedule.Came moves turn earlier later ∧
      ((Course.of earlier).coordinator.lifecycle.Startable →
        let hooks := earlier.filterMap Move.registered?
        turn.Performs hooks ((Course.of earlier).seen ++ [.opened turn.id hooks])
          (Course.of moves)) := by
  obtain ⟨earlier, later, hcame, hstarted⟩ := Schedule.started_of hlast hphase
  refine ⟨earlier, later, hcame, fun hstate => ?_⟩
  obtain ⟨i, last, state, h⟩ := hstarted hstate
  have hpossible : (Course.of earlier).Possible := ⟨earlier, rfl⟩
  obtain ⟨hreproduces, -, -⟩ := Schedule.of_moves moves
  exact h.performs (hpossible.counted.idle hstate) rfl hreproduces.seen hreproduces.lifecycle

/-- Of four hooks the first has no start callback, and that of the third fails. A fifth is appended
while the start callback of the second runs. -/
def halfStarted : List (Move Unit) :=
  [ .append "metrics" ⟨none, some (), none⟩,
    .append "store" ⟨some (), some (), none⟩,
    .append "server" ⟨some (), some (), none⟩,
    .append "gateway" ⟨some (), none, none⟩,
    .ask .start, .enter 0 ⟨0, none⟩,
    .append "late" ⟨some (), none, none⟩,
    .returned 0 (.ok ()) ⟨1, none⟩,
    .returned 0 (.error (.plain "address in use")) ⟨2, none⟩ ]

/-- The start pass fails at the third hook and has counted two. -/
theorem halfStarted_halted :
    ∃ turn later, Schedule.Came halfStarted turn (halfStarted.take 5) later ∧
      let hooks := (halfStarted.take 5).filterMap Move.registered?
      turn.Performs hooks [.opened 0 hooks] (Course.of halfStarted) ∧
      (∃ own, turn.Halts hooks 2
        (.hookFailed .start "server" (.plain "address in use")) own) ∧
      (Course.of halfStarted).coordinator.lifecycle.state = .startFailed ∧
      (Course.of halfStarted).coordinator.lifecycle.started = 2 := by
  let turn : Turn := ⟨0, .start, ⟨0, none⟩,
    [(.ok (), ⟨1, none⟩), (.error (.plain "address in use"), ⟨2, none⟩)]⟩
  have hlast : (Schedule.of halfStarted).last = some turn := rfl
  obtain ⟨earlier, later, hcame, hperforms⟩ := start_pass_specified halfStarted hlast rfl
  -- the pass comes to its turn by the sixth move
  have hturn : ∀ k < 9, (Course.of (halfStarted.take k)).coordinator.turn? 0 = some .start →
      k = 5 := by decide
  have hearlier : earlier = halfStarted.take earlier.length :=
    List.prefix_iff_eq_take.1 (hcame.split ▸ List.prefix_append _ _)
  have hshort : earlier.length < 9 := by
    have hlength := congrArg List.length hcame.split
    rw [List.length_append, List.length_cons] at hlength
    show earlier.length < halfStarted.length
    omega
  have hentered := hcame.entered
  rw [hearlier] at hentered
  obtain rfl : earlier = halfStarted.take 5 :=
    hearlier.trans (congrArg halfStarted.take (hturn _ hshort hentered))
  have hthird : ((halfStarted.take 5).filterMap Move.registered?)[2]? =
      some ⟨some (), some (), "server"⟩ := rfl
  exact ⟨turn, later, hcame, hperforms (.inl rfl),
    ⟨_, .failed hthird rfl ⟨⟨1, none⟩, rfl, rfl⟩ ⟨⟨2, none⟩, rfl⟩⟩, rfl, rfl⟩

end ServiceHost
