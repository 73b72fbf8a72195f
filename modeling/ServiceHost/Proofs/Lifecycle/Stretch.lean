import ServiceHost.Lifecycle.Coordinator

/-!
# One stretch of a pass

A pass runs from one wait to the next without interruption: `Lifecycle.startFrom` goes forward over
the hooks that are still to come, `Lifecycle.stopFrom` goes back over those that are counted. This
module says once where such a stretch can end and what it leaves behind, `StartStretch` and
`StopStretch`, with the hooks that were passed by because they have no callback. Every later
statement on passes is read off these two. The count of a stop pass is that of the lifecycle, so
that a stretch which begins within the hooks never looks for a hook that is not there.
-/

namespace ServiceHost

variable {κ : Type}

/-- The phase of the pass that waits for a callback. -/
def Progress.phase : Progress κ → Phase
  | .starting .. => .start
  | .stopping .. => .stop

/-- What a pass waits for after a step, if it is not over. -/
def PassStep.waiting : PassStep κ → Option (Progress κ)
  | .call _ progress => some progress
  | .finish _ => none
  | .outOfRange _ => none

namespace Lifecycle

/-- The state in which a start pass is let through. -/
def Startable (l : Lifecycle κ) : Prop :=
  l.state = .notStarted ∨ l.state = .stopped

instance (l : Lifecycle κ) : Decidable l.Startable :=
  inferInstanceAs (Decidable (_ ∨ _))

/-- A hook that is appended comes last, and nothing else changes. -/
theorem append_ok {l l' : Lifecycle κ} {callSite : String} {hook : Hook κ}
    (h : l.append callSite hook = .ok l') :
    ∃ registered : RegisteredHook κ, l' = { l with hooks := l.hooks ++ [registered] } := by
  unfold append at h
  split at h
  · split at h
    · cases h
    · cases h; exact ⟨_, rfl⟩
  · cases h; exact ⟨_, rfl⟩

/-! ## Forward -/

/-- Where a start pass comes that has the hooks `todo` before it. It passes hooks without a start
callback and counts them, and ends behind the last hook, or at the first with a callback: there it
fails if its context is done, and otherwise it waits for the callback. -/
inductive StartStretch (reading : Reading) (todo : List (RegisteredHook κ)) (l : Lifecycle κ) :
    PassStep κ × Lifecycle κ → Prop
  | done (hall : ∀ hook ∈ todo, hook.onStart = none) :
      StartStretch reading todo l
        (.finish (.ok ()), { l with started := l.started + todo.length, state := .started })
  | cancelled {passed hook rest callback reason} (htodo : todo = passed ++ hook :: rest)
      (hpassed : ∀ h ∈ passed, h.onStart = none) (hstart : hook.onStart = some callback)
      (herr : reading.contextError = some reason) :
      StartStretch reading todo l
        (.finish (.error (.cancelled .start hook.caller reason [])),
          { l with started := l.started + passed.length, state := .startFailed })
  | call {passed hook rest callback} (htodo : todo = passed ++ hook :: rest)
      (hpassed : ∀ h ∈ passed, h.onStart = none) (hstart : hook.onStart = some callback)
      (herr : reading.contextError = none) :
      StartStretch reading todo l
        (.call callback (.starting hook rest reading.now),
          { l with started := l.started + passed.length, running := some hook.caller })

/-- A start pass comes as far as `StartStretch` says. -/
theorem startFrom_stretch (reading : Reading) (todo : List (RegisteredHook κ)) (l : Lifecycle κ) :
    StartStretch reading todo l (startFrom reading todo l) := by
  induction todo generalizing l with
  | nil => exact .done (by simp)
  | cons hook rest ih =>
    cases hstart : hook.onStart with
    | none =>
      have hone {n : Nat} : l.started + 1 + n = l.started + (n + 1) := by omega
      simp only [startFrom, hstart]
      have hrest := ih { l with started := l.started + 1 }
      generalize startFrom reading rest { l with started := l.started + 1 } = r at hrest
      cases hrest with
      | done hall =>
        rw [hone]
        exact .done (List.forall_mem_cons.2 ⟨hstart, hall⟩)
      | @cancelled passed next rest' _ _ htodo hpassed hs herr =>
        rw [hone]
        have hcons : hook :: rest = (hook :: passed) ++ next :: rest' := by rw [htodo]; rfl
        exact .cancelled hcons (List.forall_mem_cons.2 ⟨hstart, hpassed⟩) hs herr
      | @call passed next rest' _ htodo hpassed hs herr =>
        rw [hone]
        have hcons : hook :: rest = (hook :: passed) ++ next :: rest' := by rw [htodo]; rfl
        exact .call hcons (List.forall_mem_cons.2 ⟨hstart, hpassed⟩) hs herr
    | some callback =>
      cases herr : reading.contextError with
      | some reason =>
        simp only [startFrom, hstart, herr]
        have hnil : hook :: rest = [] ++ hook :: rest := rfl
        exact .cancelled hnil (by simp) hstart herr
      | none =>
        simp only [startFrom, hstart, herr]
        have hnil : hook :: rest = [] ++ hook :: rest := rfl
        exact .call hnil (by simp) hstart herr

/-- A start pass that is let through goes over the hooks appended so far. -/
theorem beginStart_of_startable {l : Lifecycle κ} (reading : Reading) (h : l.Startable) :
    l.beginStart reading =
      startFrom reading l.hooks { l with state := .starting, startRecords := [] } :=
  if_pos h

/-- A start pass that is refused changes nothing. -/
theorem beginStart_of_not_startable {l : Lifecycle κ} (reading : Reading) (h : ¬ l.Startable) :
    l.beginStart reading = (.finish (.error (.invalidTransition l.state "start")), l) :=
  if_neg h

/-! ## Backward -/

/-- Where a stop pass comes over the counted hooks. It passes hooks without a stop callback and
takes them off the count, and ends before the first hook, or at the last counted one with a
callback: there it fails if its context is done, and leaves that hook counted, and otherwise it
takes the hook off the count and waits for the callback. -/
inductive StopStretch (reading : Reading) (hooks : List (RegisteredHook κ))
    (failures : StopFailures) (l : Lifecycle κ) : PassStep κ × Lifecycle κ → Prop
  | done (hall : ∀ hook ∈ hooks.take l.started, hook.onStop = none) :
      StopStretch reading hooks failures l
        (.finish (if failures.isEmpty then .ok () else .error (.stopFailed failures)),
          { l with started := 0, state := .stopped })
  | cancelled {below hook passed callback reason}
      (hcounted : hooks.take l.started = below ++ hook :: passed)
      (hpassed : ∀ h ∈ passed, h.onStop = none) (hstop : hook.onStop = some callback)
      (herr : reading.contextError = some reason) :
      StopStretch reading hooks failures l
        (.finish (.error (.cancelled .stop hook.caller reason failures)),
          { l with started := below.length + 1 })
  | call {below hook passed callback} (hcounted : hooks.take l.started = below ++ hook :: passed)
      (hpassed : ∀ h ∈ passed, h.onStop = none) (hstop : hook.onStop = some callback)
      (herr : reading.contextError = none) :
      StopStretch reading hooks failures l
        (.call callback (.stopping hook hooks failures reading.now),
          { l with started := below.length, running := some hook.caller })

/-- A stop pass that counts no more hooks than there are comes as far as `StopStretch` says. -/
theorem stopFrom_stretch (reading : Reading) (hooks : List (RegisteredHook κ))
    (failures : StopFailures) (l : Lifecycle κ) (hle : l.started ≤ hooks.length) :
    StopStretch reading hooks failures l (stopFrom reading hooks failures l.started l) := by
  generalize hcount : l.started = count at hle
  induction count generalizing l with
  | zero =>
    have hdone : StopStretch reading hooks failures l _ := .done (by simp [hcount])
    rw [← hcount] at hdone
    exact hdone
  | succ count ih =>
    have hlt : count < hooks.length := hle
    have htake : hooks.take (count + 1) = hooks.take count ++ [hooks[count]] :=
      List.take_succ_eq_append_getElem hlt
    have hlen : (hooks.take count).length = count :=
      List.length_take_of_le (Nat.le_of_lt hlt)
    simp only [stopFrom, List.getElem?_eq_getElem hlt]
    cases hstop : hooks[count].onStop with
    | none =>
      have hrest := ih { l with started := count } rfl (Nat.le_of_lt hlt)
      generalize stopFrom reading hooks failures count { l with started := count } = r at hrest
      cases hrest with
      | done hall =>
        refine .done ?_
        rw [hcount, htake, List.forall_mem_append]
        exact ⟨hall, by simpa using hstop⟩
      | @cancelled below next passed _ _ hcounted hpassed hs herr =>
        have hlast : hooks.take l.started = below ++ next :: (passed ++ [hooks[count]]) := by
          rw [hcount, htake, hcounted, List.append_assoc, List.cons_append]
        exact .cancelled hlast (List.forall_mem_append.2 ⟨hpassed, by simpa using hstop⟩) hs herr
      | @call below next passed _ hcounted hpassed hs herr =>
        have hlast : hooks.take l.started = below ++ next :: (passed ++ [hooks[count]]) := by
          rw [hcount, htake, hcounted, List.append_assoc, List.cons_append]
        exact .call hlast (List.forall_mem_append.2 ⟨hpassed, by simpa using hstop⟩) hs herr
    | some callback =>
      cases herr : reading.contextError with
      | some reason =>
        have hlast : StopStretch reading hooks failures l _ :=
          .cancelled (by rw [hcount]; exact htake) (by simp) hstop herr
        rw [hlen, ← hcount] at hlast
        exact hlast
      | none =>
        have hlast : StopStretch reading hooks failures l _ :=
          .call (by rw [hcount]; exact htake) (by simp) hstop herr
        rw [hlen] at hlast
        exact hlast

/-- The failures of a stop pass after one more of its callbacks. -/
def noteFailure (failures : StopFailures) (hook : RegisteredHook κ) :
    Except Failure Unit → StopFailures
  | .ok () => failures
  | .error source => failures ++ [⟨hook.caller, source⟩]

/-! ## From wait to wait -/

/-- A start pass that is let through goes forward over all hooks. -/
theorem beginStart_stretch {l : Lifecycle κ} (reading : Reading) (h : l.Startable) :
    StartStretch reading l.hooks { l with state := .starting, startRecords := [] }
      (l.beginStart reading) := by
  rw [beginStart_of_startable reading h]
  exact startFrom_stretch ..

/-- A start pass goes on over the hooks still to come, after a callback that succeeded. -/
theorem resume_starting_stretch (hook : RegisteredHook κ) (rest : List (RegisteredHook κ))
    (begun : Nat) (reading : Reading) (l : Lifecycle κ) :
    StartStretch reading rest
      { l with
        running := none
        startRecords := l.startRecords ++ [recordOf hook begun reading]
        started := l.started + 1 }
      (l.resume (.starting hook rest begun) (.ok ()) reading) :=
  startFrom_stretch ..

/-- A stop pass goes back over the counted hooks. -/
theorem beginStop_stretch {l : Lifecycle κ} (reading : Reading)
    (hle : l.started ≤ l.hooks.length) :
    StopStretch reading l.hooks [] { l with state := .stopping, stopRecords := [] }
      (l.beginStop reading) :=
  stopFrom_stretch _ _ _ { l with state := .stopping, stopRecords := [] } hle

/-- A stop pass goes on over the hooks still counted, whatever came of the callback. -/
theorem resume_stopping_stretch {hooks : List (RegisteredHook κ)} {l : Lifecycle κ}
    (hook : RegisteredHook κ) (failures : StopFailures) (begun : Nat)
    (result : Except Failure Unit) (reading : Reading) (hle : l.started ≤ hooks.length) :
    StopStretch reading hooks (noteFailure failures hook result)
      { l with running := none, stopRecords := l.stopRecords ++ [recordOf hook begun reading] }
      (l.resume (.stopping hook hooks failures begun) result reading) :=
  stopFrom_stretch _ _ _
    { l with running := none, stopRecords := l.stopRecords ++ [recordOf hook begun reading] } hle

end Lifecycle

end ServiceHost
