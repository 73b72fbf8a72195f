import ServiceHost.Lifecycle.Basic

/-!
Passes over the hooks of a lifecycle, cut where they wait. A pass runs until it has a callback to
wait for or is over, and goes on when the callback has returned. What it needs to know of the
outside, the time and whether its context is done, is given to it each time.

A start pass goes forward and counts a hook once its callback has succeeded. A stop pass goes back
over the counted hooks and takes a hook off the count before its callback begins, so that a pass
which is given up in the middle of a callback does not begin that callback again.
-/

namespace ServiceHost

/-- What a pass is told of the outside at one instant. -/
structure Reading where
  /-- Milliseconds on the clock. -/
  now : Nat
  /-- Why the context is done, if it is. -/
  contextError : Option ContextError
deriving DecidableEq, Repr

/-- A pass that waits for a callback. -/
inductive Progress (κ : Type) where
  /-- A start pass at `hook`, with `rest` still to come. -/
  | starting (hook : RegisteredHook κ) (rest : List (RegisteredHook κ)) (begun : Nat)
  /-- A stop pass at `hook`, over a list of hooks, with the failures so far. -/
  | stopping (hook : RegisteredHook κ) (hooks : List (RegisteredHook κ)) (failures : StopFailures)
      (begun : Nat)

/-- The hook whose callback the pass waits for. -/
def Progress.hook {κ : Type} : Progress κ → RegisteredHook κ
  | .starting hook _ _ => hook
  | .stopping hook _ _ _ => hook

/-- How far a pass has come when it stops for the moment. -/
inductive PassStep (κ : Type) where
  /-- It begins a callback and waits for it. -/
  | call (callback : κ) (progress : Progress κ)
  /-- It is over. -/
  | finish (result : Except LifecycleError Unit)
  /-- It counts a hook that is not there. -/
  | outOfRange (index : Nat)

namespace Lifecycle

variable {κ : Type}

/-- The record of a callback that began at `begun` and has just ended. -/
def recordOf (hook : RegisteredHook κ) (begun : Nat) (reading : Reading) : HookRecord :=
  ⟨hook.caller, .ofMillis (reading.now - begun)⟩

/-- Starts hooks one after another, up to the first with a callback.
Reference: `Lifecycle::start`. -/
def startFrom (reading : Reading) :
    List (RegisteredHook κ) → Lifecycle κ → PassStep κ × Lifecycle κ
  | [], l => (.finish (.ok ()), { l with state := .started })
  | hook :: rest, l =>
    match hook.onStart with
    | none => startFrom reading rest { l with started := l.started + 1 }
    | some callback =>
      match reading.contextError with
      | some reason =>
        (.finish (.error (.cancelled .start hook.caller reason [])),
          { l with state := .startFailed })
      | none =>
        (.call callback (.starting hook rest reading.now), { l with running := some hook.caller })

/-- Begins a start pass, over the hooks appended so far. Reference: `Lifecycle::start`. -/
def beginStart (reading : Reading) (l : Lifecycle κ) : PassStep κ × Lifecycle κ :=
  if l.state = .notStarted ∨ l.state = .stopped then
    startFrom reading l.hooks { l with state := .starting, startRecords := [] }
  else (.finish (.error (.invalidTransition l.state "start")), l)

/-- Goes back over the hooks, from the one before `count` down to the next with a callback.
Reference: `Lifecycle::stop`. -/
def stopFrom (reading : Reading) (hooks : List (RegisteredHook κ)) (failures : StopFailures) :
    Nat → Lifecycle κ → PassStep κ × Lifecycle κ
  | 0, l =>
    (.finish (if failures.isEmpty then .ok () else .error (.stopFailed failures)),
      { l with state := .stopped })
  | count + 1, l =>
    match hooks[count]? with
    | none => (.outOfRange count, l)
    | some hook =>
      match hook.onStop with
      | none => stopFrom reading hooks failures count { l with started := count }
      | some callback =>
        match reading.contextError with
        | some reason => (.finish (.error (.cancelled .stop hook.caller reason failures)), l)
        | none =>
          (.call callback (.stopping hook hooks failures reading.now),
            { l with started := count, running := some hook.caller })

/-- Begins a stop pass, over the hooks counted as started. Reference: `Lifecycle::stop`. -/
def beginStop (reading : Reading) (l : Lifecycle κ) : PassStep κ × Lifecycle κ :=
  stopFrom reading l.hooks [] l.started { l with state := .stopping, stopRecords := [] }

/-- Begins a pass. -/
def begin (phase : Phase) (reading : Reading) (l : Lifecycle κ) : PassStep κ × Lifecycle κ :=
  match phase with
  | .start => l.beginStart reading
  | .stop => l.beginStop reading

/-- Goes on with a pass whose callback has returned. -/
def resume (progress : Progress κ) (result : Except Failure Unit) (reading : Reading)
    (l : Lifecycle κ) : PassStep κ × Lifecycle κ :=
  match progress, result with
  | .starting hook _ _, .error source =>
    (.finish (.error (.hookFailed .start hook.caller source)),
      { l with running := none, state := .startFailed })
  | .starting hook rest begun, .ok () =>
    startFrom reading rest
      { l with
        running := none
        startRecords := l.startRecords ++ [recordOf hook begun reading]
        started := l.started + 1 }
  | .stopping hook hooks failures begun, result =>
    let failures := match result with
      | .ok () => failures
      | .error source => failures ++ [⟨hook.caller, source⟩]
    stopFrom reading hooks failures l.started
      { l with running := none, stopRecords := l.stopRecords ++ [recordOf hook begun reading] }

end Lifecycle

end ServiceHost
