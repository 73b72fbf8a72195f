import ServiceHost.Lifecycle.Error
import ServiceHost.Lifecycle.Hook
import ServiceHost.Text.Blank

/-!
A lifecycle: its hooks in the order in which they were appended, and what is known about the passes
over them, which anyone may read while a callback runs.
-/

namespace ServiceHost

/-- The hooks of an application and how far they have come. Reference: `Lifecycle`. -/
structure Lifecycle (κ : Type) where
  hooks : List (RegisteredHook κ)
  state : LifecycleState
  /-- The number of hooks that a stop pass would go back over. -/
  started : Nat
  /-- The hook whose callback is running. -/
  running : Option String
  startRecords : HookRecords
  stopRecords : HookRecords

namespace Lifecycle

variable {κ : Type}

/-- A lifecycle without hooks. Reference: `Lifecycle::new`. -/
def empty : Lifecycle κ :=
  ⟨[], .notStarted, 0, none, [], []⟩

/-- Appends a hook. One without a name is known by the place it was appended from.
Reference: `Lifecycle::append`. -/
def append (l : Lifecycle κ) (callSite : String) (hook : Hook κ) :
    Except LifecycleError (Lifecycle κ) :=
  match hook.caller with
  | some caller =>
    if Text.isBlankText caller then .error .blankCaller
    else .ok { l with hooks := l.hooks ++ [⟨hook.onStart, hook.onStop, caller⟩] }
  | none => .ok { l with hooks := l.hooks ++ [⟨hook.onStart, hook.onStop, callSite⟩] }

/-- The records of the most recent pass. Reference: `Lifecycle::hook_records`. -/
def records (l : Lifecycle κ) : Phase → HookRecords
  | .start => l.startRecords
  | .stop => l.stopRecords

/-- The description for a reader of diagnostics. -/
def describe (l : Lifecycle κ) : String :=
  "Lifecycle \x7b hooks: " ++ toString l.hooks.length ++ ", state: " ++ l.state.name ++
    ", started: " ++ toString l.started ++ " \x7d"

end Lifecycle

end ServiceHost
