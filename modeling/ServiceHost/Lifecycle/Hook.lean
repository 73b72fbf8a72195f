import ServiceHost.Graph.Key
import ServiceHost.Text.Quoted

/-!
Hooks: a callback to run when the application starts and one to run when it stops, either of which
may be missing, and the name that errors and records give to them. What a callback is, is left open.
-/

namespace ServiceHost

/-- A pair of callbacks. Reference: `Hook`. -/
structure Hook (κ : Type) where
  onStart : Option κ
  onStop : Option κ
  caller : Option String

namespace Hook

variable {κ : Type}

/-- A hook without callbacks and without a name. Reference: `Hook::new`. -/
def empty : Hook κ :=
  ⟨none, none, none⟩

/-- The hook with a name for errors and records. Reference: `Hook::caller`. -/
def withCaller (h : Hook κ) (caller : String) : Hook κ :=
  { h with caller := some caller }

/-- A hook that starts a service, under the name of its type. Reference: `Hook::starting`. -/
def starting (type : ComponentType) (start : κ) : Hook κ :=
  ⟨some start, none, some type.name⟩

/-- A hook that stops a service, under the name of its type. Reference: `Hook::stopping`. -/
def stopping (type : ComponentType) (stop : κ) : Hook κ :=
  ⟨none, some stop, some type.name⟩

/-- A hook that starts and stops a service, under the name of its type.
Reference: `Hook::service`. -/
def service (type : ComponentType) (start stop : κ) : Hook κ :=
  { starting type start with onStop := some stop }

/-- The description for a reader of diagnostics. -/
def describe (h : Hook κ) : String :=
  let caller := match h.caller with
    | none => "None"
    | some caller => "Some(" ++ Text.quote caller ++ ")"
  "Hook \x7b caller: " ++ caller ++ ", on_start: " ++ toString h.onStart.isSome ++
    ", on_stop: " ++ toString h.onStop.isSome ++ " \x7d"

end Hook

/-- A hook of a lifecycle, whose name is settled. Reference: `Registered`. -/
structure RegisteredHook (κ : Type) where
  onStart : Option κ
  onStop : Option κ
  caller : String

end ServiceHost
