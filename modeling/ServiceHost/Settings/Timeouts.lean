import ServiceHost.Duration
import ServiceHost.Text.Quoted

/-!
The settings of the application: how long a start and a stop may take, in milliseconds.
-/

namespace ServiceHost

/-- The two timeouts, in milliseconds. Reference: `RuntimeConfig`. -/
structure Timeouts where
  startMs : UInt64
  stopMs : UInt64
deriving DecidableEq, Repr

/-- The two settings. -/
inductive TimeoutField where
  | start
  | stop
deriving DecidableEq, Repr

/-- The name of a setting in a file. -/
def TimeoutField.name : TimeoutField → String
  | .start => "start_timeout_ms"
  | .stop => "stop_timeout_ms"

namespace Timeouts

/-- The milliseconds for a setting that is not given. -/
def defaultMs : UInt64 := 15000

/-- The settings if none is given. Reference: `RuntimeConfig::default`. -/
def standard : Timeouts :=
  ⟨defaultMs, defaultMs⟩

/-- The setting as a length of time. Reference: `RuntimeConfig::start_timeout`. -/
def start (t : Timeouts) : Duration :=
  .ofMillis t.startMs.toNat

/-- The setting as a length of time. Reference: `RuntimeConfig::stop_timeout`. -/
def stop (t : Timeouts) : Duration :=
  .ofMillis t.stopMs.toNat

/-- The whole milliseconds of a length of time, or as many as there can be.
Reference: `duration_ms`. -/
def clampMs (d : Duration) : UInt64 :=
  .ofNat (min d.millis (Nat.pow 2 64 - 1))

/-- The settings with another start timeout. Reference: `RuntimeConfig::with_start_timeout`. -/
def withStart (t : Timeouts) (d : Duration) : Timeouts :=
  { t with startMs := clampMs d }

/-- The settings with another stop timeout. Reference: `RuntimeConfig::with_stop_timeout`. -/
def withStop (t : Timeouts) (d : Duration) : Timeouts :=
  { t with stopMs := clampMs d }

/-- The settings as the text of a file. -/
def render (t : Timeouts) : String :=
  "\x7b\"start_timeout_ms\":" ++ toString t.startMs.toNat ++ ",\"stop_timeout_ms\":" ++
    toString t.stopMs.toNat ++ "\x7d"

/-- The description for a reader of diagnostics. -/
def describe (t : Timeouts) : String :=
  "RuntimeConfig \x7b start_timeout_ms: " ++ toString t.startMs.toNat ++ ", stop_timeout_ms: " ++
    toString t.stopMs.toNat ++ " \x7d"

end Timeouts

end ServiceHost
