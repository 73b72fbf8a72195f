import ServiceHost.Duration

/-!
What is kept about a hook's callback that ran to its end: who registered it and how long it ran. A
report lists the slowest first; records of equal length keep their order.
-/

namespace ServiceHost

/-- One callback that ended. Reference: `HookRecord`. -/
structure HookRecord where
  caller : String
  runtime : Duration
deriving DecidableEq, Repr

/-- The line of a record in a report. -/
def HookRecord.text (r : HookRecord) : String :=
  r.caller ++ " took " ++ r.runtime.text

/-- The callbacks of one pass that ended, in the order in which they did.
Reference: `HookRecords`. -/
abbrev HookRecords := List HookRecord

namespace HookRecords

/-- The slowest first. Reference: `HookRecords::sorted_by_runtime`. -/
def sortedByRuntime (rs : HookRecords) : HookRecords :=
  rs.mergeSort fun a b => b.runtime.nanos ≤ a.runtime.nanos

/-- The time that all callbacks together took. Reference: `HookRecords::total_runtime`. -/
def totalRuntime? (rs : HookRecords) : Option Duration :=
  Duration.sum? (rs.map (·.runtime))

/-- The report on a pass, a line for each record. -/
def text (rs : HookRecords) : String :=
  "\n".intercalate (rs.sortedByRuntime.map (·.text))

end HookRecords

end ServiceHost
