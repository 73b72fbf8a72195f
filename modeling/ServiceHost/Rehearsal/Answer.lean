import ServiceHost.Rehearsal.World
import ServiceHost.Settings.Reader

/-!
The answers to the steps of a script, and what is told beside them.
-/

namespace ServiceHost.Rehearsal

/-- The answer to a step. -/
inductive Answer where
  | ok
  /-- A word for a special outcome. -/
  | word (text : String)
  | flag (value : Bool)
  /-- The step panicked. -/
  | panic (text : String)
  | graphError (error : GraphError)
  | lifecycleError (error : LifecycleError)
  | shutdownError (error : ShutdownError)
  | settingsFault (fault : SettingsFault)
  | part (part : Part)
  /-- The numbers that an invoked function has collected. -/
  | collected (deps : List (Option Nat))
  | contains (value : Bool)
  | cached (value : Bool)
  | size (value : Nat)
  | description (text : String)
  | graphDescription (nodes : List String) (lines : Nat)
  /-- The answers to callers that do not wait for each other. -/
  | each (answers : List Answer)
  | signal (value : Option Signal)
  | hook (description : String) (start stop : Bool)
  | records (start stop : HookRecords)
  | contextDone (reason : ContextError)
  | settings (timeouts : Timeouts)

/-- The state of a named context. -/
structure ContextReport where
  name : String
  error : Option ContextError
  deadline : Option Nat
deriving DecidableEq, Repr

/-- What is told after a step. -/
structure Report where
  answer : Answer
  /-- The lines written during the step. -/
  log : List String
  snapshot : Snapshot
  subscribers : Nat
  contexts : List ContextReport

end ServiceHost.Rehearsal
