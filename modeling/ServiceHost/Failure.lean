/-!
The failure of a callback: what went wrong, and below it one cause after another down to the root.
-/

namespace ServiceHost

/-- A message and the messages of its causes, the nearest first. -/
structure Failure where
  message : String
  causes : List String
deriving DecidableEq, Repr

namespace Failure

/-- Every message, from the outermost to the root cause. -/
def messages (f : Failure) : List String :=
  f.message :: f.causes

/-- A failure with no cause below it. -/
def plain (message : String) : Failure :=
  ⟨message, []⟩

/-- Every message on one line. -/
def report (f : Failure) : String :=
  ": ".intercalate f.messages

end Failure

end ServiceHost
