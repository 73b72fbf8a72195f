/-!
Contexts tell a callback when to give up. A context is done once it was cancelled, or once its
deadline has passed. Deriving a context makes a child: it is cancelled together with its parent, but
not the other way round, and its deadline is never later than the parent's.

A context is known by its lineage, its own scope first and the scopes of those it was derived from
after it. Cancelling marks a scope; a context is cancelled once any scope of its lineage is marked.
-/

namespace ServiceHost

/-- Why a context is done. Reference: `ContextError`. -/
inductive ContextError where
  | canceled
  | deadlineExceeded
deriving DecidableEq, Repr

/-- The text of the reason. -/
def ContextError.message : ContextError → String
  | .canceled => "context canceled"
  | .deadlineExceeded => "context deadline exceeded"

/-- The word for the reason. -/
def ContextError.name : ContextError → String
  | .canceled => "Canceled"
  | .deadlineExceeded => "DeadlineExceeded"

/-- The scope of a cancellation. -/
abbrev ScopeId := Nat

/-- A context. Instants are milliseconds on the clock. Reference: `Context`. -/
structure Context where
  /-- The own scope, then those it was derived from, the nearest first. -/
  lineage : List ScopeId
  deadline : Option Nat
deriving DecidableEq, Repr

/-- The scopes there are: how many were made, and which of them were cancelled. -/
structure Scopes where
  count : Nat
  cancelled : List ScopeId
deriving DecidableEq, Repr

namespace Scopes

/-- No scope was made yet. -/
def initial : Scopes :=
  ⟨0, []⟩

/-- A context that nothing ends but its own cancellation. Reference: `Context::background`. -/
def background (s : Scopes) : Context × Scopes :=
  (⟨[s.count], none⟩, { s with count := s.count + 1 })

/-- A context that can be cancelled without its parent. Reference: `Context::child`. -/
def child (s : Scopes) (parent : Context) : Context × Scopes :=
  ({ parent with lineage := s.count :: parent.lineage }, { s with count := s.count + 1 })

/-- The earlier of a deadline and the one that a parent may have. -/
def earlier (deadline : Nat) : Option Nat → Nat
  | none => deadline
  | some parent => if parent < deadline then parent else deadline

/-- A child that is also done at `deadline`. Reference: `Context::with_deadline`. -/
def withDeadline (s : Scopes) (parent : Context) (deadline : Nat) : Context × Scopes :=
  (⟨s.count :: parent.lineage, some (earlier deadline parent.deadline)⟩,
    { s with count := s.count + 1 })

/-- A child that is also done after `timeout` from `now` on. Reference: `Context::with_timeout`. -/
def withTimeout (s : Scopes) (parent : Context) (now timeout : Nat) : Context × Scopes :=
  s.withDeadline parent (now + timeout)

/-- Cancels a context, and with it all that are derived from it. Reference: `Context::cancel`. -/
def cancel (s : Scopes) (ctx : Context) : Scopes :=
  { s with cancelled := ctx.lineage.take 1 ++ s.cancelled }

/-- The context, or one it was derived from, was cancelled. -/
def isCancelled (s : Scopes) (ctx : Context) : Bool :=
  ctx.lineage.any fun scope => s.cancelled.contains scope

/-- Why the context is done, if it is. Reference: `Context::err`. -/
def error? (s : Scopes) (now : Nat) (ctx : Context) : Option ContextError :=
  if s.isCancelled ctx then some .canceled
  else match ctx.deadline with
    | none => none
    | some deadline => if deadline ≤ now then some .deadlineExceeded else none

/-- The reasons with which a wait for the end of the context may return at `now`: it watches for the
cancellation and for the deadline at once, and takes either if both have come.
Reference: `Context::done`. -/
def doneReasons (s : Scopes) (now : Nat) (ctx : Context) : List ContextError :=
  (if s.isCancelled ctx then [.canceled] else []) ++
    (match ctx.deadline with
    | none => []
    | some deadline => if deadline ≤ now then [.deadlineExceeded] else [])

/-- The reason with which a wait for the end of the context returns at `now`, if it does. Of two
reasons the cancellation is taken. -/
def done? (s : Scopes) (now : Nat) (ctx : Context) : Option ContextError :=
  (s.doneReasons now ctx).head?

end Scopes

end ServiceHost
