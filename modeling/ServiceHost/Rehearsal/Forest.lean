import ServiceHost.Context

/-!
The forest of the scopes that contexts are made of: which scopes hang from which, each row in an
order of its own. When a scope is cancelled those below it are told first, the near ones before the
far ones, and the scope itself last. Of a row the last scope is told first, and then the others from
the beginning.

A scope that nobody holds any more leaves the forest. Those that hang from it move to the end of the
row it stood in, so that they are still told, and then the last of that row takes its place.
-/

namespace ServiceHost.Rehearsal

/-- The rows of scopes, each with the scope that it hangs from. A scope stands in one row at
most. -/
structure Forest where
  rows : List (ScopeId × List ScopeId)
deriving DecidableEq, Repr

namespace Forest

/-- No scope hangs from another one. -/
def empty : Forest :=
  ⟨[]⟩

/-- The scopes that hang from a scope, in order. -/
def row (f : Forest) (scope : ScopeId) : List ScopeId :=
  (f.rows.lookup scope).getD []

/-- Replaces the row that hangs from a scope. -/
def setRow (f : Forest) (scope : ScopeId) (row : List ScopeId) : Forest :=
  ⟨(scope, row) :: f.rows.filter fun e => e.1 != scope⟩

/-- The scope that a scope hangs from. -/
def parent? (f : Forest) (scope : ScopeId) : Option ScopeId :=
  (f.rows.find? fun e => e.2.contains scope).map (·.1)

/-- Hangs a new scope from another one. -/
def hang (f : Forest) (parent child : ScopeId) : Forest :=
  f.setRow parent (f.row parent ++ [child])

/-- A row without one of its scopes, whose place the last one takes. -/
def takeOut (scope : ScopeId) (row : List ScopeId) : List ScopeId :=
  match row.getLast? with
  | none => []
  | some last => row.dropLast.map fun other => if other = scope then last else other

/-- The forest without a scope that nobody holds. -/
def leave (f : Forest) (scope : ScopeId) : Forest :=
  let rest : Forest := ⟨f.rows.filter fun e => e.1 != scope⟩
  match rest.parent? scope with
  | none => rest
  | some parent => rest.setRow parent (takeOut scope (rest.row parent ++ f.row scope))

/-- The scopes that stand in the forest. -/
def members (f : Forest) : List ScopeId :=
  (f.rows.flatMap fun e => e.1 :: e.2).eraseDups

/-- The forest of the scopes that are still held. -/
def prune (f : Forest) (held : ScopeId → Bool) : Forest :=
  (f.members.filter fun scope => !held scope).foldl leave f

/-- The last of a row, and then the others. -/
def lastFirst (row : List ScopeId) : List ScopeId :=
  row.getLast?.toList ++ row.dropLast

/-- The first `count` scopes of a line, in which those that hang from a scope queue up when it is
its turn. -/
def tell (f : Forest) : Nat → List ScopeId → List ScopeId
  | 0, _ => []
  | _ + 1, [] => []
  | count + 1, scope :: rest => scope :: f.tell count (rest ++ lastFirst (f.row scope))

/-- The scopes below a scope, in the order in which they are told. -/
def below (f : Forest) (scope : ScopeId) : List ScopeId :=
  let hanging := (f.rows.map fun e => e.2.length).foldr (· + ·) 0
  f.tell hanging (lastFirst (f.row scope))

/-- Those who are told that a scope is cancelled, in order, and the forest without anything below
it. -/
def cancel (f : Forest) (scope : ScopeId) : List ScopeId × Forest :=
  let told := f.below scope ++ [scope]
  (told, ⟨f.rows.filter fun e => !told.contains e.1⟩)

end Forest

end ServiceHost.Rehearsal
