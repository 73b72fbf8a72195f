import Mathlib.Data.List.Induction
import ServiceHost.Proofs.Context.Family

/-!
# Waiting for the end of a context

Whether a context has ended is asked in two ways. `Scopes.error?` looks for the cancellation and
then at the clock. A wait polls two futures, of the cancellation and of a timer, in an order that is
new with each poll, and the timer may be late (`Poll`). It returns with the first of them that is
ready, so that the reasons of all polls are those of `Scopes.doneReasons`
(`Scopes.mem_doneReasons_iff`). A poll is never ready before the context has ended, and tells the
reason that `Scopes.error?` tells unless the context was cancelled and is past its deadline as well
(`Scopes.EndedTwice`). Then it tells either.

A wait goes on while other contexts come about, are cancelled and outlived by the clock, and returns
at one of its polls, whichever they are (`Wait.of_result`).
-/

namespace ServiceHost

/-! ## One poll -/

/-- A future that a wait polls. -/
inductive Branch where
  | cancellation
  | deadline
deriving DecidableEq, Repr

def Branch.other : Branch → Branch
  | .cancellation => .deadline
  | .deadline => .cancellation

/-- A poll of a wait. -/
structure Poll where
  /-- The future that it looks at first. -/
  first : Branch
  /-- The timer has gone off, if its time has come. -/
  fired : Bool
deriving DecidableEq, Repr

namespace Scopes

/-- What a future returns when it is polled at `now`, if it is ready. -/
def ready (s : Scopes) (now : Nat) (ctx : Context) (fired : Bool) : Branch → Option ContextError
  | .cancellation => if s.isCancelled ctx then some .canceled else none
  | .deadline =>
    match ctx.deadline with
    | none => none
    | some deadline => if fired ∧ deadline ≤ now then some .deadlineExceeded else none

/-- What a poll at `now` comes to. -/
def poll (s : Scopes) (now : Nat) (ctx : Context) (p : Poll) : Option ContextError :=
  (s.ready now ctx p.fired p.first).or (s.ready now ctx p.fired p.first.other)

/-- The context was cancelled, and is past its deadline as well. -/
def EndedTwice (s : Scopes) (now : Nat) (ctx : Context) : Prop :=
  s.isCancelled ctx = true ∧ ∃ deadline, ctx.deadline = some deadline ∧ deadline ≤ now

variable {s : Scopes} {now : Nat} {ctx : Context} {reason : ContextError}

/-- A context is done for the reasons that its scope and its deadline give. -/
theorem mem_doneReasons : reason ∈ s.doneReasons now ctx ↔
    reason = .canceled ∧ s.isCancelled ctx = true ∨
      reason = .deadlineExceeded ∧ ∃ deadline, ctx.deadline = some deadline ∧ deadline ≤ now := by
  unfold doneReasons
  rw [List.mem_append]
  refine or_congr ?_ ?_
  · cases s.isCancelled ctx <;> simp
  · cases ctx.deadline with
    | none => simp
    | some deadline => by_cases hlate : deadline ≤ now <;> simp [hlate]

/-- A future is ready for one reason. -/
theorem ready_eq_some {fired : Bool} {branch : Branch}
    (h : s.ready now ctx fired branch = some reason) : reason ∈ s.doneReasons now ctx := by
  rw [mem_doneReasons]
  cases branch with
  | cancellation =>
    simp only [ready] at h
    split at h
    · next hcancelled =>
      cases h
      exact .inl ⟨rfl, hcancelled⟩
    · cases h
  | deadline =>
    simp only [ready] at h
    cases hdeadline : ctx.deadline with
    | none =>
      rw [hdeadline] at h
      cases h
    | some deadline =>
      simp only [hdeadline] at h
      split at h
      · next hlate =>
        cases h
        exact .inr ⟨rfl, deadline, rfl, hlate.2⟩
      · cases h

/-- The reasons of a wait are those that one or another poll tells. -/
theorem mem_doneReasons_iff :
    reason ∈ s.doneReasons now ctx ↔ ∃ p, s.poll now ctx p = some reason := by
  constructor
  · intro h
    rcases mem_doneReasons.1 h with ⟨rfl, hcancelled⟩ | ⟨rfl, deadline, hdeadline, hlate⟩
    · exact ⟨⟨.cancellation, true⟩, by simp [poll, ready, hcancelled]⟩
    · exact ⟨⟨.deadline, true⟩, by simp [poll, ready, hdeadline, hlate]⟩
  · rintro ⟨p, hp⟩
    rcases Option.or_eq_some_iff.1 hp with hfirst | ⟨-, hother⟩
    · exact ready_eq_some hfirst
    · exact ready_eq_some hother

/-- A wait tells no reason before the context has ended, and the reason that it has ended for unless
it has done so twice. -/
theorem error?_of_mem_doneReasons (h : reason ∈ s.doneReasons now ctx) :
    s.error? now ctx ≠ none ∧
      (¬s.EndedTwice now ctx → s.error? now ctx = some reason) := by
  unfold error? EndedTwice
  rcases mem_doneReasons.1 h with ⟨rfl, hcancelled⟩ | ⟨rfl, deadline, hdeadline, hlate⟩
  · simp [hcancelled]
  · cases hcancelled : s.isCancelled ctx with
    | true => simp [hdeadline, hlate]
    | false => simp [hdeadline, hlate]

/-- A context that has ended twice lets a poll tell either reason. -/
theorem EndedTwice.poll (h : s.EndedTwice now ctx) :
    s.poll now ctx ⟨.cancellation, true⟩ = some .canceled ∧
      s.poll now ctx ⟨.deadline, true⟩ = some .deadlineExceeded ∧
      s.error? now ctx = some .canceled := by
  obtain ⟨hcancelled, deadline, hdeadline, hlate⟩ := h
  simp [Scopes.poll, ready, error?, hcancelled, hdeadline, hlate]

end Scopes

/-! ## A wait and what goes on meanwhile -/

/-- What can happen while somebody waits for the end of a context. -/
inductive WaitMove where
  | live (move : FamilyMove)
  | poll (p : Poll)

/-- A wait for the end of the context at a place of the family. -/
structure Wait where
  member : Nat
  family : Family
  /-- The reason with which it has returned. -/
  result : Option ContextError

namespace Wait

/-- What a poll comes to. -/
def poll (w : Wait) (p : Poll) : Option ContextError :=
  w.family.members[w.member]?.bind fun m => w.family.scopes.poll w.family.now m.context p

/-- One move. A wait that has returned is not polled again. -/
def step (w : Wait) : WaitMove → Wait
  | .live move => { w with family := w.family.step move }
  | .poll p =>
    match w.result with
    | some _ => w
    | none => { w with result := w.poll p }

/-- The wait after more moves. -/
def run (w : Wait) (moves : List WaitMove) : Wait :=
  moves.foldl step w

/-- The wait for the context at that place, from before there was any. -/
def of (member : Nat) (moves : List WaitMove) : Wait :=
  run ⟨member, .empty, none⟩ moves

theorem run_concat (w : Wait) (moves : List WaitMove) (move : WaitMove) :
    w.run (moves ++ [move]) = (w.run moves).step move :=
  List.foldl_append

@[simp] theorem step_member (w : Wait) (move : WaitMove) : (w.step move).member = w.member := by
  cases move with
  | live move => rfl
  | poll p =>
    simp only [step]
    split <;> rfl

@[simp] theorem of_member (member : Nat) (moves : List WaitMove) :
    (of member moves).member = member := by
  induction moves using List.reverseRecOn with
  | nil => rfl
  | append_singleton moves move ih =>
    unfold of at ih ⊢
    rw [run_concat, step_member, ih]

/-- Where a wait has returned after a move, it had returned before or the move polls it. -/
theorem step_result {w : Wait} {move : WaitMove} {reason : ContextError}
    (h : (w.step move).result = some reason) :
    w.result = some reason ∨
      w.result = none ∧ ∃ p, move = .poll p ∧ w.poll p = some reason := by
  cases move with
  | live move => exact .inl h
  | poll p =>
    simp only [step] at h
    cases hresult : w.result with
    | some reason' =>
      rw [hresult] at h
      exact .inl (hresult.symm.trans h)
    | none =>
      rw [hresult] at h
      exact .inr ⟨rfl, p, rfl, h⟩

/-- A wait that has returned did so at one of its polls, with a reason that held of its context. -/
theorem of_result {member : Nat} {moves : List WaitMove} {reason : ContextError}
    (h : (of member moves).result = some reason) :
    ∃ (before : List WaitMove) (p : Poll) (after : List WaitMove) (m : Member),
      moves = before ++ .poll p :: after ∧ (of member before).result = none ∧
      (of member before).family.members[member]? = some m ∧
      reason ∈ (of member before).family.scopes.doneReasons (of member before).family.now
        m.context := by
  induction moves using List.reverseRecOn with
  | nil => cases h
  | append_singleton moves move ih =>
    unfold of at h
    rw [run_concat] at h
    rcases step_result h with hbefore | ⟨hnone, p, rfl, hpoll⟩
    · obtain ⟨before, p, after, m, rfl, hrest⟩ := ih hbefore
      exact ⟨before, p, after ++ [move], m, by simp, hrest⟩
    · have hpoll : (of member moves).poll p = some reason := hpoll
      obtain ⟨m, hm, hreason⟩ := Option.bind_eq_some_iff.1 hpoll
      rw [of_member] at hm
      exact ⟨moves, p, [], m, rfl, hnone, hm, Scopes.mem_doneReasons_iff.2 ⟨p, hreason⟩⟩

end Wait

end ServiceHost
