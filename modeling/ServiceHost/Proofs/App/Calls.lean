import Mathlib.Data.List.Induction
import ServiceHost.Proofs.App.Host

/-!
# What becomes of a call

`Host.Change` tells what a move does to a host as a whole. Seen from one of the calls that is less:
the call stays as it is, or takes one of a few steps (`Host.Fares`). So a call that was given up was
given up by one of the moves, while it waited, and what it has read since it has read by later ones
(`Host.givenUp_run`, `Host.reporting_run`).
-/

namespace ServiceHost

variable {κ : Type}

/-- After one call has changed, a call is that one or stands where it stood. -/
theorem getElem?_set_cases {calls : List HostCall} {n i : Nat} {new hostCall : HostCall}
    (h : (calls.set n new)[i]? = some hostCall) :
    i = n ∧ hostCall = new ∨ i ≠ n ∧ calls[i]? = some hostCall := by
  by_cases hi : i = n
  · subst hi
    have hlt : i < (calls.set i new).length := (List.getElem?_eq_some_iff.1 h).1
    rw [List.length_set] at hlt
    rw [List.getElem?_set_self hlt] at h
    exact .inl ⟨rfl, (Option.some.inj h).symm⟩
  · rw [List.getElem?_set_ne (Ne.symm hi)] at h
    exact .inr ⟨hi, h⟩

/-- After one call has come, a call is that one or stands where it stood. -/
theorem getElem?_concat_cases {calls : List HostCall} {i : Nat} {new hostCall : HostCall}
    (h : (calls ++ [new])[i]? = some hostCall) : hostCall = new ∨ calls[i]? = some hostCall := by
  rcases Nat.lt_or_ge i calls.length with hlt | hge
  · rw [List.getElem?_append_left hlt] at h
    exact .inr h
  · rw [List.getElem?_append_right hge] at h
    exact .inl (List.mem_singleton.1 (List.mem_of_getElem? h))

namespace Host

/-! ## What becomes of one call -/

/-- What a move makes of the call of that number. -/
inductive Fares (host : Host κ) (n : Nat) : HostMove κ → HostCall → HostCall → Prop
  | same (m : HostMove κ) (call : HostCall) : Fares host n m call call
  | launched {stage context fate} :
      Fares host n (.launch n) ⟨.launching stage context, fate⟩
        ⟨.waiting ⟨stage, host.coordinator.asked, (host.contextFor stage context).1⟩, fate⟩
  | entered {call fate fate' phase} (hturn : host.coordinator.turn? call.pass = some phase)
      (hcourse : (host.step (.enter n)).course =
        host.course.next (.enter call.pass (host.reading call.context))) :
      Fares host n (.enter n) ⟨.waiting call, fate⟩
        ⟨call.onward (host.coordinator.lifecycle.begin phase (host.reading call.context)).1, fate'⟩
  | resumed {call fate progress result}
      (hprogress : host.coordinator.progress? call.pass = some progress)
      (hcourse : (host.step (.returned n result)).course =
        host.course.next (.returned call.pass result (host.reading call.context))) :
      Fares host n (.returned n result) ⟨.waiting call, fate⟩
        ⟨call.onward
          (host.coordinator.lifecycle.resume progress result (host.reading call.context)).1, fate⟩
  | gaveUp {call fate fate' reason}
      (hdone : reason ∈ host.scopes.doneReasons host.now call.context)
      (hturn : host.coordinator.turn? call.pass = none) :
      Fares host n (.giveUp n reason) ⟨.waiting call, fate⟩ ⟨.givenUp call reason, fate'⟩
  | runningRead {call reason fate} :
      Fares host n (.readRunning n) ⟨.givenUp call reason, fate⟩
        ⟨.reporting call reason host.coordinator.lifecycle.running, fate⟩
  | recordsRead {call reason running fate} :
      Fares host n (.readRecords n) ⟨.reporting call reason running, fate⟩
        ⟨call.conclude (.error (call.report reason running
          (host.coordinator.lifecycle.records call.stage.phase))), fate⟩
  | dropped {call fate} : Fares host n (.drop n) ⟨.waiting call, fate⟩ ⟨.dropped, fate⟩
  | dismissed {stage context fate} :
      Fares host n (.drop n) ⟨.launching stage context, fate⟩ ⟨.dropped, fate⟩

/-- A call has come by the move, or stood there before and fares as `Fares` says. -/
theorem fares {host : Host κ} {m : HostMove κ} {n : Nat} {new : HostCall}
    (hnew : (host.step m).calls[n]? = some new) :
    (∃ old, host.calls[n]? = some old ∧ Fares host n m old new) ∨
      host.calls[n]? = none ∧ ∃ phase context, m = .call phase context ∧
        new = ⟨.launching (.ofPhase phase) context, .unsettled⟩ := by
  -- the call of a move changes, and the others stand where they stood
  have hset {m : HostMove κ} {j : Nat} {old changed : HostCall} (hold : host.calls[j]? = some old)
      (hfares : Fares host j m old changed) (h : (host.calls.set j changed)[n]? = some new) :
      (∃ old, host.calls[n]? = some old ∧ Fares host n m old new) ∨
        host.calls[n]? = none ∧ ∃ phase context, m = .call phase context ∧
          new = ⟨.launching (.ofPhase phase) context, .unsettled⟩ := by
    rcases getElem?_set_cases h with ⟨rfl, rfl⟩ | ⟨-, hbefore⟩
    · exact .inl ⟨old, hold, hfares⟩
    · exact .inl ⟨new, hbefore, .same m new⟩
  have hchange := host.change m
  generalize hstep : host.step m = host' at hchange hnew
  cases hchange with
  | still => exact .inl ⟨new, hnew, .same m new⟩
  | outside => exact .inl ⟨new, hnew, .same m new⟩
  | appended => exact .inl ⟨new, hnew, .same _ new⟩
  | called phase context =>
    rcases Nat.lt_or_ge n host.calls.length with hlt | hge
    · rw [List.getElem?_append_left hlt] at hnew
      exact .inl ⟨new, hnew, .same _ new⟩
    · refine .inr ⟨List.getElem?_eq_none hge, phase, context, rfl, ?_⟩
      rw [List.getElem?_append_right hge] at hnew
      exact List.mem_singleton.1 (List.mem_of_getElem? hnew)
  | launched hcall => exact hset hcall .launched hnew
  | entered hcall hturn =>
    exact hset hcall (.entered hturn (congrArg Host.course hstep)) hnew
  | resumed hcall hprogress =>
    exact hset hcall (.resumed hprogress (congrArg Host.course hstep)) hnew
  | gaveUp hcall hdone hturn => exact hset hcall (.gaveUp hdone hturn) hnew
  | runningRead hcall => exact hset hcall .runningRead hnew
  | recordsRead hcall => exact hset hcall .recordsRead hnew
  | dropped hcall => exact hset hcall .dropped hnew
  | dismissed hcall => exact hset hcall .dismissed hnew

/-- A call that stands there before the move fares as `Fares` says. -/
theorem fares_of {host : Host κ} {n : Nat} {old : HostCall} (hold : host.calls[n]? = some old)
    (m : HostMove κ) : ∃ new, (host.step m).calls[n]? = some new ∧ Fares host n m old new := by
  have hlt := (List.getElem?_eq_some_iff.1 hold).1
  have hlonger : n < (host.step m).calls.length := by
    have hchange := host.change m
    generalize host.step m = host' at hchange
    cases hchange with
    | still => exact hlt
    | outside => exact hlt
    | appended => exact hlt
    | called =>
      rw [List.length_append]
      exact Nat.lt_add_right _ hlt
    | _ => exact List.length_set.symm ▸ hlt
  refine ⟨_, List.getElem?_eq_getElem hlonger, ?_⟩
  rcases fares (List.getElem?_eq_getElem hlonger) with ⟨old', hold', hfares⟩ | ⟨hnone, -⟩
  · cases hold.symm.trans hold'
    exact hfares
  · cases hold.symm.trans hnone

/-! ## The course of a host -/

/-- A move at a host is at most one move at its lifecycle. -/
theorem course_step (host : Host κ) (m : HostMove κ) :
    ∃ moves, (host.step m).course = host.course.run moves := by
  have hchange := host.change m
  generalize host.step m = host' at hchange
  cases hchange with
  | still => exact ⟨[], rfl⟩
  | outside => exact ⟨[], rfl⟩
  | called => exact ⟨[], rfl⟩
  | runningRead => exact ⟨[], rfl⟩
  | recordsRead => exact ⟨[], rfl⟩
  | dismissed => exact ⟨[], rfl⟩
  | appended => exact ⟨[_], rfl⟩
  | launched => exact ⟨[_], rfl⟩
  | entered => exact ⟨[_], rfl⟩
  | resumed => exact ⟨[_], rfl⟩
  | gaveUp => exact ⟨[_], rfl⟩
  | dropped => exact ⟨[_], rfl⟩

/-- Moves of a host are moves of its course, if any. -/
theorem course_run (host : Host κ) (moves : List (HostMove κ)) :
    ∃ moves', (host.run moves).course = host.course.run moves' := by
  refine run_induction (P := fun later => ∃ moves', later.course = host.course.run moves')
    ⟨[], rfl⟩ fun later m _ h => ?_
  obtain ⟨before, hbefore⟩ := h
  obtain ⟨after, hafter⟩ := later.course_step m
  exact ⟨before ++ after, by rw [hafter, hbefore, Course.run_append]⟩

/-! ## A call that was given up -/

section
variable {host : Host κ} {n : Nat} {call : AppCall} {reason : ContextError} {fate : Fate}

/-- The call waits for its pass, and the wait for the end of its context returns for that reason
while the gate is not its own. -/
structure GivesUp (host : Host κ) (n : Nat) (call : AppCall) (reason : ContextError) : Prop where
  waiting : ∃ fate, host.calls[n]? = some ⟨.waiting call, fate⟩
  done : reason ∈ host.scopes.doneReasons host.now call.context
  turn : host.coordinator.turn? call.pass = none

theorem run_concat (host : Host κ) (moves : List (HostMove κ)) (m : HostMove κ) :
    host.run (moves ++ [m]) = (host.run moves).step m :=
  List.foldl_append

/-- A call that was given up had been so before the move, or waited and is given up by it. -/
theorem givenUp_step {m : HostMove κ}
    (h : (host.step m).calls[n]? = some ⟨.givenUp call reason, fate⟩) :
    (∃ fate', host.calls[n]? = some ⟨.givenUp call reason, fate'⟩) ∨
      m = .giveUp n reason ∧ host.GivesUp n call reason := by
  rcases fares h with ⟨old, hold, hfares⟩ | ⟨-, _, _, -, hnew⟩
  · generalize hnew : (⟨.givenUp call reason, fate⟩ : HostCall) = new at hfares
    have hreports {new : HostCall} (hnew : ⟨.givenUp call reason, fate⟩ = new) :
        new.state.Reports call := hnew ▸ .givenUp reason
    cases hfares with
    | same =>
      cases hnew
      exact .inl ⟨_, hold⟩
    | launched => cases hnew
    | runningRead => cases hnew
    | dropped => cases hnew
    | dismissed => cases hnew
    | entered => exact absurd (hreports hnew) (AppCall.not_reports_onward _ _ call)
    | resumed => exact absurd (hreports hnew) (AppCall.not_reports_onward _ _ call)
    | recordsRead => exact absurd (hreports hnew) (AppCall.not_reports_conclude _ _ call)
    | gaveUp hdone hturn =>
      cases hnew
      exact .inr ⟨rfl, ⟨_, hold⟩, hdone, hturn⟩
  · cases hnew

/-- A call that is about to report had read the running hook before the move, or reads it now. -/
theorem reporting_step {m : HostMove κ} {running : Option String}
    (h : (host.step m).calls[n]? = some ⟨.reporting call reason running, fate⟩) :
    (∃ fate', host.calls[n]? = some ⟨.reporting call reason running, fate'⟩) ∨
      m = .readRunning n ∧ (∃ fate', host.calls[n]? = some ⟨.givenUp call reason, fate'⟩) ∧
        running = host.coordinator.lifecycle.running := by
  rcases fares h with ⟨old, hold, hfares⟩ | ⟨-, _, _, -, hnew⟩
  · generalize hnew : (⟨.reporting call reason running, fate⟩ : HostCall) = new at hfares
    have hreports {new : HostCall} (hnew : ⟨.reporting call reason running, fate⟩ = new) :
        new.state.Reports call := hnew ▸ .reporting reason running
    cases hfares with
    | same =>
      cases hnew
      exact .inl ⟨_, hold⟩
    | launched => cases hnew
    | gaveUp => cases hnew
    | dropped => cases hnew
    | dismissed => cases hnew
    | entered => exact absurd (hreports hnew) (AppCall.not_reports_onward _ _ call)
    | resumed => exact absurd (hreports hnew) (AppCall.not_reports_onward _ _ call)
    | recordsRead => exact absurd (hreports hnew) (AppCall.not_reports_conclude _ _ call)
    | runningRead =>
      cases hnew
      exact .inr ⟨rfl, ⟨_, hold⟩, rfl⟩
  · cases hnew

/-- A call that was given up while the host moved was given up by one of the moves, while it
waited. -/
theorem givenUp_run (hfresh : ∀ fate, host.calls[n]? ≠ some ⟨.givenUp call reason, fate⟩)
    {moves : List (HostMove κ)}
    (h : (host.run moves).calls[n]? = some ⟨.givenUp call reason, fate⟩) :
    ∃ first second, moves = first ++ .giveUp n reason :: second ∧
      (host.run first).GivesUp n call reason := by
  induction moves using List.reverseRecOn generalizing fate with
  | nil => exact absurd h (hfresh fate)
  | append_singleton moves m ih =>
    rw [run_concat] at h
    rcases givenUp_step h with ⟨_, hbefore⟩ | ⟨rfl, hgives⟩
    · obtain ⟨first, second, rfl, hgives⟩ := ih hbefore
      exact ⟨first, second ++ [m], by simp, hgives⟩
    · exact ⟨moves, [], rfl, hgives⟩

/-- A call that has come to report was given up by one of the moves, while it waited, and read the
running hook by a later one. -/
theorem reporting_run (hfresh : ∀ hostCall, host.calls[n]? = some hostCall →
      ¬ hostCall.state.Reports call)
    {moves : List (HostMove κ)} {running : Option String}
    (h : (host.run moves).calls[n]? = some ⟨.reporting call reason running, fate⟩) :
    ∃ first second third, moves = first ++ .giveUp n reason :: (second ++ .readRunning n :: third) ∧
      (host.run first).GivesUp n call reason ∧
      running = (host.run (first ++ .giveUp n reason :: second)).coordinator.lifecycle.running := by
  induction moves using List.reverseRecOn generalizing fate with
  | nil => exact absurd (.reporting reason running) (hfresh _ h)
  | append_singleton moves m ih =>
    rw [run_concat] at h
    rcases reporting_step h with ⟨_, hbefore⟩ | ⟨rfl, ⟨_, hgiven⟩, hrunning⟩
    · obtain ⟨first, second, third, rfl, hrest⟩ := ih hbefore
      exact ⟨first, second, third ++ [m], by simp, hrest⟩
    · obtain ⟨first, second, rfl, hgives⟩ :=
        givenUp_run (fun fate' hstart => hfresh _ hstart (.givenUp reason)) hgiven
      exact ⟨first, second, [], by simp, hgives, hrunning⟩

end

end Host

end ServiceHost
