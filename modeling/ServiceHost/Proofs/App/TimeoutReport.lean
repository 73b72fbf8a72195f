import ServiceHost.Proofs.App.StopFailures
import ServiceHost.Proofs.Lifecycle.Remains
import ServiceHost.Rehearsal.Activity

/-!
# What a timeout reports

A call that is given up names the running hook and carries the records of its phase. Both are read
off the lifecycle, where every pass leaves its own, and only when the pass has left the gate. While
a pass waits for a callback, the records of its phase are those of the callbacks that have completed
in this very pass (`Course.Recorded`), and the hook that is named is the one that it waits for
(`Course.Traced`). A call that asked for its pass while no other was at the gate stays the only one
that waits for it, and the pass stays the first (`Host.Sole`), so the call can be given up only in
the middle of a callback of its own pass, whatever passes came before and were given up. What it
reports is of this pass as long as no other pass begins before it has read it (`Course.Alike`); one
that stood behind it in the line can, and is then reported in its place, as is a pass behind which
the rollback of a failed start has to wait (`stopBehind_reported`). If the pass comes to its end,
its own result counts, even if the context is done by then: a poll looks at the pass before it looks
at the context (`Rehearsal.proceed_hand_calling`).
-/

namespace ServiceHost

variable {κ : Type}

/-! ## The results of a call -/

theorem AppCall.conclude_not_dropped (call : AppCall) (result : Except LifecycleError Unit) :
    call.conclude result ≠ .dropped := by
  unfold conclude
  split <;> nofun

/-- A call tells the results of its passes apart. -/
theorem AppCall.conclude_inj {call : AppCall} {result result' : Except LifecycleError Unit}
    (h : call.conclude result = call.conclude result') : result = result' := by
  unfold conclude at h
  cases hstage : call.stage with
  | stopping =>
    simp only [hstage, CallStage.after] at h
    cases h
    rfl
  | rollingBack start =>
    -- no error is a rollback of itself
    have hself (undo : LifecycleError) : start ≠ .rollback start undo := fun hsame => by
      have hsize := congrArg sizeOf hsame
      simp at hsize
      omega
    simp only [hstage] at h
    rcases result with undo | ⟨⟩ <;> rcases result' with undo' | ⟨⟩ <;>
      simp only [CallStage.after, CallState.ended.injEq, Except.error.injEq] at h
    · cases h
      rfl
    · exact absurd h.symm (hself undo)
    · exact absurd h (hself undo')
    · rfl
  | starting =>
    simp only [hstage] at h
    rcases result with e | ⟨⟩ <;> rcases result' with e' | ⟨⟩
    · cases e <;> cases e' <;> simp_all [CallStage.after]
    · cases e <;> cases h
    · cases e' <;> cases h
    · rfl

/-! ## The only call that waits for a pass -/

namespace Coordinator

variable {c : Coordinator κ} {m : Move κ} {id : PassId} {phase : Phase}
  {others : List (PassId × Phase)}

/-- The first pass stays the first by a move that is not its own. -/
theorem first_apply (hc : c.Counted) (hline : c.line = (id, phase) :: others)
    (hm : m.pass? ≠ some id) : ∃ others', (c.apply m).line = (id, phase) :: others' := by
  have hchange := c.lineChange hc m
  generalize c.apply m = c' at hchange
  cases hchange with
  | still => exact ⟨others, hline⟩
  | asked asked => exact ⟨others ++ [(c.asked, asked)], congrArg (· ++ _) hline⟩
  | settled hpass hfirst =>
    cases hline.symm.trans hfirst
    exact absurd hpass hm
  | left left =>
    have hne : id ≠ left := fun hid => hm (congrArg some hid.symm)
    refine ⟨others.filter (·.1 != left), ?_⟩
    show c.line.filter _ = _
    rw [hline, List.filter_cons_of_pos (by simpa using hne)]

end Coordinator

namespace Host

/-- That call is the only one that may wait for the pass, and while it does, at that stage, the pass
stands first in the line. -/
structure Sole (host : Host κ) (n : Nat) (stage : CallStage) (pass : PassId) : Prop where
  known : pass < host.coordinator.asked
  first : ∀ i call fate, host.calls[i]? = some ⟨.waiting call, fate⟩ → call.pass = pass →
    i = n ∧ call.stage = stage ∧ ∃ others, host.coordinator.line = (pass, stage.phase) :: others

section
variable {host host' : Host κ} {n i : Nat} {stage : CallStage} {pass : PassId} {call : AppCall}
  {fate : Fate} {new : HostCall} {m : Move κ}

/-- A move of a pass that a call waits for. -/
theorem Sole.move (h : host.Sole n stage pass) (hc : host.coordinator.Counted)
    (hcall : host.calls[i]? = some ⟨.waiting call, fate⟩) (hm : m.pass? = some call.pass)
    (hcourse : host'.course = host.course.next m) (hcalls : host'.calls = host.calls.set i new)
    (hnew : ∀ call', new.state = .waiting call' →
      call' = call ∧ (host.coordinator.apply m).line = host.coordinator.line) :
    host'.Sole n stage pass := by
  have happly : host'.coordinator = host.coordinator.apply m := by
    rw [coordinator, hcourse]
    rfl
  refine ⟨?_, fun j other fate' hother hpass => ?_⟩
  · rw [happly]
    exact Nat.lt_of_lt_of_le h.known (Coordinator.asked_le_apply hc m)
  rw [hcalls] at hother
  rcases getElem?_set_cases hother with ⟨rfl, hsame⟩ | ⟨hj, hbefore⟩
  · obtain ⟨rfl, hline⟩ := hnew other (congrArg HostCall.state hsame.symm)
    rw [happly, hline]
    exact h.first j other fate hcall hpass
  · obtain ⟨rfl, hstage, others, hline⟩ := h.first j other fate' hbefore hpass
    have hown : m.pass? ≠ some pass := fun hsame =>
      hj (h.first i call fate hcall (Option.some.inj (hm.symm.trans hsame))).1.symm
    rw [happly]
    exact ⟨rfl, hstage, Coordinator.first_apply hc hline hown⟩

/-- A call that goes on with its pass waits for the same, and the line has not changed. -/
theorem line_of_onward (c : Coordinator κ) {r : PassStep κ × Lifecycle κ} {call' : AppCall}
    (h : call.onward r.1 = .waiting call') : call' = call ∧ (c.settle r).2.line = c.line := by
  obtain ⟨step, l⟩ := r
  cases step with
  | call =>
    cases h
    exact ⟨rfl, rfl⟩
  | finish result => exact absurd h (call.conclude_not_waiting result call')
  | outOfRange => cases h

/-- Every move keeps it so. -/
theorem Sole.step (h : host.Sole n stage pass) (hpossible : host.course.Possible)
    (m : HostMove κ) : (host.step m).Sole n stage pass := by
  have hc : host.coordinator.Counted := hpossible.counted
  -- a call changes that does not wait afterwards, and nothing happens at the lifecycle
  have hstill {j : Nat} {new : HostCall} (hnew : ∀ call, new.state ≠ .waiting call) :
      Sole { host with calls := host.calls.set j new } n stage pass := by
    refine ⟨h.known, fun i call fate hcall hpass => ?_⟩
    rcases getElem?_set_cases hcall with ⟨-, rfl⟩ | ⟨-, hbefore⟩
    · exact absurd rfl (hnew call)
    · exact h.first i call fate hbefore hpass
  have hchange := host.change m
  generalize host.step m = host' at hchange
  cases hchange with
  | still => exact h
  | outside => exact ⟨h.known, h.first⟩
  | appended callSite hook =>
    refine ⟨Nat.lt_of_lt_of_le h.known
      (Coordinator.asked_le_apply hc (.append callSite hook)), fun i call fate hcall hpass => ?_⟩
    obtain ⟨hi, hstage, others, hline⟩ := h.first i call fate hcall hpass
    exact ⟨hi, hstage, Coordinator.first_apply (m := .append callSite hook) hc hline nofun⟩
  | called =>
    refine ⟨h.known, fun i call fate hcall hpass => ?_⟩
    rcases getElem?_concat_cases hcall with hnew | hbefore
    · cases hnew
    · exact h.first i call fate hbefore hpass
  | @launched j stage' context fate hlaunching =>
    refine ⟨Nat.lt_of_lt_of_le h.known (Coordinator.asked_le_apply hc (.ask stage'.phase)),
      fun i call fate' hcall hpass => ?_⟩
    rcases getElem?_set_cases hcall with ⟨-, hnew⟩ | ⟨-, hbefore⟩
    · -- the pass that is asked for now is a new one
      cases hnew
      exact absurd h.known (hpass ▸ Nat.lt_irrefl _)
    · obtain ⟨hi, hstage, others, hline⟩ := h.first i call fate' hbefore hpass
      exact ⟨hi, hstage, Coordinator.first_apply (m := .ask stage'.phase) hc hline nofun⟩
  | @entered j call fate phase hcall hturn =>
    refine h.move (m := .enter call.pass _) hc hcall rfl rfl rfl fun call' hwaiting => ?_
    rw [Coordinator.apply_enter _ hturn]
    exact line_of_onward _ hwaiting
  | @resumed j call fate progress result hcall hprogress =>
    refine h.move (m := .returned call.pass result _) hc hcall rfl rfl rfl fun call' hwaiting => ?_
    rw [Coordinator.apply_returned result _ hprogress]
    exact line_of_onward _ hwaiting
  | @gaveUp j call fate reason hcall =>
    exact h.move (m := .leave call.pass) hc hcall rfl rfl rfl nofun
  | runningRead => exact hstill nofun
  | recordsRead => exact hstill fun call' => AppCall.conclude_not_waiting _ _ call'
  | @dropped j call fate hcall =>
    exact h.move (m := .leave call.pass) hc hcall rfl rfl rfl nofun
  | dismissed => exact hstill nofun

/-- The pass of the call is at its turn, or waits for a callback of the phase of the call. -/
theorem Sole.progress (h : host.Sole n stage pass) (hl : host.coordinator.Lined)
    (hcall : host.calls[n]? = some ⟨.waiting call, fate⟩) (hpass : call.pass = pass)
    (hturn : host.coordinator.turn? pass = none) :
    ∃ progress, host.coordinator.progress? pass = some progress ∧ progress.phase = stage.phase := by
  obtain ⟨-, -, others, hline⟩ := h.first n call fate hcall hpass
  cases hcurrent : host.coordinator.current with
  | none =>
    cases hturn.symm.trans (Coordinator.turn?_eq_some.2 ⟨⟨others, hline⟩, hcurrent⟩)
  | some progress =>
    obtain ⟨_, _, hfirst⟩ := hl.first progress hcurrent
    have hsame := (List.cons.inj (hline.symm.trans hfirst)).1
    exact ⟨progress, Coordinator.progress?_eq_some.2 ⟨⟨_, others, hline⟩, hcurrent⟩,
      (congrArg Prod.snd hsame).symm⟩

/-- A call that goes on is not told of a timeout. -/
theorem onward_ne_timeout {step : PassStep κ} {phase : Phase} {caller : Option String}
    {reason : ContextError} {records : HookRecords}
    (hstep : step ≠ .finish (.error (.timeout phase caller reason records))) :
    call.onward step ≠ call.conclude (.error (.timeout phase caller reason records)) := by
  cases step with
  | call => exact fun h => call.conclude_not_waiting _ _ h.symm
  | finish result => exact fun h => hstep (by rw [AppCall.conclude_inj h])
  | outOfRange => exact fun h => call.conclude_not_dropped _ h.symm

/-- A call that is given up waits for a callback of its own pass, the records are those of this
pass, and what it reports is what stands at the lifecycle. -/
theorem Sole.given_up (h : host.Sole n stage pass) (hpossible : host.course.Possible)
    {reason : ContextError} (hgives : host.GivesUp n call reason) (hpass : call.pass = pass) :
    call.stage = stage ∧
    (∃ hook earlier, host.course.seen = earlier ++ [.began pass stage.phase hook] ∧
        host.coordinator.lifecycle.running = some hook.caller ∧
        (host.coordinator.lifecycle.records stage.phase).map HookRecord.caller =
          (completedOf pass host.course.seen).map RegisteredHook.caller) ∧
      (host.step (.giveUp n reason)).course.seen = host.course.seen ∧
      host.course.Alike (host.step (.giveUp n reason)).course := by
  obtain ⟨⟨fate, hcall⟩, hdone, hturn⟩ := hgives
  obtain ⟨-, hstage, -⟩ := h.first n call fate hcall hpass
  subst hpass
  obtain ⟨progress, hprogress, hphase⟩ := h.progress hpossible.lined hcall rfl hturn
  have hstep : (host.step (.giveUp n reason)).course = host.course.next (.leave call.pass) := by
    show (host.giveUp n reason).course = _
    simp only [giveUp, hcall, if_pos (And.intro hdone hturn)]
  obtain ⟨earlier, hseen⟩ := hpossible.traced.begun call.pass progress hprogress
  have hrunning := hpossible.traced.running
  rw [hpossible.traced.hanging hprogress, Option.map_some] at hrunning
  have hrecords := hpossible.recorded call.pass progress hprogress
  rw [hphase] at hseen hrecords
  rw [hstep]
  exact ⟨hstage, ⟨progress.hook, earlier, hseen, hrunning, hrecords⟩, List.append_nil _,
    .of_leave hprogress⟩

/-- What becomes of a call by which a timeout is reported: it was given up before, and reads the
records now. -/
theorem Fares.reports {m : HostMove κ} {old new : HostCall} (hfares : Fares host n m old new)
    (hopen : old.state.call? = some call) {phase : Phase} {caller : Option String}
    {reason : ContextError} {records : HookRecords}
    (hnew : new.state = call.conclude (.error (.timeout phase caller reason records))) :
    m = .readRecords n ∧ old.state = .reporting call reason caller ∧ phase = call.stage.phase ∧
      records = host.coordinator.lifecycle.records phase := by
  have hnone : new.state.call? = none := hnew ▸ call.call?_conclude _
  cases hfares with
  | same => cases hopen.symm.trans hnone
  | launched => cases hopen
  | dismissed => cases hopen
  | gaveUp => cases hnone
  | runningRead => cases hnone
  | dropped => exact absurd hnew.symm (call.conclude_not_dropped _)
  | entered =>
    cases hopen
    exact absurd hnew (onward_ne_timeout (Lifecycle.begin_ne_timeout _ _ _))
  | resumed =>
    cases hopen
    exact absurd hnew (onward_ne_timeout (Lifecycle.resume_ne_timeout _ _ _ _))
  | recordsRead =>
    cases hopen
    cases AppCall.conclude_inj hnew
    exact ⟨rfl, rfl, rfl, rfl⟩

/-- A call whose pass comes to its end goes on with the result of the pass, whatever there is to say
of its context. -/
theorem Sole.concluded (h : host.Sole n stage pass) {state : CallState}
    (hcall : host.calls[n]? = some ⟨state, fate⟩) (hopen : state.call? = some call)
    {m : HostMove κ} {result : Except LifecycleError Unit}
    (hnew : .finished pass result ∈ (host.step m).course.seen)
    (hbefore : .finished pass result ∉ host.course.seen) :
    ∃ fate', (host.step m).calls[n]? = some ⟨call.conclude result, fate'⟩ := by
  have hlt := (List.getElem?_eq_some_iff.1 hcall).1
  -- the move is one of the pass, and so of the call
  have hown {j : Nat} {other : AppCall} {fate' : Fate} {move : Move κ}
      (hother : host.calls[j]? = some ⟨.waiting other, fate'⟩)
      (hm : move.pass? = some other.pass)
      (hnew : .finished pass result ∈ (host.course.next move).seen) :
      j = n ∧ other = call ∧ .finished pass result ∈ host.coordinator.events move := by
    have hevent := (List.mem_append.1 hnew).resolve_left hbefore
    have hsame := hm.symm.trans (Coordinator.pass?_of_mem_events _ hevent)
    obtain ⟨rfl, -⟩ := h.first j other fate' hother (Option.some.inj hsame)
    cases hcall.symm.trans hother
    cases hopen
    exact ⟨rfl, rfl, hevent⟩
  have hchange := host.change m
  generalize host.step m = host' at hchange hnew
  cases hchange with
  | still => exact absurd hnew hbefore
  | outside => exact absurd hnew hbefore
  | called => exact absurd hnew hbefore
  | runningRead => exact absurd hnew hbefore
  | recordsRead => exact absurd hnew hbefore
  | dismissed => exact absurd hnew hbefore
  | appended => exact absurd ((List.mem_append.1 hnew).resolve_right nofun) hbefore
  | launched => exact absurd ((List.mem_append.1 hnew).resolve_right nofun) hbefore
  | gaveUp => exact absurd ((List.mem_append.1 hnew).resolve_right nofun) hbefore
  | dropped => exact absurd ((List.mem_append.1 hnew).resolve_right nofun) hbefore
  | entered hother hturn =>
    obtain ⟨rfl, rfl, hevent⟩ := hown hother rfl hnew
    rw [Coordinator.events_enter _ hturn] at hevent
    have hstep := (List.mem_append.1 hevent).resolve_left fun hopened => by
      split at hopened <;> simp at hopened
    have hfinish := PassStep.finish_of_mem_events hstep
    rw [hfinish]
    exact ⟨_, List.getElem?_set_self hlt⟩
  | resumed hother hprogress =>
    obtain ⟨rfl, rfl, hevent⟩ := hown hother rfl hnew
    rw [Coordinator.events_returned _ _ hprogress] at hevent
    have hstep := (List.mem_cons.1 hevent).resolve_left nofun
    have hfinish := PassStep.finish_of_mem_events hstep
    rw [hfinish]
    exact ⟨_, List.getElem?_set_self hlt⟩

end

/-- The host has come about by moves at a lifecycle with any history. -/
def Reached (host : Host κ) : Prop :=
  ∃ (base : Course κ) (now : Nat) (scopes : Scopes) (allowed : Phase → Nat)
    (moves : List (HostMove κ)), base.Possible ∧
      host = Host.run ⟨now, scopes, base, [], allowed⟩ moves

section
variable {host : Host κ}

theorem Reached.linked (h : host.Reached) : host.Linked := by
  obtain ⟨base, now, scopes, allowed, moves, hbase, rfl⟩ := h
  exact run_induction ⟨hbase, nofun⟩ fun _ m _ h => h.step m

/-- A call that steps up to the gate does not report. -/
theorem not_reports_launch {n : Nat} {stage : CallStage} {context : Option Context} {fate : Fate}
    {new : HostCall} {call : AppCall}
    (hlaunching : host.calls[n]? = some ⟨.launching stage context, fate⟩)
    (hnew : (host.step (.launch n)).calls[n]? = some new) : ¬ new.state.Reports call := by
  obtain ⟨new', hnew', hfares⟩ := fares_of hlaunching (.launch n)
  cases hnew.symm.trans hnew'
  cases hfares <;> nofun

/-- A call that steps up to the gate while no pass stands there is the only one that waits for its
pass, and stays so. -/
theorem Reached.sole (h : host.Reached) {n : Nat} {stage : CallStage} {context : Option Context}
    {fate : Fate} (hlaunching : host.calls[n]? = some ⟨.launching stage context, fate⟩)
    (hfree : host.coordinator.line = []) (moves : List (HostMove κ)) :
    ((host.step (.launch n)).run moves).Linked ∧
      ((host.step (.launch n)).run moves).Sole n stage host.coordinator.asked := by
  have hlinked := h.linked
  have hlaunch : host.step (.launch n) = { host with
      scopes := (host.contextFor stage context).2
      course := host.course.next (.ask stage.phase)
      calls := host.calls.set n ⟨.waiting ⟨stage, host.coordinator.asked,
        (host.contextFor stage context).1⟩, fate⟩ } := by
    show host.launch n = _
    simp only [Host.launch, hlaunching]
    rfl
  have hsole : (host.step (.launch n)).Sole n stage host.coordinator.asked := by
    rw [hlaunch]
    refine ⟨Nat.lt_succ_self _, fun i call fate' hcall hpass => ?_⟩
    rcases getElem?_set_cases hcall with ⟨rfl, hnew⟩ | ⟨-, hbefore⟩
    · cases hnew
      refine ⟨rfl, rfl, [], ?_⟩
      show host.coordinator.line ++ _ = _
      rw [hfree]
      rfl
    · -- the passes of the other calls are known
      have hknown := (hlinked.calls _ (List.mem_of_getElem? hbefore)).known call rfl
      exact absurd hknown (hpass ▸ Nat.lt_irrefl _)
  exact run_induction (P := fun host' => host'.Linked ∧ host'.Sole n stage host.coordinator.asked)
    ⟨hlinked.step _, hsole⟩ fun _ m _ h => ⟨h.1.step m, h.2.step h.1.possible m⟩

end

end Host

/-- Moves at a host of which nothing is seen leave behind what they found. -/
theorem Course.Alike.host_run {course : Course κ} {host : Host κ} (h : course.Alike host.course)
    (hpossible : host.course.Possible) {moves : List (HostMove κ)}
    (hunseen : (host.run moves).course.seen = host.course.seen) :
    course.Alike (host.run moves).course := by
  obtain ⟨moves', hcourse⟩ := host.course_run moves
  rw [hcourse] at hunseen ⊢
  exact h.run hpossible hunseen

/-! ## The order in a poll -/

namespace Rehearsal

/-- A frame goes on, with what the frame inside it has handed to it, if it has. -/
def Frame.go (w : World) (frame : Frame) : Option Delivery → Rehearsal.Turn × World
  | none => frame.turn w
  | some delivery => frame.receive w delivery

/-- When a pass is over in a poll, the call around it goes on with the result of the pass, and does
not look at its context. -/
theorem proceed_hand_calling (hadAllowance : Bool) (fuel : Nat) {w w' : World}
    {delivery : Option Delivery} {frame : Frame} {result : Except LifecycleError Unit}
    (hover : frame.go w delivery = (.hand (.pass result), w')) (app : App) (call : AppCall)
    (since : Option Nat) (outside : List Frame) :
    proceed hadAllowance (fuel + 2) w delivery (frame :: .calling app call since :: outside) =
      match call.stage.after result with
      | .finish result => proceed hadAllowance fuel w' (some (.pass result)) outside
      | .rollBack start =>
        proceed hadAllowance fuel w' none
          (.launch (.timedCall app (.rollingBack start)) :: outside) := by
  have hfirst : proceed hadAllowance (fuel + 2) w delivery
      (frame :: .calling app call since :: outside) =
        proceed hadAllowance (fuel + 1) w' (some (.pass result))
          (.calling app call since :: outside) := by
    rw [proceed.eq_def]
    cases delivery with
    | none => simp only [show frame.turn w = _ from hover]
    | some delivery => simp only [show frame.receive w delivery = _ from hover]
  rw [hfirst, proceed.eq_def]
  simp only [Frame.receive]
  cases call.stage.after result with
  | finish => rfl
  | rollBack => rfl

end Rehearsal

/-! ## What is reported -/

/-- What is reported of a pass that was given up at one host, when the running hook is read at
another and the records at the last. -/
structure Host.Tells (given read last : Host κ) (pass : PassId) (phase : Phase)
    (caller : Option String) (records : HookRecords) : Prop where
  caller_eq : caller = read.coordinator.lifecycle.running
  records_eq : records = last.coordinator.lifecycle.records phase
  /-- A callback of the pass was executing, and its hook is named unless another pass has begun. -/
  executing : ∃ hook earlier, given.course.seen = earlier ++ [.began pass phase hook] ∧
    (read.course.seen = given.course.seen → caller = some hook.caller)
  /-- The records are of the callbacks that have completed, unless another pass has begun. -/
  completed : last.course.seen = given.course.seen →
    records.map HookRecord.caller = (completedOf pass given.course.seen).map RegisteredHook.caller

/-- A call of an application steps up to the gate while no pass stands there, after any history: the
passes before it may have been given up, and hooks may be appended and more calls may come while it
goes on. The rollback of a start that failed is such a call as well, if no pass stands there. If at
any later move a timeout of the pass it asked for is reported, the call was given up by an earlier
one, read the running hook by another and reads the records by this one. When it was given up, a
callback of this pass was the last thing that was seen to begin. Unless something more was seen
before it has read what it reports, so that another pass has begun, the hook of this callback is
named, and the records are those of the callbacks that have completed in this pass, in order. If the
pass comes to its end by the move, its result is what the call goes on with, whether its context is
done or not; and in a poll the pass is looked at first. -/
theorem timeout_reports_own_pass {host : Host κ} (hhost : host.Reached) {n : Nat}
    {stage : CallStage} {context : Option Context} {fate : Fate}
    (hlaunching : host.calls[n]? = some ⟨.launching stage context, fate⟩)
    (hfree : host.coordinator.line = []) (moves : List (HostMove κ)) {state : CallState}
    {call : AppCall} {fate' : Fate}
    (hcall : ((host.step (.launch n)).run moves).calls[n]? = some ⟨state, fate'⟩)
    (hopen : state.call? = some call) (hpass : call.pass = host.coordinator.asked)
    (m : HostMove κ) :
    let start := host.step (.launch n)
    let before := start.run moves
    let after := before.step m
    (∀ phase caller reason records fate'', after.calls[n]? = some
        ⟨call.conclude (.error (.timeout phase caller reason records)), fate''⟩ →
      m = .readRecords n ∧ phase = stage.phase ∧ ∃ first second third,
        moves = first ++ .giveUp n reason :: (second ++ .readRunning n :: third) ∧
          Host.Tells (start.run first) (start.run (first ++ .giveUp n reason :: second)) before
            call.pass phase caller records) ∧
      (∀ result, .finished call.pass result ∈ after.course.seen →
        .finished call.pass result ∉ before.course.seen →
          ∃ fate'', after.calls[n]? = some ⟨call.conclude result, fate''⟩) ∧
      ∀ (hadAllowance : Bool) (fuel : Nat) (w w' : Rehearsal.World)
        (delivery : Option Rehearsal.Delivery) (frame : Rehearsal.Frame)
        (result : Except LifecycleError Unit) (app : Rehearsal.App) (since : Option Nat)
        (outside : List Rehearsal.Frame),
        frame.go w delivery = (.hand (.pass result), w') →
          Rehearsal.proceed hadAllowance (fuel + 2) w delivery
              (frame :: .calling app call since :: outside) =
            match call.stage.after result with
            | .finish result =>
              Rehearsal.proceed hadAllowance fuel w' (some (.pass result)) outside
            | .rollBack start =>
              Rehearsal.proceed hadAllowance fuel w' none
                (.launch (.timedCall app (.rollingBack start)) :: outside) := by
  intro start before after
  refine ⟨fun phase caller reason records fate'' hreport => ?_, fun result hnew hbefore => ?_, ?_⟩
  · obtain ⟨new, hnew, hfares⟩ := Host.fares_of hcall m
    cases hreport.symm.trans hnew
    obtain ⟨rfl, rfl, rfl, hrecords⟩ := hfares.reports hopen rfl
    -- the call waits when it has stepped up to the gate, so it was given up later
    obtain ⟨first, second, third, rfl, hgives, hrunning⟩ :=
      Host.reporting_run (fun _ => Host.not_reports_launch hlaunching) hcall
    obtain ⟨hlinked, hsole⟩ := hhost.sole hlaunching hfree first
    rw [← hpass] at hsole
    obtain ⟨rfl, ⟨hook, earlier, hseen, hhook, hcompleted⟩, hunseen, halike⟩ :=
      hsole.given_up hlinked.possible hgives rfl
    have hpossible := (hlinked.step (.giveUp n reason)).possible
    have hleft {more : List (HostMove κ)}
        (hsame : (start.run (first ++ .giveUp n reason :: more)).course.seen =
          (start.run first).course.seen) :
        (start.run first).course.Alike (start.run (first ++ .giveUp n reason :: more)).course := by
      have hsplit : start.run (first ++ .giveUp n reason :: more) =
        ((start.run first).step (.giveUp n reason)).run more := List.foldl_append
      rw [hsplit] at hsame ⊢
      exact halike.host_run hpossible (hsame.trans hunseen.symm)
    refine ⟨rfl, rfl, first, second, third, rfl, hrunning, hrecords,
      ⟨hook, earlier, hseen, fun hsame => ?_⟩, fun hsame => ?_⟩
    · exact hrunning.trans ((hleft hsame).running.trans hhook)
    · have hrecorded := hrecords.trans ((hleft hsame).records _)
      rw [hrecorded]
      exact hcompleted
  · exact (hhost.sole hlaunching hfree moves).2.concluded hcall hopen (hpass ▸ hnew)
      (hpass ▸ hbefore)
  · intro hadAllowance fuel w w' delivery frame result app since outside hover
    exact Rehearsal.proceed_hand_calling hadAllowance fuel hover app call since outside

/-- Three hooks, of which the last one will hang when it starts. -/
def serverLast : List (Move Nat) :=
  [.append "store" ⟨some 0, some 1, none⟩, .append "cache" ⟨some 2, some 3, none⟩,
    .append "server" ⟨some 4, none, none⟩]

/-- A start pass was given up while its third callback hung, and left its name and two records
behind. -/
def givenUpStart : Course Nat :=
  .of (serverLast ++ [.ask .start, .enter 0 ⟨0, none⟩, .returned 0 (.ok ()) ⟨1, none⟩,
    .returned 0 (.ok ()) ⟨2, none⟩, .leave 0])

/-- A call is about to stop it within ten milliseconds. -/
def stopAfterGivenUp : Host Nat :=
  Host.run ⟨0, ⟨1, []⟩, givenUpStart, [], fun _ => 100⟩ [.call .stop (some ⟨[0], some 10⟩)]

/-- The stop callback of the cache has failed, and that of the store hangs when the time is over.
The call has read the running hook. -/
def storeHangs : List (HostMove Nat) :=
  [.enter 0, .returned 0 (.error (.plain "flush failed")), .tick 10, .giveUp 0 .deadlineExceeded,
    .readRunning 0]

/-- The timeout of the stop tells of the store and the cache, and not of the server, which hung in
the start before. -/
theorem storeHangs_reported :
    givenUpStart.coordinator.lifecycle.running = some "server" ∧
      ∃ records : HookRecords,
        let start := stopAfterGivenUp.step (.launch 0)
        ((start.run storeHangs).step (.readRecords 0)).calls[0]? =
            some ⟨.ended (.error (.timeout .stop (some "store") .deadlineExceeded records)),
              .unsettled⟩ ∧
          records.map HookRecord.caller = ["cache"] ∧
          ∃ first second third,
            storeHangs =
              first ++ .giveUp 0 .deadlineExceeded :: (second ++ .readRunning 0 :: third) ∧
              Host.Tells (start.run first)
                (start.run (first ++ .giveUp 0 .deadlineExceeded :: second)) (start.run storeHangs)
                1 .stop (some "store") records := by
  have hhost : stopAfterGivenUp.Reached := ⟨givenUpStart, 0, ⟨1, []⟩, _, _, ⟨_, rfl⟩, rfl⟩
  obtain ⟨-, -, htells⟩ :=
    (timeout_reports_own_pass hhost (n := 0) rfl rfl storeHangs rfl rfl rfl
      (.readRecords 0)).1 .stop (some "store") .deadlineExceeded _ _ rfl
  exact ⟨rfl, _, rfl, rfl, htells⟩

/-- A start under ten milliseconds, made when nothing else goes on, hangs in its third callback. A
call to stop waits behind it when the time is over. -/
def stopBehind : Host Nat :=
  Host.run ⟨0, ⟨1, []⟩, .of serverLast, [], fun _ => 100⟩
    [.call .start (some ⟨[0], some 10⟩), .launch 0, .enter 0, .returned 0 (.ok ()),
      .returned 0 (.ok ()), .call .stop none, .launch 1, .tick 10, .giveUp 0 .deadlineExceeded]

/-- If the stop begins before the call has read what it reports, the start is reported to have hung
in the stop of the cache. If it has, and the stop begins before the rollback is asked for, and hangs
in its second callback, then the rollback is given up while it waits behind the stop, and is
reported to hang in the callback of that and to have stopped what the other has stopped, though
nothing was ever seen of the pass of the rollback. -/
theorem stopBehind_reported :
    stopBehind.course.seen.getLast? = some (.began 0 .start ⟨some 4, none, "server"⟩) ∧
      (∃ records fate, (stopBehind.run [.enter 1, .readRunning 0, .readRecords 0]).calls[0]? =
        some ⟨.launching (.rollingBack (.timeout .start (some "cache") .deadlineExceeded records))
          none, fate⟩) ∧
      ∃ start records fate,
        let host := stopBehind.run [.readRunning 0, .readRecords 0, .enter 1, .returned 1 (.ok ()),
          .launch 0, .tick 100, .giveUp 0 .deadlineExceeded, .readRunning 0, .readRecords 0]
        host.calls[0]? = some ⟨.ended (.error (.rollback start
            (.timeout .stop (some "store") .deadlineExceeded records))), fate⟩ ∧
          records.map HookRecord.caller = ["cache"] ∧
          2 ∉ host.course.seen.map Event.pass := by
  refine ⟨rfl, ⟨_, _, rfl⟩, _, _, _, rfl, rfl, ?_⟩
  decide

end ServiceHost
