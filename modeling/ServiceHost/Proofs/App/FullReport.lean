import ServiceHost.App.Require
import ServiceHost.Proofs.App.StopFailures

/-!
# What a full report shows

A call that is required to succeed panics with the report of its error. The error of a failed start
callback has the failure for its cause, so that its report goes down to the root. All other errors
have no cause: of the failures that they carry their message shows what `StopFailures.text` shows of
stop callbacks, the outermost message of each, and of a start that is rolled back it shows the
message without the cause. What is shown is a part of the error (`LifecycleError.shown`) on which
the report depends alone, so that the rest is lost; it is all of the error if no failure of a stop
callback has a cause and no start callback failed before a failed rollback
(`reports_show_what_is_shown`).
-/

namespace ServiceHost

/-! ## Parts of a text -/

namespace Text

/-- The text stands somewhere in the other one. -/
def Within (part whole : String) : Prop :=
  part.toList <:+: whole.toList

instance (part whole : String) : Decidable (Within part whole) :=
  inferInstanceAs (Decidable (part.toList <:+: whole.toList))

namespace Within

variable {part whole : String}

theorem refl (whole : String) : Within whole whole :=
  List.infix_refl _

theorem trans {middle : String} (h : Within part middle) (h' : Within middle whole) :
    Within part whole :=
  List.IsInfix.trans h h'

theorem before (h : Within part whole) (more : String) : Within part (whole ++ more) := by
  refine h.trans ?_
  rw [Within, String.toList_append]
  exact (List.prefix_append _ _).isInfix

theorem after (h : Within part whole) (more : String) : Within part (more ++ whole) := by
  refine h.trans ?_
  rw [Within, String.toList_append]
  exact (List.suffix_append _ _).isInfix

/-- Texts that are put together with a separator stand in the whole. -/
theorem intercalate (separator : String) {texts : List String} (h : part ∈ texts) :
    Within part (separator.intercalate texts) := by
  induction texts with
  | nil => cases h
  | cons text rest ih =>
    cases rest with
    | nil =>
      rw [List.mem_singleton.1 h, String.intercalate_singleton]
      exact .refl text
    | cons next rest =>
      rw [String.intercalate_cons_cons]
      rcases List.mem_cons.1 h with rfl | hlater
      · exact ((refl part).before separator).before _
      · exact (ih hlater).after _

end Within

end Text

/-! ## What a message shows of an error -/

/-- The failure with its outermost message alone. -/
def StopFailure.surface (failure : StopFailure) : StopFailure :=
  ⟨failure.caller, .plain failure.error.message⟩

namespace LifecycleError

/-- The failures of callbacks that the error carries, of start callbacks and of stop callbacks. -/
def failures : LifecycleError → List Failure
  | .hookFailed _ _ source => [source]
  | .cancelled _ _ _ failures => failures.map StopFailure.error
  | .stopFailed failures => failures.map StopFailure.error
  | .rollback start undo => start.failures ++ undo.failures
  | .timeout .. => []
  | .invalidTransition .. => []
  | .blankCaller => []

/-- The error with the outermost messages of failed stop callbacks, and with no message of a failed
start callback. -/
def surface : LifecycleError → LifecycleError
  | .hookFailed phase caller _ => .hookFailed phase caller (.plain "")
  | .cancelled phase caller reason failures =>
    .cancelled phase caller reason (failures.map StopFailure.surface)
  | .stopFailed failures => .stopFailed (failures.map StopFailure.surface)
  | .rollback start undo => .rollback start.surface undo.surface
  | .timeout phase caller reason records => .timeout phase caller reason records
  | .invalidTransition state action => .invalidTransition state action
  | .blankCaller => .blankCaller

/-- What the report of the error shows: everything if a start callback failed and nothing else is to
be told, and otherwise the surface. -/
def shown : LifecycleError → LifecycleError
  | .hookFailed phase caller source => .hookFailed phase caller source
  | e => e.surface

end LifecycleError

/-- The text of failures says nothing of their causes. -/
@[simp] theorem StopFailures.text_surface (failures : StopFailures) :
    StopFailures.text (failures.map StopFailure.surface) = failures.text := by
  have hfailure (f : StopFailure) :
      f.surface.caller ++ ": " ++ f.surface.error.message = f.caller ++ ": " ++ f.error.message :=
    rfl
  simp only [StopFailures.text, List.length_map, List.map_map, Function.comp_def, hfailure]

/-- A failure of a stop callback is shown with its outermost message. -/
theorem StopFailures.within_text {failures : StopFailures} {failure : StopFailure}
    (h : failure ∈ failures) :
    Text.Within (failure.caller ++ ": " ++ failure.error.message) failures.text := by
  have hmem : failure.caller ++ ": " ++ failure.error.message ∈
      failures.map fun f => f.caller ++ ": " ++ f.error.message :=
    List.mem_map.2 ⟨failure, h, rfl⟩
  unfold StopFailures.text
  exact (Text.Within.intercalate "; " hmem).after _

namespace LifecycleError

variable {e : LifecycleError}

/-- The message of an error depends on its surface alone. -/
@[simp] theorem message_surface (e : LifecycleError) : e.surface.message = e.message := by
  induction e with
  | rollback start undo hstart hundo =>
    change "start failed: " ++ start.surface.message ++ _ ++ undo.surface.message = _
    rw [hstart, hundo]
    rfl
  | cancelled phase caller reason failures =>
    change _ ++ (if (failures.map _).isEmpty then _ else _ ++ StopFailures.text _) = _
    rw [StopFailures.text_surface, List.isEmpty_map]
    rfl
  | stopFailed failures => exact failures.text_surface
  | hookFailed => rfl
  | timeout => rfl
  | invalidTransition => rfl
  | blankCaller => rfl

/-- The report of an error without causes is its message. -/
theorem report_eq_message (h : e.causes = []) : e.report = e.message := by
  rw [report, toFailure, h, Failure.report, Failure.messages, String.intercalate_singleton]

/-- The report of an error depends on what is shown of it alone. -/
theorem report_shown (e : LifecycleError) : e.shown.report = e.report := by
  have hsurface (hnone : e.causes = []) (hnone' : e.surface.causes = []) :
      e.surface.report = e.report := by
    rw [report_eq_message hnone, report_eq_message hnone', message_surface]
  cases e with
  | hookFailed => rfl
  | _ => exact hsurface rfl rfl

/-- Each failure of a stop callback that the error carries stands in its message. -/
theorem within_message {failure : StopFailure} (h : failure ∈ e.carried) :
    Text.Within (failure.caller ++ ": " ++ failure.error.message) e.message := by
  induction e with
  | rollback start undo hstart hundo =>
    rcases List.mem_append.1 h with hmem | hmem
    · exact (((hstart hmem).after "start failed: ").before "; rollback failed: ").before _
    · exact (hundo hmem).after _
  | cancelled phase caller reason failures =>
    have hsome : failures.isEmpty = false := List.isEmpty_eq_false_iff.2 (List.ne_nil_of_mem h)
    change Text.Within _ (_ ++ if failures.isEmpty then "" else "; " ++ failures.text)
    rw [if_neg (Bool.eq_false_iff.1 hsome)]
    exact ((StopFailures.within_text h).after "; ").after _
  | stopFailed failures => exact StopFailures.within_text h
  | hookFailed => cases h
  | timeout => cases h
  | invalidTransition => cases h
  | blankCaller => cases h

theorem message_within_report (e : LifecycleError) : Text.Within e.message e.report :=
  .intercalate ": " List.mem_cons_self

theorem cause_within_report {text : String} (h : text ∈ e.causes) : Text.Within text e.report :=
  .intercalate ": " (List.mem_cons_of_mem _ h)

/-- A failure of a stop callback that its surface shows whole has no causes. -/
theorem causes_of_surface {failures : StopFailures}
    (h : failures.map StopFailure.surface = failures) {failure : StopFailure}
    (hmem : failure ∈ failures) : failure.error.causes = [] := by
  have hsame : failure.surface = failure :=
    List.map_inj_left.1 (h.trans (List.map_id failures).symm) failure hmem
  exact congrArg (fun f : StopFailure => f.error.causes) hsame.symm

/-- All that an error carries stands in its message, if its surface shows it whole. -/
theorem within_message_of_surface (h : e.surface = e) {failure : Failure}
    (hmem : failure ∈ e.failures) {text : String} (htext : text ∈ failure.messages) :
    Text.Within text e.message := by
  have hstop {e : LifecycleError} (hsame : e.carried.map StopFailure.surface = e.carried)
      (hmem : failure ∈ e.carried.map StopFailure.error) : Text.Within text e.message := by
    obtain ⟨f, hf, rfl⟩ := List.mem_map.1 hmem
    rw [Failure.messages, causes_of_surface hsame hf, List.mem_singleton] at htext
    rw [htext]
    exact ((Text.Within.refl f.error.message).after _).trans (within_message hf)
  induction e with
  | hookFailed phase caller source =>
    -- the surface of a failed start callback has one message, which is empty
    obtain rfl : .plain "" = source := (LifecycleError.hookFailed.inj h).2.2
    rw [List.mem_singleton.1 hmem, Failure.messages, Failure.plain, List.mem_singleton] at htext
    rw [htext]
    exact List.nil_infix
  | cancelled phase caller reason failures =>
    exact hstop (LifecycleError.cancelled.inj h).2.2.2 hmem
  | stopFailed failures => exact hstop (LifecycleError.stopFailed.inj h) hmem
  | rollback start undo hstart hundo =>
    obtain ⟨hsame, hsame'⟩ := LifecycleError.rollback.inj h
    rcases List.mem_append.1 hmem with hmem | hmem
    · exact (((hstart hsame hmem).after "start failed: ").before "; rollback failed: ").before _
    · exact (hundo hsame' hmem).after _
  | timeout => cases hmem
  | invalidTransition => cases hmem
  | blankCaller => cases hmem

/-- All that an error carries stands in its report, if it is shown whole. -/
theorem within_report_of_shown (h : e.shown = e) {failure : Failure} (hmem : failure ∈ e.failures)
    {text : String} (htext : text ∈ failure.messages) : Text.Within text e.report := by
  have hsurface (h : e.surface = e) : Text.Within text e.report :=
    (within_message_of_surface h hmem htext).trans e.message_within_report
  cases e with
  | hookFailed phase caller source =>
    rw [List.mem_singleton.1 hmem] at htext
    exact cause_within_report htext
  | _ => exact hsurface h

end LifecycleError

/-! ## Passes -/

section
variable {κ : Type} {reading : Reading} {l : Lifecycle κ} {e : LifecycleError}

/-- The error of a start pass is shown as it is. -/
theorem Lifecycle.StartStretch.shown {todo : List (RegisteredHook κ)}
    {r : PassStep κ × Lifecycle κ} (h : StartStretch reading todo l r)
    (hfinish : r.1 = .finish (.error e)) : e.shown = e := by
  cases h with
  | done => cases hfinish
  | cancelled =>
    cases hfinish
    rfl
  | call => cases hfinish

/-- The error with which a start pass ends when it begins is shown whole. -/
theorem Lifecycle.beginStart_shown (h : (l.beginStart reading).1 = .finish (.error e)) :
    e.shown = e := by
  by_cases hstate : l.Startable
  · exact (beginStart_stretch reading hstate).shown h
  · rw [beginStart_of_not_startable reading hstate] at h
    cases h
    rfl

/-- So is the error with which it ends after a callback. -/
theorem Lifecycle.resume_starting_shown {hook : RegisteredHook κ} {rest : List (RegisteredHook κ)}
    {begun : Nat} {result : Except Failure Unit}
    (h : (l.resume (.starting hook rest begun) result reading).1 = .finish (.error e)) :
    e.shown = e := by
  cases result with
  | ok => exact (resume_starting_stretch hook rest begun reading l).shown h
  | error source =>
    cases h
    rfl

end

/-- The panic of a call that was required to succeed shows each failure of a stop callback with its
outermost message, and all messages of a failed start callback whose error is returned as it is. It
depends on what is shown of the error alone, and so has nothing of the causes of stop callbacks, nor
of a failed start callback after a failed rollback. It has all messages of all failures if the error
is shown whole, as the error of every start pass is. -/
theorem reports_show_what_is_shown {κ : Type} (required : Requirement) (e : LifecycleError) :
    (∀ failure ∈ e.carried,
      Text.Within (failure.caller ++ ": " ++ failure.error.message) (required.panic e)) ∧
    (∀ phase caller source, e = .hookFailed phase caller source →
      ∀ text ∈ source.messages, Text.Within text (required.panic e)) ∧
    (∀ e' : LifecycleError, e'.shown = e.shown → required.panic e' = required.panic e) ∧
    (e.shown = e → ∀ failure ∈ e.failures, ∀ text ∈ failure.messages,
      Text.Within text (required.panic e)) ∧
    ∀ (l : Lifecycle κ) (reading : Reading),
      ((l.beginStart reading).1 = .finish (.error e) → e.shown = e) ∧
        ∀ hook rest begun result,
          (l.resume (.starting hook rest begun) result reading).1 = .finish (.error e) →
            e.shown = e := by
  refine ⟨?carried, ?started, ?lost, ?whole, fun l reading =>
    ⟨Lifecycle.beginStart_shown, fun _ _ _ _ => Lifecycle.resume_starting_shown⟩⟩
  case carried =>
    intro failure hmem
    exact ((LifecycleError.within_message hmem).trans e.message_within_report).after _
  case started =>
    rintro phase caller source rfl text htext
    exact (LifecycleError.cause_within_report htext).after _
  case lost =>
    intro e' hshown
    rw [Requirement.panic, Requirement.panic, ← e'.report_shown, hshown, e.report_shown]
  case whole =>
    intro hshown failure hmem text htext
    exact (LifecycleError.within_report_of_shown hshown hmem htext).after _

/-- The report of a failed start callback goes down to the code of the system error. -/
theorem openFailed_shown :
    let e : LifecycleError := .hookFailed .start "db" ⟨"open failed", ["disk full", "ENOSPC"]⟩
    e.shown = e ∧ Text.Within "ENOSPC" ((Requirement.app .start).panic e) := by
  intro e
  have hshown : e.shown = e := rfl
  obtain ⟨-, -, -, hwhole, -⟩ := @reports_show_what_is_shown Nat (.app .start) e
  exact ⟨hshown, hwhole hshown _ (List.mem_singleton.2 rfl) "ENOSPC" (by decide)⟩

/-- Two hooks, the second of which fails to start, and the first of which fails to stop. -/
def failsBothWays : Course Nat :=
  .of [.append "db" ⟨some 0, some 1, none⟩, .append "web" ⟨some 2, none, none⟩]

/-- A stop callback fails because of a full disk. -/
def diskFullStop : List (HostMove Nat) :=
  stopWithinTen [.returned 1 (.error ⟨"flush failed", ["ENOSPC"]⟩), .returned 1 (.ok ())]

/-- A start callback fails because its address is taken, and the rollback of the start fails. -/
def addressTakenStart : List (HostMove Nat) :=
  [.call .start none, .launch 0, .enter 0, .returned 0 (.ok ()),
    .returned 0 (.error (.plain "EADDRINUSE")), .launch 0, .enter 0,
    .returned 0 (.error (.plain "disk full"))]

/-- The panic of a stop does not have the cause of the failure, nor that of a start that was rolled
back in vain the failure of the start. -/
theorem diskFullStop_unshown :
    (∃ e, (Host.run ⟨0, ⟨1, []⟩, hangsAndFails, [], fun _ => 100⟩ diskFullStop).calls[1]?.map
          HostCall.state = some (.ended (.error e)) ∧
        (∃ failure ∈ e.failures, "ENOSPC" ∈ failure.messages) ∧
        ¬Text.Within "ENOSPC" ((Requirement.app .stop).panic e)) ∧
      ∃ e, (Host.run ⟨0, ⟨1, []⟩, failsBothWays, [], fun _ => 100⟩ addressTakenStart).calls[0]?.map
          HostCall.state = some (.ended (.error e)) ∧
        (∃ failure ∈ e.failures, "EADDRINUSE" ∈ failure.messages) ∧
        ¬Text.Within "EADDRINUSE" ((Requirement.app .start).panic e) := by
  constructor
  · refine ⟨.stopFailed [⟨"fails", ⟨"flush failed", ["ENOSPC"]⟩⟩], rfl, ?_, by decide +kernel⟩
    exact ⟨_, List.mem_singleton.2 rfl, List.mem_cons_of_mem _ List.mem_cons_self⟩
  · refine ⟨.rollback (.hookFailed .start "web" (.plain "EADDRINUSE"))
      (.stopFailed [⟨"db", .plain "disk full"⟩]), rfl, ?_, by decide +kernel⟩
    exact ⟨_, List.mem_cons_self, List.mem_cons_self⟩

end ServiceHost
