import ServiceHost.Proofs.App.Contention

/-!
# The start that wins

As long as no call was overtaken, at most one call at a time has a start to undo, and only while no
other start can be let through or has succeeded (`Host.Undisputed`). So a start that returned
without an error finds the application started, with every hook of its own counted, whatever became
of the other starts. A call that was overtaken breaks this: it undoes a start that was not its own,
and its stop pass comes after the winner in the line. That is the only way in which an application
that was started stops being so (`winner_stands_unless_overtaken`), and it does happen
(`overtakenStart_stops_winner`).
-/

namespace ServiceHost

variable {κ : Type}

/-- No start pass can be let through, none is on its way, and none has succeeded. -/
def Coordinator.Closed (c : Coordinator κ) : Prop :=
  ¬ c.Free ∧ c.lifecycle.state ≠ .started

/-- A start that has won is not on its way any more. -/
theorem Coordinator.not_free_of_started {c : Coordinator κ} (h : c.lifecycle.state = .started) :
    ¬ c.Free := by
  rintro ((hstate | hstate) | ⟨hstate, _⟩) <;> cases h.symm.trans hstate

/-- It stays so while the state does and no pass begins to wait. -/
theorem Coordinator.Closed.mono {c c' : Coordinator κ} (h : c.Closed)
    (hstate : c'.lifecycle.state = c.lifecycle.state)
    (hcurrent : c'.current = none ∨ c'.current = c.current) : c'.Closed := by
  refine ⟨?_, hstate ▸ h.2⟩
  rintro (hstartable | ⟨hstarting, progress, hprogress, hphase⟩)
  · refine h.1 (.inl ?_)
    rwa [Lifecycle.Startable, ← hstate]
  · rcases hcurrent with hnone | hsame
    · cases hnone.symm.trans hprogress
    · exact h.1 (.inr ⟨hstate.symm.trans hstarting, progress, hsame.symm.trans hprogress, hphase⟩)

/-- A start failed, or is being undone. -/
theorem Coordinator.Closed.of_state {c : Coordinator κ}
    (h : c.lifecycle.state = .startFailed ∨ c.lifecycle.state = .stopping) : c.Closed := by
  constructor
  · rintro ((hstate | hstate) | ⟨hstate, _⟩)
    · rcases h with h | h <;> cases hstate.symm.trans h
    · rcases h with h | h <;> cases hstate.symm.trans h
    · rcases h with h | h <;> cases hstate.symm.trans h
  · intro hstate
    rcases h with h | h <;> cases hstate.symm.trans h

/-- The start pass was given up in the middle of a callback. -/
theorem Coordinator.Closed.of_starting {c : Coordinator κ} (hstate : c.lifecycle.state = .starting)
    (hcurrent : c.current = none) : c.Closed := by
  refine ⟨?_, hstate ▸ nofun⟩
  rintro ((hother | hother) | ⟨_, progress, hprogress, _⟩)
  · cases hstate.symm.trans hother
  · cases hstate.symm.trans hother
  · cases hcurrent.symm.trans hprogress

namespace Host

/-- Some call gave up its start pass while it stood in the line. -/
def Overtaken (host : Host κ) : Prop :=
  ∃ hostCall ∈ host.calls, hostCall.fate = .overtaken

instance (host : Host κ) : Decidable host.Overtaken :=
  inferInstanceAs (Decidable (∃ hostCall ∈ host.calls, hostCall.fate = .overtaken))

/-- At most one call has a start to undo, and only while no start pass can win. A call that has
started the application has left it so. -/
structure Undisputed (host : Host κ) : Prop where
  alone : ∀ {i j : Nat} {a b : HostCall}, host.calls[i]? = some a → host.calls[j]? = some b →
    a.state.Undoes → b.state.Undoes → i = j
  closed : ∀ {i : Nat} {a : HostCall}, host.calls[i]? = some a → a.state.Undoes →
    host.coordinator.Closed
  won : ∀ {i : Nat} {a : HostCall}, host.calls[i]? = some a → a.state = .ended (.ok ()) →
    host.coordinator.lifecycle.state = .started

section
variable {host host' : Host κ} {n : Nat} {old new : HostCall}

/-- A host without calls. -/
theorem Undisputed.of_none (hcalls : host.calls = []) : host.Undisputed := by
  have hnone {i : Nat} {a : HostCall} : host.calls[i]? ≠ some a := by
    rw [hcalls]
    nofun
  exact ⟨fun ha => absurd ha hnone, fun ha => absurd ha hnone, fun ha => absurd ha hnone⟩

/-- The lifecycle stays in its state, and no call gets a start to undo or has won that had not. -/
theorem Undisputed.mono (h : host.Undisputed)
    (hundoes : ∀ {i : Nat} {a : HostCall}, host'.calls[i]? = some a → a.state.Undoes →
      ∃ b, host.calls[i]? = some b ∧ b.state.Undoes)
    (hwon : ∀ {i : Nat} {a : HostCall}, host'.calls[i]? = some a → a.state = .ended (.ok ()) →
      ∃ b, host.calls[i]? = some b ∧ b.state = .ended (.ok ()))
    (hstate : host'.coordinator.lifecycle.state = host.coordinator.lifecycle.state)
    (hcurrent : host'.coordinator.current = none ∨
      host'.coordinator.current = host.coordinator.current) : host'.Undisputed := by
  refine ⟨?_, ?_, ?_⟩
  · intro i j a b ha hb hundoes₁ hundoes₂
    obtain ⟨_, hold₁, h₁⟩ := hundoes ha hundoes₁
    obtain ⟨_, hold₂, h₂⟩ := hundoes hb hundoes₂
    exact h.alone hold₁ hold₂ h₁ h₂
  · intro i a ha hundoing
    obtain ⟨_, hold, hbefore⟩ := hundoes ha hundoing
    exact (h.closed hold hbefore).mono hstate hcurrent
  · intro i a ha hok
    obtain ⟨_, hold, hbefore⟩ := hwon ha hok
    exact hstate.trans (h.won hold hbefore)

/-- One call changes, and neither gets a start to undo nor has won if it had not. -/
theorem Undisputed.mono_set (h : host.Undisputed) (hcall : host.calls[n]? = some old)
    (hcalls : host'.calls = host.calls.set n new) (hundoes : new.state.Undoes → old.state.Undoes)
    (hwon : new.state ≠ .ended (.ok ()))
    (hstate : host'.coordinator.lifecycle.state = host.coordinator.lifecycle.state)
    (hcurrent : host'.coordinator.current = none ∨
      host'.coordinator.current = host.coordinator.current) : host'.Undisputed := by
  refine h.mono (fun ha hundoing => ?_) (fun ha hok => ?_) hstate hcurrent
  · rw [hcalls] at ha
    rcases getElem?_set_cases ha with ⟨rfl, rfl⟩ | ⟨_, hold⟩
    · exact ⟨old, hcall, hundoes hundoing⟩
    · exact ⟨_, hold, hundoing⟩
  · rw [hcalls] at ha
    rcases getElem?_set_cases ha with ⟨_, rfl⟩ | ⟨_, hold⟩
    · exact absurd hok hwon
    · exact ⟨_, hold, hok⟩

/-- One call changes while no other has a start to undo or has won. -/
theorem Undisputed.set (hothers : ∀ {i : Nat} {a : HostCall}, i ≠ n → host.calls[i]? = some a →
      ¬ a.state.Undoes ∧ a.state ≠ .ended (.ok ()))
    (hcalls : host'.calls = host.calls.set n new)
    (hclosed : new.state.Undoes → host'.coordinator.Closed)
    (hwon : new.state = .ended (.ok ()) → host'.coordinator.lifecycle.state = .started) :
    host'.Undisputed := by
  have hself {i : Nat} {a : HostCall} (ha : host'.calls[i]? = some a)
      (h : a.state.Undoes ∨ a.state = .ended (.ok ())) : i = n ∧ a = new := by
    rw [hcalls] at ha
    rcases getElem?_set_cases ha with hnew | ⟨hi, hold⟩
    · exact hnew
    · obtain ⟨hundoes, hok⟩ := hothers hi hold
      exact absurd h (not_or.2 ⟨hundoes, hok⟩)
  refine ⟨?_, ?_, ?_⟩
  · intro i j a b ha hb h₁ h₂
    exact (hself ha (.inl h₁)).1.trans (hself hb (.inl h₂)).1.symm
  · intro i a ha hundoing
    obtain ⟨_, rfl⟩ := hself ha (.inl hundoing)
    exact hclosed hundoing
  · intro i a ha hok
    obtain ⟨_, rfl⟩ := hself ha (.inr hok)
    exact hwon hok

/-- While a start pass can win, no call has a start to undo and none has won. -/
theorem Undisputed.idle_of_free (h : host.Undisputed) (hfree : host.coordinator.Free) {i : Nat}
    {a : HostCall} (ha : host.calls[i]? = some a) :
    ¬ a.state.Undoes ∧ a.state ≠ .ended (.ok ()) := by
  constructor
  · intro hundoes
    exact (h.closed ha hundoes).1 hfree
  · intro hok
    exact Coordinator.not_free_of_started (h.won ha hok) hfree

/-- While a call has a start to undo, no other has, and none has won. -/
theorem Undisputed.idle_of_undoes (h : host.Undisputed) (hcall : host.calls[n]? = some old)
    (hundoes : old.state.Undoes) {i : Nat} {a : HostCall} (hi : i ≠ n)
    (ha : host.calls[i]? = some a) : ¬ a.state.Undoes ∧ a.state ≠ .ended (.ok ()) :=
  ⟨fun hundoes' => hi (h.alone ha hcall hundoes' hundoes),
    fun hok => (h.closed hcall hundoes).2 (h.won ha hok)⟩

/-- The pass of a call begins or goes on. -/
theorem Undisputed.went (h : host.Undisputed) {call : AppCall} {fate fate' : Fate}
    {state : CallState} (hcall : host.calls[n]? = some ⟨.waiting call, fate⟩)
    (hcalls : host'.calls = host.calls.set n ⟨state, fate'⟩)
    (hwent : Went host.coordinator call host'.coordinator state) : host'.Undisputed := by
  cases hwent with
  | refused hstage hstate hsame hcurrent =>
    exact h.mono_set hcall hcalls (absurd · (CallState.not_undoes_ended _)) nofun
      (congrArg Lifecycle.state hsame) (.inl hcurrent)
  | won hstage hfree hstate =>
    exact .set (fun _ ha => h.idle_of_free hfree ha) hcalls
      (absurd · (CallState.not_undoes_ended _)) fun _ => hstate
  | failed hstage hfree hstate =>
    exact .set (fun _ ha => h.idle_of_free hfree ha) hcalls (fun _ => .of_state (.inl hstate)) nofun
  | starting hstage hfree =>
    refine .set (fun _ ha => h.idle_of_free hfree ha) hcalls (fun hundoes => ?_) nofun
    obtain ⟨start, hrolls⟩ := CallState.undoes_waiting.1 hundoes
    cases hstage.symm.trans hrolls
  | undone hstage =>
    have hundoes : (CallState.waiting call).Undoes := CallState.undoes_waiting.2 ⟨_, hstage⟩
    exact .set (h.idle_of_undoes hcall hundoes) hcalls (absurd · (CallState.not_undoes_ended _))
      nofun
  | undoing hstage hstate =>
    have hundoes : (CallState.waiting call).Undoes := CallState.undoes_waiting.2 ⟨_, hstage⟩
    exact .set (h.idle_of_undoes hcall hundoes) hcalls (fun _ => .of_state (.inr hstate)) nofun

/-- A call that was overtaken stays so. -/
theorem Overtaken.step (h : host.Overtaken) (hmatched : host.Matched) (m : HostMove κ) :
    (host.step m).Overtaken := by
  have ⟨a, ha, hovertaken⟩ := h
  obtain ⟨i, hi⟩ := List.mem_iff_getElem?.1 ha
  have hset {n : Nat} {old new : HostCall} (hcall : host.calls[n]? = some old)
      (hfate : old.fate = .overtaken → new.fate = .overtaken) :
      ∃ b ∈ host.calls.set n new, b.fate = .overtaken := by
    by_cases hin : i = n
    · subst hin
      cases hi.symm.trans hcall
      have hlt := (List.getElem?_eq_some_iff.1 hi).1
      exact ⟨new, List.mem_of_getElem? (List.getElem?_set_self hlt), hfate hovertaken⟩
    · have hkept : (host.calls.set n new)[i]? = some a :=
        (List.getElem?_set_ne (Ne.symm hin)).trans hi
      exact ⟨a, List.mem_of_getElem? hkept, hovertaken⟩
  have hchange := host.change m
  generalize host.step m = host' at hchange
  cases hchange with
  | still => exact h
  | outside => exact h
  | appended => exact h
  | called => exact ⟨a, List.mem_append_left _ ha, hovertaken⟩
  | launched hcall => exact hset hcall id
  | entered hcall =>
    refine hset hcall fun hfate => (if_neg ?_).trans hfate
    rintro ⟨hstage, _⟩
    exact (hmatched.fits hcall).fresh (congrArg some hstage) hfate
  | resumed hcall => exact hset hcall id
  | gaveUp hcall => exact hset hcall fun hfate => ite_eq_left_iff.2 fun _ => hfate
  | runningRead hcall => exact hset hcall id
  | recordsRead hcall => exact hset hcall id
  | dropped hcall => exact hset hcall id
  | dismissed hcall => exact hset hcall id

/-- Every move but a stop leaves the start undisputed, unless a call is overtaken. -/
theorem Undisputed.step (h : host.Undisputed) (hmatched : host.Matched) {m : HostMove κ}
    (hnone : ¬ (host.step m).Overtaken) : (host.step m).Undisputed := by
  have hchange := host.change m
  generalize host.step m = host' at hchange hnone
  cases hchange with
  | still => exact h
  | outside => exact ⟨h.alone, h.closed, h.won⟩
  | appended callSite hook =>
    obtain ⟨hooks, hnext⟩ := host.course.next_append callSite hook
    refine h.mono (fun ha hundoes => ⟨_, ha, hundoes⟩) (fun ha hok => ⟨_, ha, hok⟩) ?_ (.inr ?_)
    · exact congrArg (·.coordinator.lifecycle.state) hnext
    · exact congrArg (·.coordinator.current) hnext
  | called phase =>
    refine h.mono (fun ha hundoes => ?_) (fun ha hok => ?_) rfl (.inr rfl)
    · rcases getElem?_concat_cases ha with rfl | hold
      · obtain ⟨start, hrolls⟩ := CallState.undoes_launching.1 hundoes
        cases phase <;> cases hrolls
      · exact ⟨_, hold, hundoes⟩
    · rcases getElem?_concat_cases ha with rfl | hold
      · cases hok
      · exact ⟨_, hold, hok⟩
  | launched hcall =>
    refine h.mono_set hcall rfl (fun hundoes => ?_) nofun rfl (.inr rfl)
    exact CallState.undoes_launching.2 (CallState.undoes_waiting.1 hundoes)
  | entered hcall hturn => exact h.went hcall rfl (hmatched.went_of_turn? hcall hturn _)
  | resumed hcall hprogress =>
    exact h.went hcall rfl (hmatched.went_of_progress? hcall hprogress _ _)
  | @gaveUp n call fate reason hcall =>
    have hleave := host.coordinator.leave_current call.pass
    cases hstage : call.stage with
    | starting =>
      cases hprogress : host.coordinator.progress? call.pass with
      | none =>
        have hlt := (List.getElem?_eq_some_iff.1 hcall).1
        refine absurd ⟨_, List.mem_of_getElem? (List.getElem?_set_self hlt), ?_⟩ hnone
        exact if_pos ⟨hstage, hprogress⟩
      | some progress =>
        have hcurrent := Coordinator.current_of_progress? hprogress
        have hphase := hmatched.phase_of_progress? hcall hprogress
        rw [hstage] at hphase
        have hstate : host.coordinator.lifecycle.state = .starting := by
          cases progress with
          | starting => exact (hmatched.possible.counted.starting _ _ _ hcurrent).1
          | stopping => cases hphase
        have hfree : host.coordinator.Free := .inr ⟨hstate, progress, hcurrent, hphase.symm⟩
        refine .set (fun _ ha => h.idle_of_free hfree ha) rfl (fun _ => ?_) nofun
        refine .of_starting hstate ?_
        show (if (host.coordinator.progress? call.pass).isSome then none else _) = none
        rw [hprogress]
        rfl
    | rollingBack start =>
      exact h.mono_set hcall rfl (fun _ => CallState.undoes_waiting.2 ⟨start, hstage⟩) nofun rfl
        hleave
    | stopping => exact absurd (congrArg some hstage) (hmatched.fits hcall).starts
  | @runningRead n call reason fate hcall =>
    refine h.mono_set hcall rfl ?_ nofun rfl (.inr rfl)
    rintro (⟨start, hrolls⟩ | ⟨_, hstage, hreports⟩)
    · cases hrolls
    · cases hreports
      exact .inr ⟨call, hstage, .givenUp reason⟩
  | @recordsRead n call reason running fate hcall =>
    refine h.mono_set hcall rfl (fun hundoes => .inr ⟨call, ?_, .reporting reason running⟩)
      (call.conclude_error_ne_ok _) rfl (.inr rfl)
    exact AppCall.starting_of_conclude_undoes hundoes
  | @dropped n call fate hcall =>
    exact h.mono_set hcall rfl (absurd · CallState.not_undoes_dropped) nofun rfl
      (host.coordinator.leave_current call.pass)
  | dismissed hcall =>
    exact h.mono_set hcall rfl (absurd · CallState.not_undoes_dropped) nofun rfl (.inr rfl)

/-! ## What a move can do to a started application -/

/-- The pass of a call begins when it has its turn. -/
theorem step_enter {call : AppCall} {fate : Fate} {phase : Phase}
    (hcall : host.calls[n]? = some ⟨.waiting call, fate⟩)
    (hturn : host.coordinator.turn? call.pass = some phase) :
    (host.step (.enter n)).course =
      host.course.next (.enter call.pass (host.reading call.context)) := by
  show (host.enter n).course = _
  simp only [enter, hcall, Coordinator.enter, hturn, Option.map_some, advance]

/-- A callback begins only by a call whose start pass was let through or overtaken. -/
theorem Matched.began (h : host.Matched) {m : HostMove κ} {pass : PassId} {phase : Phase}
    {hook : RegisteredHook κ}
    (hbegan : .began pass phase hook ∈ (host.step m).course.seen.drop host.course.seen.length) :
    ∃ (n : Nat) (hostCall : HostCall), (m = .enter n ∨ ∃ result, m = .returned n result) ∧
      (host.step m).calls[n]? = some hostCall ∧ hostCall.fate ≠ .unsettled := by
  have hevents {m' : Move κ}
      (hbegan : .began pass phase hook ∈
        (host.course.next m').seen.drop host.course.seen.length) :
      .began pass phase hook ∈ host.coordinator.events m' := by
    rwa [Course.next, List.drop_left] at hbegan
  have hnot : .began pass phase hook ∉ host.course.seen.drop host.course.seen.length := by
    rw [List.drop_length]
    exact List.not_mem_nil
  have hself {n : Nat} {old new : HostCall} (hcall : host.calls[n]? = some old) :
      (host.calls.set n new)[n]? = some new :=
    List.getElem?_set_self (List.getElem?_eq_some_iff.1 hcall).1
  have hchange := host.change m
  generalize host.step m = host' at hchange hbegan
  cases hchange with
  | still => exact absurd hbegan hnot
  | outside => exact absurd hbegan hnot
  | appended => cases hevents hbegan
  | called => exact absurd hbegan hnot
  | launched => cases hevents hbegan
  | @entered n call fate phase' hcall hturn =>
    refine ⟨n, _, .inl rfl, hself hcall, ?_⟩
    have hfits := h.fits hcall
    have hphase := h.phase_of_turn? hcall hturn
    have hstages := stage_of_phase fun hstage => hfits.starts (congrArg some hstage)
    cases phase' with
    | start =>
      have hstage := hstages.1 hphase
      by_cases hstate : host.coordinator.lifecycle.Startable
      · rw [if_pos ⟨hstage, hstate⟩]
        rintro ⟨⟩
      · have hseen := hevents hbegan
        simp only [Coordinator.events, hturn, if_neg hstate, Lifecycle.begin,
          Lifecycle.beginStart_of_not_startable _ hstate] at hseen
        cases List.mem_singleton.1 hseen
    | stop =>
      obtain ⟨start, hstage⟩ := hstages.2 hphase
      rw [if_neg (by rintro ⟨hstarting, _⟩; cases hstage.symm.trans hstarting)]
      exact hfits.undoing (CallState.undoes_waiting.2 ⟨start, hstage⟩)
  | @resumed n call fate progress result hcall hprogress =>
    refine ⟨n, _, .inr ⟨result, rfl⟩, hself hcall, ?_⟩
    have hfits := h.fits hcall
    cases hstage : call.stage with
    | starting =>
      rw [hfits.begun call progress rfl hstage hprogress]
      rintro ⟨⟩
    | rollingBack start => exact hfits.undoing (CallState.undoes_waiting.2 ⟨start, hstage⟩)
    | stopping => exact absurd (congrArg some hstage) hfits.starts
  | gaveUp => cases hevents hbegan
  | runningRead => exact absurd hbegan hnot
  | recordsRead => exact absurd hbegan hnot
  | dropped => cases hevents hbegan
  | dismissed => exact absurd hbegan hnot

/-- A started application stops being so exactly when the stop pass of a call that undoes a start
begins. -/
theorem Matched.leaves_started_iff (h : host.Matched)
    (hstarted : host.coordinator.lifecycle.state = .started) (m : HostMove κ) :
    (host.step m).coordinator.lifecycle.state ≠ .started ↔
      ∃ (n : Nat) (call : AppCall) (fate : Fate) (start : LifecycleError), m = .enter n ∧
        host.calls[n]? = some ⟨.waiting call, fate⟩ ∧ call.stage = .rollingBack start ∧
        host.coordinator.turn? call.pass = some .stop := by
  constructor
  · intro hleft
    have hchange := host.change m
    generalize host.step m = host' at hchange hleft
    cases hchange with
    | still => exact absurd hstarted hleft
    | outside => exact absurd hstarted hleft
    | appended callSite hook =>
      obtain ⟨hooks, hnext⟩ := host.course.next_append callSite hook
      have hsame := congrArg (·.coordinator.lifecycle.state) hnext
      exact absurd (hsame.trans hstarted) hleft
    | called => exact absurd hstarted hleft
    | launched => exact absurd hstarted hleft
    | @entered n call fate phase hcall hturn =>
      have hphase := h.phase_of_turn? hcall hturn
      have hwent := h.went_of_turn? hcall hturn (host.reading call.context)
      have hnot := Coordinator.not_free_of_started hstarted
      generalize call.onward _ = state at hwent
      cases hwent with
      | refused _ _ hsame => exact absurd ((congrArg Lifecycle.state hsame).trans hstarted) hleft
      | won _ hfree => exact absurd hfree hnot
      | failed _ hfree => exact absurd hfree hnot
      | starting _ hfree => exact absurd hfree hnot
      | undone hstage =>
        rw [hstage] at hphase
        cases hphase
        exact ⟨n, call, fate, _, rfl, hcall, hstage, hturn⟩
      | undoing hstage =>
        rw [hstage] at hphase
        cases hphase
        exact ⟨n, call, fate, _, rfl, hcall, hstage, hturn⟩
    | @resumed n call fate progress result hcall hprogress =>
      -- no pass waits for a callback in a started lifecycle
      have hcurrent := Coordinator.current_of_progress? hprogress
      have hc := h.possible.counted
      cases progress with
      | starting => cases hstarted.symm.trans (hc.starting _ _ _ hcurrent).1
      | stopping => cases hstarted.symm.trans (hc.stopping _ _ _ _ hcurrent).1
    | gaveUp => exact absurd hstarted hleft
    | runningRead => exact absurd hstarted hleft
    | recordsRead => exact absurd hstarted hleft
    | dropped => exact absurd hstarted hleft
    | dismissed => exact absurd hstarted hleft
  · rintro ⟨n, call, fate, start, rfl, hcall, hstage, hturn⟩
    have hwent := h.went_of_turn? hcall hturn (host.reading call.context)
    have hcourse := congrArg Course.coordinator (step_enter hcall hturn)
    rw [coordinator, hcourse]
    show (host.coordinator.apply _).lifecycle.state ≠ .started
    generalize call.onward _ = state at hwent
    cases hwent with
    | refused hstarting => cases hstage.symm.trans hstarting
    | won hstarting => cases hstage.symm.trans hstarting
    | failed hstarting => cases hstage.symm.trans hstarting
    | starting hstarting => cases hstage.symm.trans hstarting
    | undone _ hstate =>
      rcases hstate with hstate | hstate
      · rw [hstate]
        decide
      · rw [hstate]
        decide
    | undoing _ hstate =>
      rw [hstate]
      decide

/-- A started application has all hooks counted that its start pass went over. -/
theorem Matched.all_counted (h : host.Matched)
    (hstarted : host.coordinator.lifecycle.state = .started) :
    ∃ cycle, host.course.cycle? = some cycle ∧ cycle.started = cycle.hooks ∧
      host.coordinator.lifecycle.started = cycle.hooks.length := by
  have haccounted := h.possible.accounted
  cases hcycle : host.course.cycle? with
  | none =>
    rw [hcycle] at haccounted
    rcases haccounted.startable with hstate | hstate <;> cases hstarted.symm.trans hstate
  | some cycle =>
    rw [hcycle] at haccounted
    have hfull : cycle.started = cycle.hooks := haccounted.full hstarted
    refine ⟨cycle, rfl, hfull, ?_⟩
    rw [← hfull]
    exact haccounted.unturned (hstarted ▸ nofun) (hstarted ▸ nofun)

end

end Host

/-- In every run of calls that start an application, whatever their contexts, their callbacks and
the order of the moves, a callback begins only by a call whose start pass was let through or
overtaken. As long as none was overtaken, a call that started the application has left it so, with
all hooks counted. A started application stops being so exactly when the stop pass of a call that
undoes a start begins, and there is such a call only after one was overtaken. -/
theorem winner_stands_unless_overtaken {base : Course κ} (hbase : base.Possible) (now : Nat)
    (scopes : Scopes) (allowed : Phase → Nat) {moves : List (HostMove κ)}
    (hmoves : ∀ m ∈ moves, ∀ context, m ≠ .call .stop context) {host : Host κ}
    (hhost : host = Host.run ⟨now, scopes, base, [], allowed⟩ moves) :
    (∀ m pass phase hook,
        .began pass phase hook ∈ (host.step m).course.seen.drop host.course.seen.length →
        ∃ (n : Nat) (hostCall : HostCall), (m = .enter n ∨ ∃ result, m = .returned n result) ∧
          (host.step m).calls[n]? = some hostCall ∧ hostCall.fate ≠ .unsettled) ∧
      (¬ host.Overtaken → ∀ hostCall ∈ host.calls, hostCall.state = .ended (.ok ()) →
        host.coordinator.lifecycle.state = .started ∧
          ∃ cycle, host.course.cycle? = some cycle ∧ cycle.started = cycle.hooks ∧
            host.coordinator.lifecycle.started = cycle.hooks.length) ∧
      (host.coordinator.lifecycle.state = .started →
        (∀ m, (host.step m).coordinator.lifecycle.state ≠ .started ↔
          ∃ (n : Nat) (call : AppCall) (fate : Fate) (start : LifecycleError), m = .enter n ∧
            host.calls[n]? = some ⟨.waiting call, fate⟩ ∧ call.stage = .rollingBack start ∧
            host.coordinator.turn? call.pass = some .stop) ∧
        ((∃ hostCall ∈ host.calls, hostCall.state.Undoes) → host.Overtaken)) := by
  let P (host : Host κ) : Prop := host.Matched ∧ (¬ host.Overtaken → host.Undisputed)
  obtain ⟨hmatched, hundisputed⟩ : P host := by
    rw [hhost]
    refine Host.run_induction ⟨.of_none hbase rfl, fun _ => .of_none rfl⟩ ?_
    intro host m hm h
    refine ⟨h.1.step (hmoves m hm), ?_⟩
    intro hnone
    have hbefore : ¬ host.Overtaken := fun hovertaken => hnone (hovertaken.step h.1 m)
    exact (h.2 hbefore).step h.1 hnone
  refine ⟨?_, ?_, ?_⟩
  · intro m pass phase hook hbegan
    exact hmatched.began hbegan
  · intro hnone hostCall hmem hok
    obtain ⟨i, hcall⟩ := List.mem_iff_getElem?.1 hmem
    have hstarted := (hundisputed hnone).won hcall hok
    exact ⟨hstarted, hmatched.all_counted hstarted⟩
  · intro hstarted
    refine ⟨hmatched.leaves_started_iff hstarted, ?_⟩
    rintro ⟨hostCall, hmem, hundoes⟩
    obtain ⟨i, hcall⟩ := List.mem_iff_getElem?.1 hmem
    refine Classical.byContradiction fun hnone => ?_
    exact ((hundisputed hnone).closed hcall hundoes).2 hstarted

/-- A new lifecycle with one hook. -/
def oneHook : Course Nat :=
  .of [.append "slow" ⟨some 0, some 1, none⟩]

/-- The second call has its turn after the first has won, and is refused. -/
def secondRefused : List (HostMove Nat) :=
  [.call .start none, .call .start (some ⟨[0], some 10⟩), .launch 0, .enter 0, .launch 1,
    .returned 0 (.ok ()), .enter 1]

/-- A start that is refused leaves the winner alone. -/
theorem secondRefused_stands :
    ∃ host : Host Nat, host = Host.run ⟨0, ⟨1, []⟩, oneHook, [], fun _ => 100⟩ secondRefused ∧
      host.calls = [⟨.ended (.ok ()), .passed⟩,
        ⟨.ended (.error (.invalidTransition .started "start")), .unsettled⟩] ∧
      host.coordinator.lifecycle.state = .started ∧
      ∃ cycle, host.course.cycle? = some cycle ∧ cycle.started = cycle.hooks ∧
        host.coordinator.lifecycle.started = cycle.hooks.length := by
  have hmoves : ∀ m ∈ secondRefused, ∀ context, m ≠ HostMove.call .stop context := by
    rintro m hm context rfl
    simp [secondRefused] at hm
  have hbase : oneHook.Possible := ⟨_, rfl⟩
  obtain ⟨-, hwon, -⟩ :=
    winner_stands_unless_overtaken hbase 0 ⟨1, []⟩ (fun _ => 100) hmoves rfl
  exact ⟨_, rfl, rfl, hwon (by decide) _ List.mem_cons_self rfl⟩

/-- The second call runs out of time while it stands behind the first, which then wins. -/
def overtakenStart : List (HostMove Nat) :=
  [.call .start none, .call .start (some ⟨[0], some 10⟩), .launch 0, .enter 0, .launch 1, .tick 10,
    .giveUp 1 .deadlineExceeded, .readRunning 1, .readRecords 1, .launch 1, .tick 90,
    .returned 0 (.ok ()), .enter 1, .returned 1 (.ok ())]

/-- The second call, whose start pass never had its turn, runs the stop callback of a hook that it
did not start, and the application that the first call has started is stopped. -/
theorem overtakenStart_stops_winner :
    ∃ (host : Host Nat) (records : HookRecords) (hook : RegisteredHook Nat),
      host = Host.run ⟨0, ⟨1, []⟩, oneHook, [], fun _ => 100⟩ overtakenStart ∧
        host.calls = [⟨.ended (.ok ()), .passed⟩,
          ⟨.ended (.error (.timeout .start (some "slow") .deadlineExceeded records)), .overtaken⟩] ∧
        .began 2 .stop hook ∈ host.course.seen ∧ host.coordinator.lifecycle.state = .stopped ∧
        host.coordinator.lifecycle.started = 0 := by
  refine ⟨_, _, ⟨some 0, some 1, "slow"⟩, rfl, rfl, ?_, rfl, rfl⟩
  exact List.mem_of_getElem? (show _[4]? = _ from rfl)

end ServiceHost
