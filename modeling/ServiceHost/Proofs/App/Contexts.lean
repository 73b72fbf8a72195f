import ServiceHost.Proofs.App.Host

/-!
# The context of a rollback

The stop pass that follows a failed start has a context of its own: new scopes, of which no context
made before knows, and the deadline that the settings allow, counted from the moment in which the
call steps up to the gate (`Host.OwnContext`). So nothing that is cancelled outside can reach it.
What the calls of a host do is told by the scopes of their own contexts alone: cancelling others,
which none of them is aware of, changes neither the course of the lifecycle nor the calls
(`run_hidden`).
-/

namespace ServiceHost

variable {κ : Type}

namespace Host

/-! ## New scopes -/

/-- Every rollback is about to make, or has made, a context with scopes from `first` on. -/
structure OwnContext (first : ScopeId) (host : Host κ) : Prop where
  count : first ≤ host.scopes.count
  launching : ∀ {start context fate},
    HostCall.mk (.launching (.rollingBack start) context) fate ∈ host.calls → context = none
  waiting : ∀ {call fate start}, HostCall.mk (.waiting call) fate ∈ host.calls →
    call.stage = .rollingBack start → ∃ scope launched, first ≤ scope ∧ launched ≤ host.now ∧
      call.context = ⟨[scope + 1, scope], some (launched + host.allowed .stop)⟩

/-- A call is replaced by one that rolls back only under a context of its own. -/
theorem OwnContext.set {first : ScopeId} {host host' : Host κ} (h : host.OwnContext first) {n : Nat}
    {state : CallState} {fate : Fate} (hcalls : host'.calls = host.calls.set n ⟨state, fate⟩)
    (hcount : host.scopes.count ≤ host'.scopes.count) (hnow : host.now = host'.now)
    (hallowed : host.allowed = host'.allowed)
    (hlaunching : ∀ {start context}, state = .launching (.rollingBack start) context →
      context = none)
    (hwaiting : ∀ {call start}, state = .waiting call → call.stage = .rollingBack start →
      ∃ scope launched, first ≤ scope ∧ launched ≤ host.now ∧
        call.context = ⟨[scope + 1, scope], some (launched + host.allowed .stop)⟩) :
    host'.OwnContext first := by
  refine ⟨Nat.le_trans h.count hcount, ?_, ?_⟩
  · intro start context fate hmem
    rw [hcalls] at hmem
    rcases List.mem_or_eq_of_mem_set hmem with hmem | heq
    · exact h.launching hmem
    · cases heq
      exact hlaunching rfl
  · intro call fate start hmem hstage
    rw [hcalls] at hmem
    rw [← hnow, ← hallowed]
    rcases List.mem_or_eq_of_mem_set hmem with hmem | heq
    · exact h.waiting hmem hstage
    · cases heq
      exact hwaiting rfl hstage

/-- Every move leaves a rollback its own context. -/
theorem OwnContext.step {first : ScopeId} {host : Host κ} (h : host.OwnContext first)
    (m : HostMove κ) : (host.step m).OwnContext first := by
  have honward {n : Nat} {call : AppCall} {fate : Fate}
      (hcall : host.calls[n]? = some ⟨.waiting call, fate⟩) (step : PassStep κ) :
      (∀ {start context}, call.onward step = .launching (.rollingBack start) context →
        context = none) ∧
      ∀ {call' start}, call.onward step = .waiting call' → call'.stage = .rollingBack start →
        ∃ scope launched, first ≤ scope ∧ launched ≤ host.now ∧
          call'.context = ⟨[scope + 1, scope], some (launched + host.allowed .stop)⟩ := by
    rcases call.onward_cases step with hstep | hstep | ⟨result, hstep⟩
    · rw [hstep]
      refine ⟨nofun, ?_⟩
      rintro _ _ ⟨⟩ hstage
      exact h.waiting (List.mem_of_getElem? hcall) hstage
    · rw [hstep]
      exact ⟨nofun, nofun⟩
    · rw [hstep]
      exact ⟨AppCall.conclude_launching, (absurd · (call.conclude_not_waiting _ _))⟩
  have hchange := host.change m
  generalize host.step m = host' at hchange
  cases hchange with
  | still => exact h
  | outside hnow hcount =>
    refine ⟨Nat.le_trans h.count hcount, h.launching, ?_⟩
    intro call fate start hmem hstage
    obtain ⟨scope, launched, hfirst, hle, hcontext⟩ := h.waiting hmem hstage
    exact ⟨scope, launched, hfirst, Nat.le_trans hle hnow, hcontext⟩
  | appended => exact ⟨h.count, h.launching, h.waiting⟩
  | called phase context =>
    refine ⟨h.count, ?_, ?_⟩
    · intro start context' fate hmem
      rcases List.mem_append.1 hmem with hmem | hmem
      · exact h.launching hmem
      · cases phase <;> cases List.mem_singleton.1 hmem
    · intro call fate start hmem hstage
      rcases List.mem_append.1 hmem with hmem | hmem
      · exact h.waiting hmem hstage
      · cases List.mem_singleton.1 hmem
  | @launched n stage context fate hcall =>
    have hcount : host.scopes.count ≤ (host.contextFor stage context).2.count := by
      cases context with
      | none => exact Nat.le_add_right _ 2
      | some ctx => exact Nat.le_refl _
    refine h.set rfl hcount rfl rfl nofun ?_
    rintro _ start ⟨⟩ hstage
    obtain rfl : stage = .rollingBack start := hstage
    cases h.launching (List.mem_of_getElem? hcall)
    refine ⟨host.scopes.count, host.now, h.count, Nat.le_refl _, ?_⟩
    rfl
  | entered hcall =>
    obtain ⟨hlaunching, hwaiting⟩ := honward hcall _
    exact h.set rfl (Nat.le_refl _) rfl rfl hlaunching hwaiting
  | resumed hcall =>
    obtain ⟨hlaunching, hwaiting⟩ := honward hcall _
    exact h.set rfl (Nat.le_refl _) rfl rfl hlaunching hwaiting
  | gaveUp hcall => exact h.set rfl (Nat.le_refl _) rfl rfl nofun nofun
  | runningRead hcall => exact h.set rfl (Nat.le_refl _) rfl rfl nofun nofun
  | @recordsRead n call reason running fate hcall =>
    exact h.set rfl (Nat.le_refl _) rfl rfl AppCall.conclude_launching
      (absurd · (call.conclude_not_waiting _ _))
  | dropped hcall => exact h.set rfl (Nat.le_refl _) rfl rfl nofun nofun
  | dismissed hcall => exact h.set rfl (Nat.le_refl _) rfl rfl nofun nofun

/-! ## Scopes of others -/

/-- The scopes exist, and no call has one of them in its context. -/
structure Unaware (hidden : List ScopeId) (host : Host κ) : Prop where
  known : ∀ scope ∈ hidden, scope < host.scopes.count
  launching : ∀ {stage ctx fate}, HostCall.mk (.launching stage (some ctx)) fate ∈ host.calls →
    ∀ scope ∈ ctx.lineage, scope ∉ hidden
  waiting : ∀ {call fate}, HostCall.mk (.waiting call) fate ∈ host.calls →
    ∀ scope ∈ call.context.lineage, scope ∉ hidden

/-- The host with other scopes cancelled. -/
def recancelled (host : Host κ) (cancelled : List ScopeId) : Host κ :=
  { host with scopes := { host.scopes with cancelled } }

section
variable {host host' : Host κ} {hidden cancelled : List ScopeId}

/-- A call is replaced by one that is not aware of the scopes, either. -/
theorem Unaware.set (h : host.Unaware hidden) {n : Nat} {state : CallState} {fate : Fate}
    (hcalls : host'.calls = host.calls.set n ⟨state, fate⟩)
    (hcount : host.scopes.count ≤ host'.scopes.count)
    (hlaunching : ∀ {stage ctx}, state = .launching stage (some ctx) →
      ∀ scope ∈ ctx.lineage, scope ∉ hidden)
    (hwaiting : ∀ {call}, state = .waiting call → ∀ scope ∈ call.context.lineage, scope ∉ hidden) :
    host'.Unaware hidden := by
  refine ⟨?_, ?_, ?_⟩
  · intro scope hscope
    exact Nat.lt_of_lt_of_le (h.known scope hscope) hcount
  · intro stage ctx fate hmem
    rw [hcalls] at hmem
    rcases List.mem_or_eq_of_mem_set hmem with hmem | heq
    · exact h.launching hmem
    · cases heq
      exact hlaunching rfl
  · intro call fate hmem
    rw [hcalls] at hmem
    rcases List.mem_or_eq_of_mem_set hmem with hmem | heq
    · exact h.waiting hmem
    · cases heq
      exact hwaiting rfl

/-- Every move but another call leaves the calls unaware of the scopes. -/
theorem Unaware.step (h : host.Unaware hidden) {m : HostMove κ}
    (hm : ∀ phase context, m ≠ .call phase context) : (host.step m).Unaware hidden := by
  have hconclude (call : AppCall) (result : Except LifecycleError Unit) {stage : CallStage}
      {ctx : Context} (hstate : call.conclude result = .launching stage (some ctx)) :
      ∀ scope ∈ ctx.lineage, scope ∉ hidden :=
    nomatch AppCall.conclude_launching hstate
  have honward {n : Nat} {call : AppCall} {fate : Fate}
      (hcall : host.calls[n]? = some ⟨.waiting call, fate⟩) (step : PassStep κ) :
      (∀ {stage ctx}, call.onward step = .launching stage (some ctx) →
        ∀ scope ∈ ctx.lineage, scope ∉ hidden) ∧
      ∀ {call'}, call.onward step = .waiting call' →
        ∀ scope ∈ call'.context.lineage, scope ∉ hidden := by
    rcases call.onward_cases step with hstep | hstep | ⟨result, hstep⟩
    · rw [hstep]
      refine ⟨nofun, ?_⟩
      rintro _ ⟨⟩
      exact h.waiting (List.mem_of_getElem? hcall)
    · rw [hstep]
      exact ⟨nofun, nofun⟩
    · rw [hstep]
      exact ⟨hconclude call result, (absurd · (call.conclude_not_waiting _ _))⟩
  have hchange := host.change m
  generalize host.step m = host' at hchange
  cases hchange with
  | still => exact h
  | outside _ hcount =>
    exact ⟨fun scope hscope => Nat.lt_of_lt_of_le (h.known scope hscope) hcount, h.launching,
      h.waiting⟩
  | appended => exact ⟨h.known, h.launching, h.waiting⟩
  | called phase context => exact absurd rfl (hm phase context)
  | @launched n stage context fate hcall =>
    cases context with
    | some ctx =>
      refine h.set rfl (Nat.le_refl _) nofun ?_
      rintro _ ⟨⟩
      exact h.launching (List.mem_of_getElem? hcall)
    | none =>
      refine h.set rfl (Nat.le_add_right _ 2) nofun ?_
      rintro _ ⟨⟩ scope hscope hmem
      -- both scopes of the new context come after those that exist
      have hnew : scope = host.scopes.count + 1 ∨ scope = host.scopes.count := by
        simpa [contextFor, Scopes.background, Scopes.withTimeout, Scopes.withDeadline] using hscope
      have hold := h.known scope hmem
      rcases hnew with rfl | rfl
      · exact absurd hold (Nat.not_lt.2 (Nat.le_succ _))
      · exact Nat.lt_irrefl _ hold
  | entered hcall =>
    obtain ⟨hlaunching, hwaiting⟩ := honward hcall _
    exact h.set rfl (Nat.le_refl _) hlaunching hwaiting
  | resumed hcall =>
    obtain ⟨hlaunching, hwaiting⟩ := honward hcall _
    exact h.set rfl (Nat.le_refl _) hlaunching hwaiting
  | gaveUp hcall => exact h.set rfl (Nat.le_refl _) nofun nofun
  | runningRead hcall => exact h.set rfl (Nat.le_refl _) nofun nofun
  | @recordsRead n call reason running fate hcall =>
    exact h.set rfl (Nat.le_refl _) (hconclude _ _) (absurd · (call.conclude_not_waiting _ _))
  | dropped hcall => exact h.set rfl (Nat.le_refl _) nofun nofun
  | dismissed hcall => exact h.set rfl (Nat.le_refl _) nofun nofun

/-- Whether a context is cancelled is told by its own scopes. -/
theorem isCancelled_recancelled (hsame : ∀ scope, scope ∉ hidden →
      (scope ∈ cancelled ↔ scope ∈ host.scopes.cancelled)) {ctx : Context}
    (hoff : ∀ scope ∈ ctx.lineage, scope ∉ hidden) :
    (host.recancelled cancelled).scopes.isCancelled ctx = host.scopes.isCancelled ctx := by
  rw [Bool.eq_iff_iff]
  simp only [Scopes.isCancelled, recancelled, List.any_eq_true, List.contains_iff_mem]
  constructor
  · rintro ⟨scope, hscope, hmem⟩
    exact ⟨scope, hscope, (hsame scope (hoff scope hscope)).1 hmem⟩
  · rintro ⟨scope, hscope, hmem⟩
    exact ⟨scope, hscope, (hsame scope (hoff scope hscope)).2 hmem⟩

/-- A call that waits does not see whether the hidden scopes are cancelled. -/
theorem Unaware.isCancelled (h : host.Unaware hidden) (hsame : ∀ scope, scope ∉ hidden →
      (scope ∈ cancelled ↔ scope ∈ host.scopes.cancelled)) {n : Nat} {call : AppCall} {fate : Fate}
    (hcall : host.calls[n]? = some ⟨.waiting call, fate⟩) :
    (host.recancelled cancelled).scopes.isCancelled call.context =
      host.scopes.isCancelled call.context :=
  isCancelled_recancelled hsame (h.waiting (List.mem_of_getElem? hcall))

theorem advance_scopes (host : Host κ) (n : Nat) (call : AppCall) (fate : Fate) (m : Move κ)
    (r : Option (PassStep κ × Coordinator κ)) :
    (host.advance n call fate m r).scopes = host.scopes := by
  cases r <;> rfl

theorem advance_recancelled (host : Host κ) (cancelled : List ScopeId) (n : Nat) (call : AppCall)
    (fate : Fate) (m : Move κ) (r : Option (PassStep κ × Coordinator κ)) :
    (host.recancelled cancelled).advance n call fate m r =
      (host.advance n call fate m r).recancelled cancelled := by
  cases r <;> rfl

/-- A move of unaware calls does not depend on whether the hidden scopes are cancelled. -/
theorem step_recancelled (h : host.Unaware hidden) (hsame : ∀ scope, scope ∉ hidden →
      (scope ∈ cancelled ↔ scope ∈ host.scopes.cancelled)) {m : HostMove κ}
    (hm : ∀ phase context, m ≠ .call phase context) :
    ∃ cancelled', (host.recancelled cancelled).step m = (host.step m).recancelled cancelled' ∧
      ∀ scope, scope ∉ hidden → (scope ∈ cancelled' ↔ scope ∈ (host.step m).scopes.cancelled) := by
  have hcall (n : Nat) : (host.recancelled cancelled).calls[n]? = host.calls[n]? := rfl
  have hreading {n : Nat} {call : AppCall} {fate : Fate}
      (hwaiting : host.calls[n]? = some ⟨.waiting call, fate⟩) :
      (host.recancelled cancelled).reading call.context = host.reading call.context := by
    simp only [reading, Scopes.error?, h.isCancelled hsame hwaiting]
    rfl
  cases m with
  | append callSite hook => exact ⟨cancelled, rfl, hsame⟩
  | tick millis => exact ⟨cancelled, rfl, hsame⟩
  | scope => exact ⟨cancelled, rfl, hsame⟩
  | call phase context => exact absurd rfl (hm phase context)
  | cancel ctx =>
    by_cases hknows : host.scopes.Knows ctx
    · have hknows' : (host.recancelled cancelled).scopes.Knows ctx := hknows
      simp only [step, if_pos hknows, if_pos hknows']
      refine ⟨ctx.lineage.take 1 ++ cancelled, rfl, fun scope hoff => ?_⟩
      show scope ∈ ctx.lineage.take 1 ++ cancelled ↔
        scope ∈ ctx.lineage.take 1 ++ host.scopes.cancelled
      rw [List.mem_append, List.mem_append, hsame scope hoff]
    · have hknows' : ¬ (host.recancelled cancelled).scopes.Knows ctx := hknows
      simp only [step, if_neg hknows, if_neg hknows']
      exact ⟨cancelled, rfl, hsame⟩
  | launch n =>
    simp only [step, launch, hcall]
    split
    · next stage context fate _ => cases context <;> exact ⟨cancelled, rfl, hsame⟩
    · exact ⟨cancelled, rfl, hsame⟩
  | enter n =>
    simp only [step, enter, hcall]
    split
    · next call fate hwaiting =>
      rw [hreading hwaiting]
      exact ⟨cancelled, advance_recancelled .., by rw [advance_scopes]; exact hsame⟩
    · exact ⟨cancelled, rfl, hsame⟩
  | returned n result =>
    simp only [step, returned, hcall]
    split
    · next call fate hwaiting =>
      rw [hreading hwaiting]
      exact ⟨cancelled, advance_recancelled .., by rw [advance_scopes]; exact hsame⟩
    · exact ⟨cancelled, rfl, hsame⟩
  | giveUp n reason =>
    simp only [step, giveUp, hcall]
    split
    · next call fate hwaiting =>
      have hreasons : (host.recancelled cancelled).scopes.doneReasons host.now call.context =
          host.scopes.doneReasons host.now call.context := by
        simp only [Scopes.doneReasons, h.isCancelled hsame hwaiting]
      have hnow : (host.recancelled cancelled).now = host.now := rfl
      have hgate : (host.recancelled cancelled).coordinator = host.coordinator := rfl
      rw [hnow, hreasons, hgate]
      split <;> exact ⟨cancelled, rfl, hsame⟩
    · exact ⟨cancelled, rfl, hsame⟩
  | readRunning n =>
    simp only [step, readRunning, hcall]
    split <;> exact ⟨cancelled, rfl, hsame⟩
  | readRecords n =>
    simp only [step, readRecords, hcall]
    split <;> exact ⟨cancelled, rfl, hsame⟩
  | drop n =>
    simp only [step, drop, hcall]
    split <;> exact ⟨cancelled, rfl, hsame⟩

/-- Cancelling scopes that no call is aware of changes neither the course nor the calls. -/
theorem run_hidden (h : host.Unaware hidden) (hsame : ∀ scope, scope ∉ hidden →
      (scope ∈ cancelled ↔ scope ∈ host.scopes.cancelled)) {moves : List (HostMove κ)}
    (hmoves : ∀ m ∈ moves, ∀ phase context, m ≠ .call phase context) :
    ((host.recancelled cancelled).run moves).course = (host.run moves).course ∧
      ((host.recancelled cancelled).run moves).calls = (host.run moves).calls := by
  induction moves generalizing host cancelled with
  | nil => exact ⟨rfl, rfl⟩
  | cons m rest ih =>
    obtain ⟨hm, hrest⟩ := List.forall_mem_cons.1 hmoves
    obtain ⟨cancelled', hstep, hsame'⟩ := step_recancelled h hsame hm
    have hrun := ih (h.step hm) hsame' hrest
    rw [← hstep] at hrun
    exact hrun

end

end Host

end ServiceHost
