import ServiceHost.App.Builder
import ServiceHost.Proofs.Graph.Invocation

/-!
# Chains of calls that put an application together

An application is put together by a chain of calls (`ChainCall`): some register, by a module
(`Module`) or on their own, some set a function aside to be invoked, some set the timeouts. Where
the latter stand among the former does not matter (`Builder.foldl_apply`), since what is set aside
is no part of the graph. So building the application comes to doing all registrations and then all
invocations, in turn and up to the first that fails (`Builder.buildWithin_chain`,
`inTurn_stopped_iff`). Registrations alone call nothing (`AllDone.fresh`), and what the graph holds
at the beginning it holds at the end (`AllDone.evolves`).
-/

namespace ServiceHost

variable {σ ι α : Type}

/-! ## Calls -/

/-- One component to register. -/
inductive Registration (σ ι : Type) where
  | supply (key : Key) (value : ι)
  | provide (key : Key) (inputs : Inputs) (construct : Args ι → Program σ ι)

def Registration.key : Registration σ ι → Key
  | .supply key _ => key
  | .provide key _ _ => key

def Registration.node : Registration σ ι → Node σ ι
  | .supply key value => .ofValue key value
  | .provide _ inputs construct => .ofRecipe inputs construct

def Registration.run (r : Registration σ ι) (w : Workshop σ ι) :
    Except GraphError Unit × Workshop σ ι :=
  w.register r.key r.node

/-- What a module does with a graph: it may look at what there is, register more, and go on or
return as the answers suggest. -/
inductive Module (σ ι : Type) where
  | finish (result : Except GraphError Unit)
  | register (r : Registration σ ι) (next : Except GraphError Unit → Module σ ι)
  | look (next : Graph σ ι → Module σ ι)

namespace Module

def run : Module σ ι → Workshop σ ι → Except GraphError Unit × Workshop σ ι
  | .finish result, w => (result, w)
  | .register r next, w => (next (r.run w).1).run (r.run w).2
  | .look next, w => (next w.graph).run w

/-- The module of one registration. -/
def single (r : Registration σ ι) : Module σ ι :=
  .register r .finish

/-- What the module tries to register, in order. -/
def registrations : Module σ ι → Workshop σ ι → List (Registration σ ι)
  | .finish _, _ => []
  | .register r next, w => r :: (next (r.run w).1).registrations (r.run w).2
  | .look next, w => (next w.graph).registrations w

/-- The module returns at its first registration that fails, with the error, and fails in no other
way. -/
inductive Strict : Module σ ι → Prop
  | finish : Strict (.finish (.ok ()))
  | register {r : Registration σ ι} {next : Except GraphError Unit → Module σ ι}
      (herror : ∀ e, next (.error e) = .finish (.error e)) (hok : Strict (next (.ok ()))) :
      Strict (.register r next)
  | look {next : Graph σ ι → Module σ ι} (h : ∀ g, Strict (next g)) : Strict (.look next)

end Module

/-- A call by which an application is put together. -/
inductive ChainCall (σ ι : Type) where
  | config (timeouts : Timeouts)
  | module (m : Module σ ι)
  | supply (key : Key) (value : ι)
  | provide (key : Key) (inputs : Inputs) (construct : Args ι → Program σ ι)
  | invoke (i : Invocation σ ι)

namespace ChainCall

def apply (b : Builder σ ι) : ChainCall σ ι → Builder σ ι
  | .config timeouts => b.withTimeouts timeouts
  | .module m => b.record m.run
  | .supply key value => b.supply key value
  | .provide key inputs construct => b.provide key inputs construct
  | .invoke i => b.invoke i

/-- What is registered by the call. -/
def module? : ChainCall σ ι → Option (Module σ ι)
  | .module m => some m
  | .supply key value => some (.single (.supply key value))
  | .provide key inputs construct => some (.single (.provide key inputs construct))
  | _ => none

/-- What is set aside by the call. -/
def invocation? : ChainCall σ ι → Option (Invocation σ ι)
  | .invoke i => some i
  | _ => none

/-- The timeouts that the call sets. -/
def timeouts? : ChainCall σ ι → Option Timeouts
  | .config timeouts => some timeouts
  | _ => none

/-- A call sets something aside, sets the timeouts, or registers by a module. -/
theorem apply_cases (call : ChainCall σ ι) :
    (∃ i, call = .invoke i) ∨ (∃ timeouts, call = .config timeouts) ∨
      ∃ m, call.module? = some m ∧ call.invocation? = none ∧ call.timeouts? = none ∧
        ∀ b : Builder σ ι, apply b call = b.record m.run := by
  cases call with
  | config timeouts => exact .inr (.inl ⟨timeouts, rfl⟩)
  | module m => exact .inr (.inr ⟨m, rfl, rfl, rfl, fun _ => rfl⟩)
  | supply key value => exact .inr (.inr ⟨_, rfl, rfl, rfl, fun _ => rfl⟩)
  | provide key inputs construct => exact .inr (.inr ⟨_, rfl, rfl, rfl, fun _ => rfl⟩)
  | invoke i => exact .inl ⟨i, rfl⟩

end ChainCall

namespace Builder

/-- An application with its lifecycle and its shutdown broadcaster, and with the graph, if it is
another one, that functions and constructors make their requests to. -/
def beginning (world : σ) (lifecycle shutdowner : ι) (beside : Option (Graph σ ι)) : Builder σ ι :=
  match beside with
  | none => new world lifecycle shutdowner
  | some graph => (new world lifecycle shutdowner).consulting graph

/-- The application that a chain of calls puts together. -/
def chain (world : σ) (lifecycle shutdowner : ι) (beside : Option (Graph σ ι))
    (calls : List (ChainCall σ ι)) : Builder σ ι :=
  calls.foldl ChainCall.apply (beginning world lifecycle shutdowner beside)

/-! ## The order of the calls -/

/-- The application with these timeouts, and with these functions set aside. -/
def put (b : Builder σ ι) (timeouts : Timeouts) (invocations : List (Invocation σ ι)) :
    Builder σ ι :=
  { b with timeouts, invocations }

/-- Registrations do not depend on timeouts and on what is set aside, and leave both alone. -/
theorem record_put (b : Builder σ ι) (timeouts : Timeouts) (invocations : List (Invocation σ ι))
    (registrations : Workshop σ ι → Except GraphError Unit × Workshop σ ι) :
    (b.put timeouts invocations).record registrations =
      (b.record registrations).put timeouts invocations := by
  obtain ⟨w, _, _, failed⟩ := b
  unfold record put
  cases failed with
  | some e => rfl
  | none =>
    simp only
    generalize registrations w = r
    obtain ⟨result, w₁⟩ := r
    cases result <;> rfl

/-- Registrations one after another. -/
def recordAll (b : Builder σ ι) (modules : List (Module σ ι)) : Builder σ ι :=
  modules.foldl (fun b m => b.record m.run) b

/-- What modules record depends neither on the timeouts nor on the invocations. -/
theorem recordAll_put (b : Builder σ ι) (timeouts : Timeouts)
    (invocations : List (Invocation σ ι)) (modules : List (Module σ ι)) :
    (b.put timeouts invocations).recordAll modules =
      (b.recordAll modules).put timeouts invocations := by
  induction modules generalizing b with
  | nil => rfl
  | cons m rest ih =>
    have hfirst := record_put b timeouts invocations m.run
    simp only [recordAll, List.foldl_cons, hfirst] at ih ⊢
    exact ih _

/-- What calls come to depends on the registrations, the invocations and the last timeouts only. -/
theorem foldl_apply (b : Builder σ ι) (calls : List (ChainCall σ ι)) :
    calls.foldl ChainCall.apply b =
      (b.recordAll (calls.filterMap ChainCall.module?)).put
        ((calls.filterMap ChainCall.timeouts?).getLast?.getD b.timeouts)
        (b.invocations ++ calls.filterMap ChainCall.invocation?) := by
  induction calls generalizing b with
  | nil => simp [recordAll, put]
  | cons call rest ih =>
    rw [List.foldl_cons, ih]
    rcases call.apply_cases with ⟨i, rfl⟩ | ⟨timeouts, rfl⟩ |
      ⟨m, hmodule, hinvocation, htimeouts, happly⟩
    · have hput : ChainCall.apply b (.invoke i) = b.put b.timeouts (b.invocations ++ [i]) := rfl
      rw [hput, recordAll_put]
      simp [ChainCall.module?, ChainCall.invocation?, ChainCall.timeouts?, put,
        List.filterMap_cons]
    · have hput : ChainCall.apply b (.config timeouts) = b.put timeouts b.invocations := rfl
      rw [hput, recordAll_put]
      simp [ChainCall.module?, ChainCall.invocation?, ChainCall.timeouts?, put,
        List.filterMap_cons, List.getLast?_cons]
    · have hkept : (b.record m.run).put b.timeouts b.invocations = b.record m.run :=
        (record_put b b.timeouts b.invocations m.run).symm
      simp only [List.filterMap_cons, hmodule, hinvocation, htimeouts, happly,
        recordAll, List.foldl_cons, ← congrArg Builder.timeouts hkept,
        ← congrArg Builder.invocations hkept]
      rfl

end Builder

/-! ## One after another -/

/-- The end of a call that always returns. -/
def Outcome.ofExcept {ε : Type} : Except ε α → Outcome ε α
  | .ok value => .ok value
  | .error cause => .error cause

section
variable {run : α → Workshop σ ι → Outcome GraphError Unit × Workshop σ ι} {w w₁ w' : Workshop σ ι}
  {a : α} {rest : List α}

/-- Does one thing after another, up to the first that does not end well. -/
def inTurn (run : α → Workshop σ ι → Outcome GraphError Unit × Workshop σ ι) :
    List α → Workshop σ ι → Outcome GraphError Unit × Workshop σ ι
  | [], w => (.ok (), w)
  | a :: rest, w =>
    match run a w with
    | (.ok (), w) => inTurn run rest w
    | (.error e, w) => (.error e, w)
    | (.interrupted why, w) => (.interrupted why, w)

/-- All things end well, each where the one before it has ended. -/
inductive AllDone (run : α → Workshop σ ι → Outcome GraphError Unit × Workshop σ ι) :
    List α → Workshop σ ι → Workshop σ ι → Prop
  | nil (w : Workshop σ ι) : AllDone run [] w w
  | cons {a : α} {rest : List α} {w w₁ w₂ : Workshop σ ι} (hfirst : run a w = (.ok (), w₁))
      (hrest : AllDone run rest w₁ w₂) : AllDone run (a :: rest) w w₂

theorem inTurn_cons_ok (h : run a w = (.ok (), w₁)) :
    inTurn run (a :: rest) w = inTurn run rest w₁ := by
  rw [inTurn, h]

/-- Nothing more is done after an action that does not succeed. -/
theorem inTurn_cons_stopped {outcome : Outcome GraphError Unit} (h : run a w = (outcome, w₁))
    (hstopped : outcome ≠ .ok ()) : inTurn run (a :: rest) w = (outcome, w₁) := by
  rw [inTurn, h]
  cases outcome with
  | ok value => exact absurd rfl hstopped
  | error e => rfl
  | interrupted why => rfl

/-- Actions in turn succeed exactly if each of them does. -/
theorem inTurn_ok_iff {as : List α} : inTurn run as w = (.ok (), w') ↔ AllDone run as w w' := by
  constructor
  · intro h
    induction as generalizing w with
    | nil =>
      cases h
      exact .nil _
    | cons a rest ih =>
      cases hfirst : run a w with | mk outcome w₁ =>
      by_cases hok : outcome = .ok ()
      · subst hok
        rw [inTurn_cons_ok hfirst] at h
        exact .cons hfirst (ih h)
      · rw [inTurn_cons_stopped hfirst hok] at h
        cases h
        exact absurd rfl hok
  · intro h
    induction h with
    | nil => rfl
    | cons hfirst _ ih => rw [inTurn_cons_ok hfirst, ih]

/-- What is done in turn stops at the first thing that does not end well, and ends as this does. -/
theorem inTurn_stopped_iff {as : List α} {outcome : Outcome GraphError Unit}
    (hstopped : outcome ≠ .ok ()) :
    inTurn run as w = (outcome, w') ↔
      ∃ before a after w₁, as = before ++ a :: after ∧ AllDone run before w w₁ ∧
        run a w₁ = (outcome, w') := by
  constructor
  · intro h
    induction as generalizing w with
    | nil =>
      cases h
      exact absurd rfl hstopped
    | cons a rest ih =>
      cases hfirst : run a w with | mk outcome₁ w₁ =>
      by_cases hok : outcome₁ = .ok ()
      · subst hok
        rw [inTurn_cons_ok hfirst] at h
        obtain ⟨before, a', after, w₂, rfl, hbefore, hlast⟩ := ih h
        exact ⟨a :: before, a', after, w₂, rfl, .cons hfirst hbefore, hlast⟩
      · rw [inTurn_cons_stopped hfirst hok] at h
        exact ⟨[], a, rest, w, rfl, .nil w, hfirst.trans h⟩
  · rintro ⟨before, a, after, w₁, rfl, hbefore, hlast⟩
    induction hbefore with
    | nil w => exact inTurn_cons_stopped hlast hstopped
    | cons hfirst _ ih =>
      rw [List.cons_append, inTurn_cons_ok hfirst]
      exact ih hlast

end

/-! ## Building -/

/-- What is done when an application is put together and built. -/
inductive BuildStep (σ ι : Type) where
  | register (m : Module σ ι)
  | invoke (i : Invocation σ ι)

def BuildStep.run (note : Notice → σ → σ) (depth : Nat) :
    BuildStep σ ι → Workshop σ ι → Outcome GraphError Unit × Workshop σ ι
  | .register m, w => (.ofExcept (m.run w).1, (m.run w).2)
  | .invoke i, w =>
    let (outcome, w) := invokeWithin note depth i.name i.inputs i.function w
    (outcome.map fun _ => (), w)

section
variable {note : Notice → σ → σ} {depth : Nat} {w w' : Workshop σ ι} {m : Module σ ι}
  {i : Invocation σ ι}

theorem BuildStep.run_register {result : Except GraphError Unit} (h : m.run w = (result, w')) :
    (BuildStep.register m).run note depth w = (.ofExcept result, w') := by
  rw [run, h]

theorem BuildStep.run_invoke {outcome : Outcome GraphError ι}
    (h : invokeWithin note depth i.name i.inputs i.function w = (outcome, w')) :
    (BuildStep.invoke i).run note depth w = (outcome.map fun _ => (), w') := by
  rw [run, h]

end

/-- All registrations of the calls, and then all invocations, in their order. -/
def buildSteps (calls : List (ChainCall σ ι)) : List (BuildStep σ ι) :=
  (calls.filterMap ChainCall.module?).map .register ++
    (calls.filterMap ChainCall.invocation?).map .invoke

namespace Builder

variable {note : Notice → σ → σ} {depth : Nat}

/-- After a failure nothing more is recorded. -/
theorem recordAll_failed {b : Builder σ ι} {e : GraphError} (h : b.failed = some e)
    (modules : List (Module σ ι)) : b.recordAll modules = b := by
  have hrecord (m : Module σ ι) : b.record m.run = b := by
    unfold record
    rw [h]
  induction modules with
  | nil => rfl
  | cons m rest ih =>
    simp only [recordAll, List.foldl_cons, hrecord] at ih ⊢
    exact ih

/-- The invocations are made one after another, as steps of the chain. -/
theorem invokeAll_eq (invocations : List (Invocation σ ι)) (w : Workshop σ ι) :
    invokeAll note depth invocations w =
      inTurn (BuildStep.run note depth) (invocations.map .invoke) w := by
  induction invocations generalizing w with
  | nil => rfl
  | cons i rest ih =>
    rw [List.map_cons, invokeAll]
    cases hinvoke : invokeWithin note depth i.name i.inputs i.function w with | mk outcome w₁ =>
    cases outcome with
    | ok value =>
      rw [inTurn_cons_ok (BuildStep.run_invoke hinvoke)]
      exact ih w₁
    | error e =>
      rw [inTurn_cons_stopped (BuildStep.run_invoke hinvoke) (by rintro ⟨⟩)]
      rfl
    | interrupted why =>
      rw [inTurn_cons_stopped (BuildStep.run_invoke hinvoke) (by rintro ⟨⟩)]
      rfl

/-- Building after registrations comes to doing the registrations before it. -/
theorem buildWithin_recordAll {b : Builder σ ι} (h : b.failed = none)
    (modules : List (Module σ ι)) :
    (b.recordAll modules).buildWithin note depth =
      inTurn (BuildStep.run note depth)
        (modules.map .register ++ b.invocations.map .invoke) b.workshop := by
  induction modules generalizing b with
  | nil =>
    unfold buildWithin
    simp only [recordAll, List.foldl_nil, h]
    exact invokeAll_eq b.invocations b.workshop
  | cons m rest ih =>
    obtain ⟨w, timeouts, invocations, failed⟩ := b
    obtain rfl : failed = none := h
    have hrun : (⟨w, timeouts, invocations, none⟩ : Builder σ ι).recordAll (m :: rest) =
        (record ⟨w, timeouts, invocations, none⟩ m.run).recordAll rest := rfl
    rw [hrun, List.map_cons, List.cons_append]
    unfold record
    simp only
    cases hm : m.run w with | mk result w₁ =>
    cases result with
    | ok =>
      rw [inTurn_cons_ok (BuildStep.run_register hm)]
      exact ih rfl
    | error e =>
      rw [inTurn_cons_stopped (BuildStep.run_register hm) (by rintro ⟨⟩),
        recordAll_failed rfl]
      rfl

/-- Building an application that was put together by calls comes to all registrations and then all
invocations. -/
theorem buildWithin_chain (world : σ) (lifecycle shutdowner : ι) (beside : Option (Graph σ ι))
    (calls : List (ChainCall σ ι)) :
    (chain world lifecycle shutdowner beside calls).buildWithin note depth =
      inTurn (BuildStep.run note depth) (buildSteps calls)
        (beginning world lifecycle shutdowner beside).workshop := by
  have hbeginning : (beginning world lifecycle shutdowner beside).failed = none ∧
      (beginning world lifecycle shutdowner beside).invocations = [] := by
    cases beside <;> exact ⟨rfl, rfl⟩
  obtain ⟨hfailed, hinvocations⟩ := hbeginning
  unfold chain
  rw [foldl_apply, hinvocations, List.nil_append, ← recordAll_put]
  exact buildWithin_recordAll (b := (beginning world lifecycle shutdowner beside).put
    ((calls.filterMap ChainCall.timeouts?).getLast?.getD _)
    (calls.filterMap ChainCall.invocation?)) hfailed _

end Builder

/-! ## While nothing is invoked -/

/-- No constructor of the graph was called. -/
def Graph.Fresh (g : Graph σ ι) : Prop :=
  ∀ key inputs construct cache, g.node? key = some (.recipe inputs construct cache) →
    cache = .fresh

section
variable {w w' : Workshop σ ι} {note : Notice → σ → σ} {depth : Nat} {key : Key}

/-- A registration leaves caches untouched and calls nothing. -/
theorem Registration.fresh (r : Registration σ ι) (h : w.graph.Fresh) :
    (r.run w).2.graph.Fresh ∧ (r.run w).2.world = w.world := by
  unfold run Workshop.register
  cases hregister : w.graph.register r.key r.node with
  | error e => exact ⟨h, rfl⟩
  | ok g =>
    refine ⟨fun k inputs construct cache hk => ?_, rfl⟩
    rcases Graph.register_ok hregister k with ⟨hnew, -⟩ | hsame
    · cases r with
      | supply key value => cases hnew.symm.trans hk
      | provide key inputs construct =>
        cases hnew.symm.trans hk
        rfl
    · exact h k inputs construct cache (hsame.symm.trans hk)

/-- A module calls no constructor and no function. -/
theorem Module.fresh (m : Module σ ι) (h : w.graph.Fresh) :
    (m.run w).2.graph.Fresh ∧ (m.run w).2.world = w.world := by
  induction m generalizing w with
  | finish result => exact ⟨h, rfl⟩
  | register r next ih =>
    obtain ⟨hfirst, hworld⟩ := r.fresh h
    obtain ⟨hlast, hworld'⟩ := ih (r.run w).1 hfirst
    exact ⟨hlast, hworld'.trans hworld⟩
  | look next ih => exact ih w.graph h

/-- A module registers, and does nothing else to a graph. -/
theorem Module.evolves (m : Module σ ι) (w : Workshop σ ι) :
    w.graph.Evolves (m.run w).2.graph := by
  induction m generalizing w with
  | finish result => exact .refl
  | register r next ih => exact (w.register_evolves r.key r.node).trans (ih _ _)
  | look next ih => exact ih _ w

theorem BuildStep.evolves (step : BuildStep σ ι) (w : Workshop σ ι) :
    w.graph.Evolves (step.run note depth w).2.graph := by
  cases step with
  | register m => exact m.evolves w
  | invoke i => exact invokeWithin_evolves note depth i.name i.inputs i.function w

/-- Steps that were all done register or change caches. -/
theorem AllDone.evolves {steps : List (BuildStep σ ι)}
    (h : AllDone (BuildStep.run note depth) steps w w') : w.graph.Evolves w'.graph := by
  induction h with
  | nil => exact .refl
  | @cons step _ w _ _ hfirst _ ih =>
    have hstep := @BuildStep.evolves _ _ note depth step w
    rw [hfirst] at hstep
    exact hstep.trans ih

/-- Registrations alone call nothing. -/
theorem AllDone.fresh {modules : List (Module σ ι)}
    (h : AllDone (BuildStep.run note depth) (modules.map .register) w w') (hfresh : w.graph.Fresh) :
    w'.graph.Fresh ∧ w'.world = w.world := by
  induction modules generalizing w with
  | nil =>
    cases h
    exact ⟨hfresh, rfl⟩
  | cons m rest ih =>
    rw [List.map_cons] at h
    cases h with | cons hfirst hrest =>
    cases congrArg Prod.snd hfirst
    obtain ⟨hmodule, hworld⟩ := m.fresh hfresh
    obtain ⟨hlast, hworld'⟩ := ih hrest hmodule
    exact ⟨hlast, hworld'.trans hworld⟩

theorem resolveWithin_value {item : Instance ι} (h : w.graph.registered? key = some (.value item)) :
    resolveWithin note depth key w = (.ok item, w) := by
  unfold resolveWithin resolveWith
  rw [Graph.registered?_eq_value.1 h]
  rfl

end

/-- A strict module does its registrations one after another, as a chain would. -/
theorem Module.Strict.run_eq {m : Module σ ι} (h : m.Strict) (note : Notice → σ → σ) (depth : Nat)
    (w : Workshop σ ι) :
    (BuildStep.register m).run note depth w =
      inTurn (BuildStep.run note depth)
        ((m.registrations w).map fun r => .register (.single r)) w := by
  induction h generalizing w with
  | finish => rfl
  | @register r next herror _ ih =>
    have hrun : (Module.register r next).run w = (next (r.run w).1).run (r.run w).2 := rfl
    cases hr : r.run w with | mk result w₁ =>
    have hsingle : (BuildStep.register (.single r)).run note depth w = (.ofExcept result, w₁) := by
      refine BuildStep.run_register ?_
      rw [← hr]
      rfl
    rw [hr] at hrun
    rw [registrations, hr, List.map_cons]
    cases result with
    | ok =>
      rw [inTurn_cons_ok hsingle, ← ih w₁, BuildStep.run, hrun]
      rfl
    | error e =>
      rw [inTurn_cons_stopped hsingle (by rintro ⟨⟩)]
      rw [herror e] at hrun
      exact BuildStep.run_register hrun
  | look _ ih => exact ih w.graph w

/-! ## Chains -/

/-- At the beginning an application holds its lifecycle and its shutdown broadcaster, and nothing
that could be made. -/
theorem Builder.beginning_holds (world : σ) (lifecycle shutdowner : ι)
    (beside : Option (Graph σ ι)) :
    let b := beginning world lifecycle shutdowner beside
    b.workshop.world = world ∧ b.workshop.graph.Fresh ∧
      b.workshop.graph.registered? (.of lifecycleType) =
        some (.value ⟨lifecycleType, lifecycle⟩) ∧
      b.workshop.graph.registered? (.of shutdownerType) =
        some (.value ⟨shutdownerType, shutdowner⟩) ∧
      b.timeouts = .standard := by
  intro b
  have hgraph : b.workshop.graph = ⟨[(.of lifecycleType, .value ⟨lifecycleType, lifecycle⟩),
      (.of shutdownerType, .value ⟨shutdownerType, shutdowner⟩)]⟩ := by
    cases beside <;> rfl
  have hfresh : b.workshop.graph.Fresh := by
    intro key inputs construct cache hnode
    rw [hgraph, Graph.node?, List.lookup_cons, List.lookup_cons, List.lookup_nil] at hnode
    split at hnode
    · cases hnode
    · split at hnode <;> cases hnode
  rw [hgraph] at hfresh ⊢
  refine ⟨?_, hfresh, rfl, rfl, ?_⟩ <;> cases beside <;> rfl

/-- Building an application that was put together by a chain of calls does all registrations, those
of modules too, and then all invocations, in the order of the calls, and ends well exactly if each
of them does. Otherwise it ends as the first of them that does not, and does nothing after it. If
this is a registration, no constructor and no function was called. A strict module does its
registrations one after another in the same way. Where invocations and timeouts stand among the
registrations does not matter, and the last timeouts count. In an application that was built, the
lifecycle and the shutdown broadcaster are its own. -/
theorem chain_built_in_order (note : Notice → σ → σ) (depth : Nat) (world : σ)
    (lifecycle shutdowner : ι) (beside : Option (Graph σ ι)) (calls : List (ChainCall σ ι)) :
    let start := (Builder.beginning world lifecycle shutdowner beside).workshop
    let app := Builder.chain world lifecycle shutdowner beside calls
    let run := BuildStep.run note depth
    (∀ w, app.buildWithin note depth = (.ok (), w) ↔ AllDone run (buildSteps calls) start w) ∧
    (∀ outcome w, outcome ≠ .ok () →
      (app.buildWithin note depth = (outcome, w) ↔ ∃ before step after w₁,
        buildSteps calls = before ++ step :: after ∧ AllDone run before start w₁ ∧
          run step w₁ = (outcome, w))) ∧
    (∀ before m after w₁ e w, calls.filterMap ChainCall.module? = before ++ m :: after →
      AllDone run (before.map .register) start w₁ → m.run w₁ = (.error e, w) →
        app.buildWithin note depth = (.error e, w) ∧ w.graph.Fresh ∧ w.world = world) ∧
    (∀ m : Module σ ι, m.Strict → ∀ w, run (.register m) w =
      inTurn run ((m.registrations w).map fun r => .register (.single r)) w) ∧
    (∀ calls' : List (ChainCall σ ι),
      calls'.filterMap ChainCall.module? = calls.filterMap ChainCall.module? →
      calls'.filterMap ChainCall.invocation? = calls.filterMap ChainCall.invocation? →
      (calls'.filterMap ChainCall.timeouts?).getLast? =
          (calls.filterMap ChainCall.timeouts?).getLast? →
        Builder.chain world lifecycle shutdowner beside calls' = app) ∧
    app.timeouts = (calls.filterMap ChainCall.timeouts?).getLast?.getD .standard ∧
    ∀ w, app.buildWithin note depth = (.ok (), w) → ∀ depth',
      resolveWithin note depth' (.of lifecycleType) w = (.ok ⟨lifecycleType, lifecycle⟩, w) ∧
      resolveWithin note depth' (.of shutdownerType) w = (.ok ⟨shutdownerType, shutdowner⟩, w) := by
  intro start app run
  have hbuild : app.buildWithin note depth = inTurn run (buildSteps calls) start :=
    Builder.buildWithin_chain world lifecycle shutdowner beside calls
  obtain ⟨hworld, hfresh, hlifecycle, hshutdowner, hstandard⟩ :
      start.world = world ∧ start.graph.Fresh ∧
      start.graph.registered? (.of lifecycleType) = some (.value ⟨lifecycleType, lifecycle⟩) ∧
      start.graph.registered? (.of shutdownerType) = some (.value ⟨shutdownerType, shutdowner⟩) ∧
      (Builder.beginning world lifecycle shutdowner beside).timeouts = .standard :=
    Builder.beginning_holds world lifecycle shutdowner beside
  rw [hbuild]
  refine ⟨?well, ?stopped, ?registration, ?strict, ?same, ?timeouts, ?own⟩
  case well => exact fun w => inTurn_ok_iff
  case stopped => exact fun outcome w hstopped => inTurn_stopped_iff hstopped
  case registration =>
    intro before m after w₁ e w hmodules hbefore hm
    obtain ⟨hfresh₁, hworld₁⟩ := hbefore.fresh hfresh
    have hlast := m.fresh hfresh₁
    rw [hm, hworld₁, hworld] at hlast
    refine ⟨(inTurn_stopped_iff (by rintro ⟨⟩)).2 ?_, hlast⟩
    refine ⟨before.map .register, .register m, after.map .register ++
      (calls.filterMap ChainCall.invocation?).map .invoke, w₁, ?_, hbefore,
      BuildStep.run_register hm⟩
    rw [buildSteps, hmodules, List.map_append, List.map_cons, List.append_assoc, List.cons_append]
  case strict => exact fun m hm w => hm.run_eq note depth w
  case same =>
    intro calls' hmodules hinvocations htimeouts
    show Builder.chain world lifecycle shutdowner beside calls' = Builder.chain _ _ _ _ calls
    unfold Builder.chain
    rw [Builder.foldl_apply, Builder.foldl_apply, hmodules, hinvocations, htimeouts]
  case timeouts =>
    show (Builder.chain world lifecycle shutdowner beside calls).timeouts = _
    unfold Builder.chain
    rw [Builder.foldl_apply, hstandard]
    rfl
  case own =>
    intro w hok depth'
    have hevolves := (inTurn_ok_iff.1 hok).evolves
    exact ⟨resolveWithin_value (hevolves.registered hlifecycle),
      resolveWithin_value (hevolves.registered hshutdowner)⟩

/-- A chain that registers a store and asks for it, then registers by a module a page and the store
once more, and then a printer. The surroundings count the calls. -/
def twiceStored : List (ChainCall Nat Nat) :=
  let counted : Args Nat → Program Nat Nat := fun _ => .read fun calls => .finish (.ok calls)
  let page : Registration Nat Nat := .provide (.of ⟨"Page"⟩) [.of "store" ⟨"Store"⟩] counted
  [ .invoke ⟨"report", [.of "store" ⟨"Store"⟩], counted⟩,
    .provide (.of ⟨"Store"⟩) [] counted,
    .module <| .register page fun
      | .error e => .finish (.error e)
      | .ok _ => .register (.supply (.of ⟨"Store"⟩) 7) .finish,
    .config ⟨1, 2⟩,
    .supply (.of ⟨"Printer"⟩) 5 ]

/-- It is refused for the second store, and neither the store was made nor a report. Without the
module the application is built, and has its own lifecycle. -/
theorem twiceStored_refused :
    let note : Notice → Nat → Nat := fun _ calls => calls + 1
    let app := Builder.chain 0 8 9 none twiceStored
    let once := Builder.chain 0 8 9 none (twiceStored.eraseIdx 2)
    ((app.buildWithin note 5).1 = .error (.duplicateRegistration (.of ⟨"Store"⟩)) ∧
        (app.buildWithin note 5).2.world = 0) ∧
      (once.buildWithin note 5).1 = .ok () ∧ (once.buildWithin note 5).2.world = 2 ∧
      (resolveWithin note 1 (.of lifecycleType) (once.buildWithin note 5).2).1 =
        .ok ⟨lifecycleType, 8⟩ := by
  intro note app once
  obtain ⟨-, -, hregistration, -⟩ := chain_built_in_order note 5 0 8 9 none twiceStored
  obtain ⟨hrefused, -, hworld⟩ :=
    hregistration [_] _ [_] _ _ _ rfl (.cons rfl (.nil _)) rfl
  obtain ⟨-, -, -, -, -, -, hown⟩ :=
    chain_built_in_order note 5 0 8 9 none (twiceStored.eraseIdx 2)
  obtain ⟨hlifecycle, -⟩ := hown _ rfl 1
  exact ⟨⟨congrArg Prod.fst hrefused, hrefused ▸ hworld⟩, rfl, rfl, congrArg Prod.fst hlifecycle⟩

end ServiceHost
