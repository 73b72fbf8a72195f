import ServiceHost.Proofs.Graph.Build

/-!
# Histories of a graph

A graph comes about by requests, one after another: values and constructors are registered, keys are
resolved, and functions are invoked, which make requests in their turn. `Workshop.Reached` are the
graphs that come about in this way, from constructors that make no requests themselves, together
with the interruptions that the requests ended in. Between two requests no component is under
construction whatever failed or panicked before, and nothing is marked if nothing panicked
(`Workshop.Reached.rested`).
-/

namespace ServiceHost

variable {σ ι : Type}

/-- No construction has ended in a panic. -/
def Graph.Unmarked (g : Graph σ ι) : Prop :=
  ∀ key, ¬ g.Marked key

/-- The constructors that the program registers make no requests, on any answers. -/
inductive Program.Orderly : Program σ ι → Prop
  | finish (result : Except Failure ι) : Orderly (.finish result)
  | panic (text : String) : Orderly (.panic text)
  | read {next : σ → Program σ ι} (h : ∀ world, Orderly (next world)) : Orderly (.read next)
  | write (world : σ) {next : Program σ ι} (h : Orderly next) : Orderly (.write world next)
  | isCached (key : Key) {next : Bool → Program σ ι} (h : ∀ answer, Orderly (next answer)) :
      Orderly (.isCached key next)
  | resolve (key : Key) {next : Except GraphError (Instance ι) → Program σ ι}
      (h : ∀ answer, Orderly (next answer)) : Orderly (.resolve key next)
  | supply (key : Key) (value : ι) {next : Except GraphError Unit → Program σ ι}
      (h : ∀ answer, Orderly (next answer)) : Orderly (.supply key value next)
  | provide (key : Key) (inputs : Inputs) {construct : Args ι → Program σ ι}
      {next : Except GraphError Unit → Program σ ι} (hconstruct : ∀ args, (construct args).Detached)
      (h : ∀ answer, Orderly (next answer)) : Orderly (.provide key inputs construct next)

namespace Workshop

/-- The graph at work after some requests, and the interruptions that they ended in. -/
inductive Reached (note : Notice → σ → σ) : List Interruption → Workshop σ ι → Prop
  | new (world : σ) : Reached note [] ⟨.empty, none, world⟩
  /-- The surroundings change on their own. -/
  | live {whys w} (h : Reached note whys w) (world : σ) : Reached note whys { w with world }
  | supply {whys w} (h : Reached note whys w) (key : Key) (value : ι) :
      Reached note whys (w.register key (.ofValue key value)).2
  | provide {whys w} (h : Reached note whys w) (key : Key) (inputs : Inputs)
      {construct : Args ι → Program σ ι} (hconstruct : ∀ args, (construct args).Detached) :
      Reached note whys (w.register key (.ofRecipe inputs construct)).2
  | resolve {whys w} (h : Reached note whys w) (depth : Nat) (key : Key) :
      Reached note (whys ++ (resolveWithin note depth key w).1.interruption?.toList)
        (resolveWithin note depth key w).2
  | invoke {whys w} (h : Reached note whys w) (depth : Nat) (name : String) (inputs : Inputs)
      {function : Args ι → Program σ ι} (hfunction : ∀ args, (function args).Orderly) :
      Reached note
        (whys ++ (invokeWithin note depth name inputs function w).1.interruption?.toList)
        (invokeWithin note depth name inputs function w).2

/-- No component is under construction, and no constructor makes requests. -/
structure Idle (w : Workshop σ ι) : Prop where
  beside : w.beside = none
  unlocked : w.graph.LockedIn []
  detached : w.graph.Detached

/-- A request that ends in this way leaves an idle graph idle, and unmarked unless it panicked. -/
structure Rested (w : Workshop σ ι) (why : Option Interruption) (w' : Workshop σ ι) : Prop where
  idle : w'.Idle
  unmarked : (∀ text, why ≠ some (.panic text)) → w.graph.Unmarked → w'.graph.Unmarked

variable {w w₁ w₂ : Workshop σ ι} {why : Option Interruption}

theorem Idle.still (h : w.Idle) (world : σ) : w.Rested none { w with world } :=
  ⟨⟨h.beside, h.unlocked, h.detached⟩, fun _ h => h⟩

theorem Rested.and_then (h : w.Rested none w₁) (h' : w₁.Rested why w₂) : w.Rested why w₂ :=
  ⟨h'.idle, fun hcalm hclean => h'.unmarked hcalm (h.unmarked nofun hclean)⟩

theorem Kept.rested (h : w.Kept why w₁) (hidle : w.Idle) : w.Rested why w₁ where
  idle := ⟨h.beside.trans hidle.beside, h.grown.lockedIn hidle.unlocked,
    h.grown.detached hidle.detached⟩
  unmarked hcalm hclean key hmark := hclean key (h.calm hcalm key hmark)

/-- A new node is unlocked and unmarked, and its constructor makes no requests. -/
theorem Idle.register (h : w.Idle) (key : Key) {node : Node σ ι}
    (hnode : ∀ inputs construct cache, node = .recipe inputs construct cache →
      cache = .fresh ∧ ∀ args, (construct args).Detached) :
    w.Rested none (w.register key node).2 := by
  unfold Workshop.register
  cases hregister : w.graph.register key node with
  | error => exact h.still w.world
  | ok g =>
    have hafter := Graph.register_ok hregister
    refine ⟨⟨h.beside, ?_, ?_⟩, fun _ hclean => ?_⟩
    · intro k inputs construct cache hk hlocked
      rcases hafter k with ⟨hnew, _⟩ | hsame
      · obtain ⟨rfl, _⟩ := hnode _ _ _ (Option.some.inj (hnew.symm.trans hk))
        cases hlocked
      · exact h.unlocked k inputs construct cache (hsame ▸ hk) hlocked
    · intro k inputs construct cache hk args
      rcases hafter k with ⟨hnew, _⟩ | hsame
      · exact (hnode _ _ _ (Option.some.inj (hnew.symm.trans hk))).2 args
      · exact h.detached k inputs construct cache (hsame ▸ hk) args
    · rintro k ⟨inputs, construct, cache, hk, hpoisoned⟩
      rcases hafter k with ⟨hnew, _⟩ | hsame
      · obtain ⟨rfl, _⟩ := hnode _ _ _ (Option.some.inj (hnew.symm.trans hk))
        cases hpoisoned
      · exact hclean k ⟨inputs, construct, cache, hsame ▸ hk, hpoisoned⟩

theorem Idle.supply (h : w.Idle) (key : Key) (value : ι) :
    w.Rested none (w.register key (.ofValue key value)).2 :=
  h.register key nofun

theorem Idle.provide (h : w.Idle) (key : Key) (inputs : Inputs)
    {construct : Args ι → Program σ ι} (hconstruct : ∀ args, (construct args).Detached) :
    w.Rested none (w.register key (.ofRecipe inputs construct)).2 := by
  refine h.register key ?_
  rintro _ _ _ ⟨⟩
  exact ⟨rfl, hconstruct⟩

end Workshop

variable {w : Workshop σ ι} {note : Notice → σ → σ} {depth : Nat}

/-- Resolving a key leaves what the construction of its component leaves. -/
theorem resolve_kept (h : w.Idle) (key : Key)
    (hdeep : (resolveWithin note depth key w).1.interruption? ≠ some .tooDeep) :
    w.Kept (resolveWithin note depth key w).1.interruption? (resolveWithin note depth key w).2 := by
  unfold resolveWithin resolveWith at hdeep ⊢
  cases hnode : w.graph.node? key with
  | none => exact .still w w.world
  | some node =>
    simp only [hnode] at hdeep ⊢
    cases havailable : node.available with
    | some item => exact .still w w.world
    | none =>
      simp only [havailable] at hdeep ⊢
      cases hverify : w.graph.verify key node with
      | error e => exact .still w w.world
      | ok =>
        rw [hverify] at hdeep
        exact build_kept note depth [] key node w h.detached h.unlocked hnode hdeep

/-- A program that registers orderly constructors leaves an idle graph idle. -/
theorem Program.Orderly.run {p : Program σ ι} (hp : p.Orderly) (h : w.Idle)
    (hdeep : (p.run (resolveWithin note depth) w).1.interruption? ≠ some .tooDeep) :
    w.Rested (p.run (resolveWithin note depth) w).1.interruption?
      (p.run (resolveWithin note depth) w).2 := by
  induction hp generalizing w with
  | finish result => cases result <;> exact h.still w.world
  | panic text => exact ⟨h, (absurd rfl <| · text)⟩
  | read _ ih => exact ih w.world h hdeep
  | write world _ ih =>
    have hwrite := h.still world
    exact hwrite.and_then (ih hwrite.idle hdeep)
  | isCached key _ ih => exact ih _ h hdeep
  | resolve key _ ih =>
    have hresolve := @resolve_kept _ _ w note depth h key
    unfold Program.run Workshop.consult at hdeep ⊢
    rw [h.beside] at hdeep ⊢
    simp only at hdeep ⊢
    generalize resolveWithin note depth key w = r at hdeep hresolve
    obtain ⟨outcome, w₁⟩ := r
    cases outcome with
    | ok item =>
      have hfirst : w.Rested none w₁ := (hresolve nofun).rested h
      exact hfirst.and_then (ih _ hfirst.idle hdeep)
    | error e =>
      have hfirst : w.Rested none w₁ := (hresolve nofun).rested h
      exact hfirst.and_then (ih _ hfirst.idle hdeep)
    | interrupted why => exact (hresolve hdeep).rested h
  | supply key value _ ih =>
    have hfirst := h.supply key value
    unfold Program.run Workshop.consult at hdeep ⊢
    rw [h.beside] at hdeep ⊢
    exact hfirst.and_then (ih _ hfirst.idle hdeep)
  | provide key inputs hconstruct _ ih =>
    have hfirst := h.provide key inputs hconstruct
    unfold Program.run Workshop.consult at hdeep ⊢
    rw [h.beside] at hdeep ⊢
    exact hfirst.and_then (ih _ hfirst.idle hdeep)

/-- How an invocation finds the component of an input. -/
def fetch (note : Notice → σ → σ) (depth : Nat) (owner key : Key) (node : Node σ ι)
    (w : Workshop σ ι) : Outcome GraphError (Instance ι) × Workshop σ ι :=
  match w.graph.verify key node with
  | .error e => (.error e, w)
  | .ok () => build note depth [owner] key node w

/-- Finding an input of an invocation gives back every lock. -/
theorem fetch_kept {owner key : Key} {node : Node σ ι} (hlocks : w.graph.LockedIn [])
    (hdetached : w.graph.Detached) (hnode : w.graph.node? key = some node)
    (hdeep : (fetch note depth owner key node w).1.interruption? ≠ some .tooDeep) :
    w.Kept (fetch note depth owner key node w).1.interruption?
      (fetch note depth owner key node w).2 := by
  unfold fetch at hdeep ⊢
  cases hverify : w.graph.verify key node with
  | error e => exact .still w w.world
  | ok =>
    rw [hverify] at hdeep
    have hlocks : w.graph.LockedIn [owner] := fun k inputs construct cache hk hlocked =>
      absurd (hlocks k inputs construct cache hk hlocked) List.not_mem_nil
    exact build_kept note depth [owner] key node w hdetached hlocks hnode hdeep

/-- A call gathers its inputs first, and runs the function if all of them could be had. -/
theorem invokeWithin_eq (depth : Nat) (name : String) (inputs : Inputs)
    (function : Args ι → Program σ ι) (w : Workshop σ ι) :
    invokeWithin note depth name inputs function w =
      match gather (invocationKey name) (fetch note depth (invocationKey name)) inputs w with
      | (.error e, w) => (.error e, w)
      | (.interrupted why, w) => (.interrupted why, w)
      | (.ok entries, w) =>
        match (function ⟨invocationKey name, entries⟩).run (resolveWithin note depth)
            { w with world := note (.invoking (invocationKey name)) w.world } with
        | (.ok value, w) => (.ok value, w)
        | (.error failure, w) => (.error (.invokeFailed name failure), w)
        | (.interrupted why, w) => (.interrupted why, w) :=
  rfl

/-- Invoking a function leaves what finding its inputs and its own requests leave. -/
theorem invoke_rested (h : w.Idle) (name : String) (inputs : Inputs)
    {function : Args ι → Program σ ι} (hfunction : ∀ args, (function args).Orderly)
    (hdeep : (invokeWithin note depth name inputs function w).1.interruption? ≠ some .tooDeep) :
    w.Rested (invokeWithin note depth name inputs function w).1.interruption?
      (invokeWithin note depth name inputs function w).2 := by
  have hgather := @gather_kept _ _ (invocationKey name) (fetch note depth (invocationKey name))
    inputs w fun key node w' hgrown hnode =>
      fetch_kept (hgrown.lockedIn h.unlocked) (hgrown.detached h.detached) hnode
  rw [invokeWithin_eq] at hdeep ⊢
  generalize gather (invocationKey name) (fetch note depth (invocationKey name)) inputs w = r
    at hdeep hgather
  obtain ⟨outcome, w₁⟩ := r
  cases outcome with
  | error e => exact (hgather nofun).rested h
  | interrupted why => exact (hgather hdeep).rested h
  | ok entries =>
    have hfirst : w.Rested none w₁ := (hgather nofun).rested h
    have hsecond := hfirst.and_then (hfirst.idle.still
      (note (.invoking (invocationKey name)) w₁.world))
    have hrun := @Program.Orderly.run _ _ _ note depth _ (hfunction ⟨invocationKey name, entries⟩)
      hsecond.idle
    simp only at hdeep ⊢
    generalize (function ⟨invocationKey name, entries⟩).run (resolveWithin note depth)
      { w₁ with world := note (.invoking (invocationKey name)) w₁.world } = r at hdeep hrun
    obtain ⟨outcome, w₂⟩ := r
    cases outcome <;> exact hsecond.and_then (hrun hdeep)

namespace Workshop

/-- After any requests, however they ended, no component is under construction. Nothing is marked if
none of them ended in a panic. -/
theorem Reached.rested {whys : List Interruption} (h : Reached note whys w)
    (hdeep : .tooDeep ∉ whys) :
    w.Idle ∧ ((∀ text, .panic text ∉ whys) → w.graph.Unmarked) := by
  induction h with
  | new world =>
    refine ⟨⟨rfl, nofun, nofun⟩, ?_⟩
    rintro - key ⟨_, _, _, hnode, _⟩
    cases hnode
  | live _ world ih =>
    obtain ⟨hidle, hunmarked⟩ := ih hdeep
    exact ⟨(hidle.still world).idle, hunmarked⟩
  | supply _ key value ih =>
    obtain ⟨hidle, hunmarked⟩ := ih hdeep
    have hlast := hidle.supply key value
    exact ⟨hlast.idle, fun hcalm => hlast.unmarked nofun (hunmarked hcalm)⟩
  | provide _ key inputs hconstruct ih =>
    obtain ⟨hidle, hunmarked⟩ := ih hdeep
    have hlast := hidle.provide key inputs hconstruct
    exact ⟨hlast.idle, fun hcalm => hlast.unmarked nofun (hunmarked hcalm)⟩
  | resolve _ depth key ih =>
    simp only [List.mem_append, not_or, Option.mem_toList] at hdeep ⊢
    obtain ⟨hidle, hunmarked⟩ := ih hdeep.1
    have hlast := (resolve_kept hidle key hdeep.2).rested hidle
    exact ⟨hlast.idle, fun hcalm => hlast.unmarked (fun text => (hcalm text).2)
      (hunmarked fun text => (hcalm text).1)⟩
  | invoke _ depth name inputs hfunction ih =>
    simp only [List.mem_append, not_or, Option.mem_toList] at hdeep ⊢
    obtain ⟨hidle, hunmarked⟩ := ih hdeep.1
    have hlast := invoke_rested hidle name inputs hfunction hdeep.2
    exact ⟨hlast.idle, fun hcalm => hlast.unmarked (fun text => (hcalm text).2)
      (hunmarked fun text => (hcalm text).1)⟩

end Workshop

end ServiceHost
