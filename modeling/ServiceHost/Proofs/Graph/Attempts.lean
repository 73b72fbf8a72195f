import ServiceHost.Proofs.Graph.Registry
import ServiceHost.Proofs.Graph.Trace

/-!
# Attempts to register

Something is registered on request, or by a constructor or a function while it runs. Each attempt at
this, with its answer and with the graph before and after it (`Attempt`), is drawn from the trace of
a call (`Attempt.of`). Attempts at another graph beside are none at the graph at work.

What a call does to a graph are its attempts, and changes of caches between them (`Graph.Tried`,
`build_tried`). Attempts are either refused, and change nothing, or add one node
(`Workshop.attempt_cases`). So the attempts alone decide which keys a graph has, and under each of
them is what was tried first (`Graph.Tried.keys`, `Graph.Tried.registered?_eq`).
-/

namespace ServiceHost

variable {σ ι α : Type}

/-- An attempt to register a node, with its answer, and the graph before and after it. -/
structure Attempt (σ ι : Type) where
  key : Key
  node : Node σ ι
  before : Graph σ ι
  result : Except GraphError Unit
  after : Graph σ ι

/-- The node was added. -/
def Attempt.accepted (a : Attempt σ ι) : Bool :=
  a.result.isOk

/-- An attempt at the graph at work. -/
def Workshop.attempt (w : Workshop σ ι) (key : Key) (node : Node σ ι) : Attempt σ ι :=
  ⟨key, node, w.graph, (w.register key node).1, (w.register key node).2.graph⟩

/-- The attempt that is made when something happens. -/
def Attempt.of : Happening σ ι → List (Attempt σ ι)
  | .registering key node w => [w.attempt key node]
  | _ => []

/-- What is tried by a request. -/
def Request.attempts (note : Notice → σ → σ) (request : Request σ ι) (w : Workshop σ ι) :
    List (Attempt σ ι) :=
  request.trace Attempt.of note w

/-! ## One attempt -/

/-- The node is as it was registered. -/
def Node.Fresh (node : Node σ ι) : Prop :=
  node.mapCache (fun _ => .fresh) = node

theorem Node.fresh_ofValue (key : Key) (value : ι) : (ofValue key value : Node σ ι).Fresh :=
  rfl

theorem Node.fresh_ofRecipe (inputs : Inputs) (construct : Args ι → Program σ ι) :
    (ofRecipe inputs construct).Fresh :=
  rfl

section
variable {w : Workshop σ ι} {key : Key} {node : Node σ ι}

/-- An attempt is refused if the key was registered before, and then the graph is as before.
Otherwise the node is added after all others. -/
theorem Workshop.attempt_cases (w : Workshop σ ι) (key : Key) (node : Node σ ι) :
    (key ∈ w.graph.keys ∧ (w.attempt key node).result = .error (.duplicateRegistration key) ∧
      (w.attempt key node).after = w.graph) ∨
    (key ∉ w.graph.keys ∧ (w.attempt key node).result = .ok () ∧
      (w.attempt key node).after.entries = w.graph.entries ++ [(key, node)]) := by
  rw [← Graph.contains_iff]
  unfold attempt register Graph.register
  cases w.graph.contains key with
  | true => exact .inl ⟨rfl, rfl, rfl⟩
  | false => exact .inr ⟨Bool.false_ne_true, rfl, rfl⟩

/-- An attempt is accepted exactly if its key is new. -/
theorem Workshop.accepted_iff : (w.attempt key node).accepted = true ↔ key ∉ w.graph.keys := by
  rw [Attempt.accepted]
  obtain ⟨hmem, hresult, -⟩ | ⟨hnew, hresult, -⟩ := w.attempt_cases key node <;> rw [hresult]
  · exact ⟨nofun, fun hnew => absurd hmem hnew⟩
  · exact ⟨fun _ => hnew, fun _ => rfl⟩

/-- The key of an attempt that is accepted comes last. -/
theorem Workshop.keys_attempt : (w.attempt key node).after.keys =
    w.graph.keys ++ ([w.attempt key node].filter (·.accepted)).map (·.key) := by
  obtain ⟨hmem, -, hafter⟩ | ⟨hnew, -, hafter⟩ := w.attempt_cases key node
  · rw [hafter, List.filter_cons_of_neg fun h => accepted_iff.1 h hmem]
    exact (List.append_nil _).symm
  · rw [Graph.keys, hafter, List.filter_cons_of_pos (accepted_iff.2 hnew), List.map_append]
    rfl

/-- A key that was tried has what it had before, or else what was tried. -/
theorem Workshop.registered?_attempt (hnode : node.Fresh) (k : Key) :
    (w.attempt key node).after.registered? k =
      (w.graph.registered? k).or (if key = k then some node else none) := by
  obtain ⟨hmem, -, hafter⟩ | ⟨hnew, -, hafter⟩ := w.attempt_cases key node
  · rw [hafter]
    split
    · next hk =>
      subst hk
      obtain ⟨node', hnode'⟩ := Option.ne_none_iff_exists'.1 (Graph.mem_keys.1 hmem)
      rw [Graph.registered?, hnode']
      rfl
    · rw [Option.or_none]
  · rw [Graph.registered?, Graph.registered?, Graph.node?, Graph.node?, hafter, List.lookup_append,
      List.lookup_cons, List.lookup_nil, Option.map_or]
    by_cases hk : key = k
    · subst hk
      rw [if_pos rfl, beq_self_eq_true]
      simp only [Option.map_some]
      rw [hnode]
    · have hoff : (k == key) = false := by simpa using Ne.symm hk
      rw [if_neg hk, hoff, Option.map_none]

end

/-! ## Attempts one after another -/

namespace Graph

/-- The second graph comes about from the first by the attempts, and by changes of caches between
them. -/
inductive Tried (g : Graph σ ι) : List (Attempt σ ι) → Graph σ ι → Prop
  | refl : Tried g [] g
  | cache {attempts : List (Attempt σ ι)} {g' : Graph σ ι} (h : Tried g attempts g') (key : Key)
      (f : Cache ι → Cache ι) : Tried g attempts (g'.mapCache key f)
  | attempt {attempts : List (Attempt σ ι)} {w : Workshop σ ι} (h : Tried g attempts w.graph)
      (key : Key) {node : Node σ ι} (hnode : node.Fresh) :
      Tried g (attempts ++ [w.attempt key node]) (w.attempt key node).after

namespace Tried

variable {g g₁ g₂ : Graph σ ι} {before after attempts : List (Attempt σ ι)} {a : Attempt σ ι}
  {key : Key} {node : Node σ ι} {w : Workshop σ ι}

theorem single (w : Workshop σ ι) (key : Key) (hnode : node.Fresh) :
    w.graph.Tried [w.attempt key node] (w.register key node).2.graph :=
  .attempt .refl key hnode

/-- Attempts one after another. -/
theorem trans (h : g.Tried before g₁) (h' : g₁.Tried after g₂) : g.Tried (before ++ after) g₂ := by
  induction h' with
  | refl =>
    rw [List.append_nil]
    exact h
  | cache _ key f ih => exact .cache ih key f
  | attempt _ key hnode ih =>
    rw [← List.append_assoc]
    exact .attempt ih key hnode

/-- Giving up changes a cache at most. -/
theorem giveUp (h : g.Tried attempts w.graph) (key : Key) (why : Option Interruption) :
    g.Tried attempts (w.giveUp key why).graph := by
  match why with
  | none => exact .cache h key _
  | some (.panic _) => exact .cache h key _
  | some (.deadlock _) => exact h
  | some .tooDeep => exact h

/-- Attempts at a graph beside leave the graph at work alone. -/
theorem consult {f : Workshop σ ι → α × Workshop σ ι} (h : w.graph.Tried attempts (f w).2.graph) :
    w.graph.Tried (w.own attempts) (w.consult f).2.graph := by
  unfold Workshop.own Workshop.consult
  cases w.beside with
  | none => exact h
  | some graph => exact .refl

/-- One attempt among others stands between what was tried before it and what was tried after it. -/
theorem split (h : g.Tried (before ++ a :: after) g₂) :
    ∃ w : Workshop σ ι, a = w.attempt a.key a.node ∧ a.node.Fresh ∧ g.Tried before w.graph ∧
      a.after.Tried after g₂ := by
  generalize hall : before ++ a :: after = all at h
  induction h generalizing after with
  | refl => exact absurd hall (List.append_ne_nil_of_right_ne_nil _ (List.cons_ne_nil _ _))
  | cache _ key f ih =>
    obtain ⟨w, ha, hnode, hbefore, hafter⟩ := ih hall
    exact ⟨w, ha, hnode, hbefore, .cache hafter key f⟩
  | @attempt attempts w h key node hnode ih =>
    obtain rfl | ⟨rest, last, rfl⟩ := after.eq_nil_or_concat
    · obtain ⟨rfl, hlast⟩ := List.append_inj' hall rfl
      obtain rfl := (List.cons.inj hlast).1
      exact ⟨w, rfl, hnode, h, .refl⟩
    · rw [List.concat_eq_append] at hall ⊢
      have hinit : (before ++ a :: rest) ++ [last] = attempts ++ [w.attempt key node] := by
        rw [← hall, List.append_assoc, List.cons_append]
      obtain ⟨hattempts, hlast⟩ := List.append_inj' hinit rfl
      obtain rfl := (List.cons.inj hlast).1
      obtain ⟨w', ha, hnode', hbefore, hafter⟩ := ih hattempts
      exact ⟨w', ha, hnode', hbefore, .attempt hafter key hnode⟩

/-! ### What the attempts decide -/

/-- The keys of a graph are those of the attempts that were not refused. -/
theorem keys (h : g.Tried attempts g₂) :
    g₂.keys = g.keys ++ (attempts.filter (·.accepted)).map (·.key) := by
  induction h with
  | refl => exact (List.append_nil _).symm
  | cache _ key f ih => rw [keys_mapCache, ih]
  | attempt _ key hnode ih =>
    rw [Workshop.keys_attempt, ih, List.filter_append, List.map_append, List.append_assoc]

/-- Under each key is what was there, or else what was tried first. -/
theorem registered?_eq (h : g.Tried attempts g₂) (key : Key) :
    g₂.registered? key =
      (g.registered? key).or ((attempts.find? (·.key = key)).map (·.node)) := by
  induction h with
  | refl => exact Option.or_none.symm
  | cache _ key' f ih => rw [registered?_mapCache, ih]
  | @attempt attempts w _ key' node hnode ih =>
    have hlast : ([w.attempt key' node].find? (·.key = key)).map (·.node) =
        if key' = key then some node else none := by
      rw [List.find?_singleton, apply_ite (Option.map _)]
      simp only [decide_eq_true_eq]
      rfl
    rw [Workshop.registered?_attempt hnode, ih, List.find?_append, Option.map_or, hlast,
      Option.or_assoc]

/-- Attempts register, and do nothing else but change caches. -/
theorem evolves (h : g.Tried attempts g₂) : g.Evolves g₂ := by
  induction h with
  | refl => exact .refl
  | cache _ key f ih => exact ih.tail (.cache ..)
  | @attempt attempts w _ key node _ ih => exact ih.trans (w.register_evolves key node)

/-- Keys are registered once. -/
theorem nodup (h : g.Tried attempts g₂) (hkeys : g.keys.Nodup) : g₂.keys.Nodup := by
  induction h with
  | refl => exact hkeys
  | cache _ key f ih => rwa [keys_mapCache]
  | @attempt attempts w _ key node _ ih =>
    obtain ⟨-, -, hafter⟩ | ⟨hnew, -, hafter⟩ := w.attempt_cases key node
    · rwa [hafter]
    · rw [Graph.keys, hafter, List.map_append, List.map_singleton, ← List.concat_eq_append]
      exact ih.concat hnew

/-- A new graph has the keys that were tried. -/
theorem mem_keys (h : empty.Tried attempts g₂) : key ∈ g₂.keys ↔ ∃ a ∈ attempts, a.key = key := by
  have hregistered := h.registered?_eq key
  have hnone : (empty : Graph σ ι).registered? key = none := rfl
  rw [hnone, Option.none_or] at hregistered
  rw [Graph.mem_keys, ne_eq, ← registered?_eq_none, hregistered, Option.map_eq_none_iff,
    List.find?_eq_none]
  simp only [decide_eq_true_eq, not_forall, not_not]
  exact ⟨fun ⟨a, ha, hk⟩ => ⟨a, ha, hk⟩, fun ⟨a, ha, hk⟩ => ⟨a, ha, hk⟩⟩

end Tried

end Graph

/-! ## What every call tries -/

variable {note : Notice → σ → σ} {depth : Nat} {w : Workshop σ ι}

/-- What a program does to a graph are its attempts, if it is so of each key that it resolves. -/
theorem Program.tried {resolve : Resolver σ ι} {told : Key → Workshop σ ι → List (Attempt σ ι)}
    (hresolve : ∀ key (w : Workshop σ ι), w.graph.Tried (told key w) (resolve key w).2.graph)
    (p : Program σ ι) (w : Workshop σ ι) :
    w.graph.Tried (p.trace Attempt.of resolve told w) (p.run resolve w).2.graph := by
  induction p generalizing w with
  | finish result => cases result <;> exact .refl
  | panic text => exact .refl
  | read next ih => exact ih w.world w
  | write world next ih => exact ih { w with world }
  | isCached key next ih => exact ih _ w
  | resolve key next ih =>
    have hfirst := (hresolve key w).consult
    unfold Program.trace Program.run
    generalize w.consult (resolve key) = r at hfirst
    obtain ⟨outcome, w₁⟩ := r
    cases outcome with
    | ok item =>
      dsimp only [Attempt.of]
      rw [List.append_nil]
      exact hfirst.trans (ih _ w₁)
    | error e => exact hfirst.trans (ih _ w₁)
    | interrupted why => exact hfirst
  | supply key value next ih =>
    have hfirst := (Graph.Tried.single w key (Node.fresh_ofValue key value)).consult
      (f := fun w => w.register key (.ofValue key value))
    exact hfirst.trans (ih _ _)
  | provide key inputs construct next _ ih =>
    have hfirst := (Graph.Tried.single w key (Node.fresh_ofRecipe inputs construct)).consult
      (f := fun w => w.register key (.ofRecipe inputs construct))
    exact hfirst.trans (ih _ _)

section
variable {find : Key → Node σ ι → Workshop σ ι → Outcome GraphError (Instance ι) × Workshop σ ι}
  {told : Key → Node σ ι → Workshop σ ι → List (Attempt σ ι)}

/-- What finding inputs does to a graph are its attempts, if it is so of each input. -/
theorem gather_tried (owner : Key)
    (hfind : ∀ key node (w : Workshop σ ι),
      w.graph.Tried (told key node w) (find key node w).2.graph) (inputs : Inputs)
    (w : Workshop σ ι) :
    w.graph.Tried (gatherTrace find told inputs w) (gather owner find inputs w).2.graph := by
  induction inputs generalizing w with
  | nil => exact .refl
  | cons p rest ih =>
    unfold gatherTrace
    cases hnode : w.graph.node? p.key with
    | none =>
      cases hoptional : p.optional with
      | false =>
        rw [gather_missing hnode hoptional]
        exact .refl
      | true =>
        rw [gather_absent hnode hoptional]
        exact ih w
    | some node =>
      have hfirst := hfind p.key node w
      dsimp only
      obtain ⟨outcome, w₁, hfound⟩ : ∃ outcome w₁, find p.key node w = (outcome, w₁) := ⟨_, _, rfl⟩
      rw [hfound] at hfirst ⊢
      cases outcome with
      | error e =>
        rw [gather_failed hnode hfound]
        exact hfirst
      | interrupted why =>
        rw [gather_interrupted hnode hfound]
        exact hfirst
      | ok item =>
        rw [gather_present hnode hfound]
        exact hfirst.trans (ih w₁)

/-- What resolving a key does to a graph are its attempts, if it is so of every construction. -/
theorem resolveWith_tried
    (hbuild : ∀ key node (w : Workshop σ ι),
      w.graph.Tried (told key node w) (find key node w).2.graph) (key : Key)
    (w : Workshop σ ι) :
    w.graph.Tried (resolveTrace Attempt.of told key w) (resolveWith find key w).2.graph := by
  unfold resolveTrace resolveWith
  cases w.graph.node? key with
  | none => exact .refl
  | some node =>
    dsimp only
    cases node.available with
    | some item => exact .refl
    | none =>
      dsimp only [Attempt.of]
      rw [List.nil_append]
      cases w.graph.verify key node with
      | error e => exact .refl
      | ok => exact hbuild key node w

end

/-- What a construction does to a graph are its attempts. -/
theorem build_tried (note : Notice → σ → σ) (depth : Nat) (path : List Key) (key : Key)
    (node : Node σ ι) (w : Workshop σ ι) :
    w.graph.Tried (buildTrace Attempt.of note depth path key node w)
      (build note depth path key node w).2.graph := by
  induction depth generalizing path key node w with
  | zero => cases node <;> exact .refl
  | succ depth ih =>
    cases node with
    | value item => exact .refl
    | recipe inputs construct cache =>
      unfold buildTrace build
      by_cases hpath : key ∈ path
      · rw [if_pos hpath, if_pos (.inl hpath)]
        exact .refl
      cases hlocked : cache.locked with
      | true =>
        rw [if_neg hpath, if_pos rfl, if_pos (.inr (.inl rfl))]
        exact .refl
      | false =>
      cases hmade : cache.made with
      | some item =>
        rw [if_neg hpath, if_neg Bool.false_ne_true, if_pos (.inr (.inr rfl))]
        exact .refl
      | none =>
        rw [if_neg hpath, if_neg Bool.false_ne_true, if_neg (by simp [hpath])]
        have hlock : w.graph.Tried [] (w.graph.lock key) := .cache .refl key _
        have hgather := hlock.trans (gather_tried key (ih (path ++ [key])) inputs
          { w with graph := w.graph.lock key })
        dsimp only [Attempt.of]
        generalize gather key (build note depth (path ++ [key])) inputs
          { w with graph := w.graph.lock key } = r at hgather
        obtain ⟨outcome, w₁⟩ := r
        cases outcome with
        | error e => exact (hgather.giveUp key none).trans .refl
        | interrupted why => exact (hgather.giveUp key (some why)).trans .refl
        | ok entries =>
          have hrun := hgather.trans (Program.tried (resolveWith_tried (ih []))
            (construct ⟨key, entries⟩) { w₁ with world := note (.constructing key) w₁.world })
          dsimp only
          generalize (construct ⟨key, entries⟩).run (resolveWith (build note depth []))
            { w₁ with world := note (.constructing key) w₁.world } = r at hrun ⊢
          obtain ⟨outcome, w₂⟩ := r
          rw [List.nil_append]
          cases outcome with
          | ok value =>
            rw [List.append_nil]
            exact .cache hrun key _
          | error failure =>
            rw [List.append_nil]
            exact hrun.giveUp key none
          | interrupted why =>
            rw [List.append_nil]
            exact hrun.giveUp key (some why)

/-- What a resolution does to a graph are its attempts. -/
theorem resolveWithin_tried (note : Notice → σ → σ) (depth : Nat) (key : Key)
    (w : Workshop σ ι) :
    w.graph.Tried (resolveWithinTrace Attempt.of note depth key w)
      (resolveWithin note depth key w).2.graph :=
  resolveWith_tried (build_tried note depth []) key w

/-- What finding an input of an invocation does to a graph are its attempts. -/
theorem fetch_tried (note : Notice → σ → σ) (depth : Nat) (owner key : Key) (node : Node σ ι)
    (w : Workshop σ ι) :
    w.graph.Tried (fetchTrace Attempt.of note depth owner key node w)
      (fetch note depth owner key node w).2.graph := by
  unfold fetchTrace fetch
  cases w.graph.verify key node with
  | error e => exact .refl
  | ok => exact build_tried note depth [owner] key node w

/-- What an invocation does to a graph are its attempts. -/
theorem invokeWithin_tried (note : Notice → σ → σ) (depth : Nat) (name : String)
    (inputs : Inputs) (function : Args ι → Program σ ι) (w : Workshop σ ι) :
    w.graph.Tried (invokeTrace Attempt.of note depth name inputs function w)
      (invokeWithin note depth name inputs function w).2.graph := by
  have hgather := gather_tried (invocationKey name) (fetch_tried note depth (invocationKey name))
    inputs w
  rw [invokeWithin_eq]
  unfold invokeTrace
  dsimp only [Attempt.of]
  generalize gather (invocationKey name) (fetch note depth (invocationKey name)) inputs w = r
    at hgather
  obtain ⟨outcome, w₁⟩ := r
  cases outcome with
  | error e => exact hgather.trans .refl
  | interrupted why => exact hgather.trans .refl
  | ok entries =>
    have hrun := hgather.trans (Program.tried (resolveWithin_tried note depth)
      (function ⟨invocationKey name, entries⟩)
      { w₁ with world := note (.invoking (invocationKey name)) w₁.world })
    dsimp only
    generalize (function ⟨invocationKey name, entries⟩).run (resolveWithin note depth)
      { w₁ with world := note (.invoking (invocationKey name)) w₁.world } = r at hrun
    obtain ⟨outcome, w₂⟩ := r
    rw [List.nil_append]
    cases outcome <;> exact hrun

/-- What a request does to a graph are its attempts. -/
theorem Request.tried (note : Notice → σ → σ) (request : Request σ ι) (w : Workshop σ ι) :
    w.graph.Tried (request.attempts note w) (request.reply note w).2.graph := by
  cases request with
  | live world => exact .refl
  | supply key value => exact .single w key (Node.fresh_ofValue key value)
  | provide key inputs construct => exact .single w key (Node.fresh_ofRecipe inputs construct)
  | invoke depth name inputs function =>
    exact invokeWithin_tried note depth name inputs function w
  | resolve depth key =>
    -- the component that is handed out is no attempt
    have hquiet : (Request.resolve depth key).attempts note w =
        resolveWithinTrace Attempt.of note depth key w := by
      unfold Request.attempts Request.trace
      dsimp only [Attempt.of]
      split <;> exact List.append_nil _
    rw [hquiet]
    exact resolveWithin_tried note depth key w

end ServiceHost
