import ServiceHost.Proofs.Graph.Softened

/-!
# What a panic leaves to be seen

Requests are made to two graphs alike, but some calls that panic at the first one fail at the
second. Each call at the second graph goes alongside the one at the first (`Alongside`): it comes to
the same, or fails where that panicked, the same is seen of it, and the graphs are softened again.
The way of a construction depends on no mark (`build_alongside`), and that of a check on none as
long as no key is misjudged; so the answers to all requests and the calls of constructors are the
same in whole histories of which this is true (`panics_recovered_as_failures`). It is not true of
all of them: an optional input that is registered later, and lacks something, spoils what was made
from it before if a panic had marked that (`latePanic_not_recovered`).
-/

namespace ServiceHost

variable {σ ι ε α : Type}

/-- The second of two calls goes alongside the first. -/
structure Alongside (failed : ε → Prop) (seen seen' : List (Deed σ ι))
    (r r' : Outcome ε α × Workshop σ ι) : Prop where
  outcome : r.1.Softened failed r'.1
  seen : List.Forall₂ Deed.Softened seen seen'
  after : r.2.Softened r'.2

/-- What was seen before is the like, too. -/
theorem Alongside.follow {failed : ε → Prop} {seen seen' before before' : List (Deed σ ι)}
    {r r' : Outcome ε α × Workshop σ ι} (hbefore : List.Forall₂ Deed.Softened before before')
    (h : Alongside failed seen seen' r r') :
    Alongside failed (before ++ seen) (before' ++ seen') r r' :=
  ⟨h.outcome, List.rel_append hbefore h.seen, h.after⟩

/-! ## The graph at work -/

namespace Workshop.Softened

variable {w w' : Workshop σ ι} {key : Key}

theorem note (h : w.Softened w') (world : σ) :
    Softened { w with world } { w' with world } :=
  ⟨h.graph, h.beside, h.beside', rfl⟩

theorem mapCache (h : w.Softened w') (key : Key) {f f' : Cache ι → Cache ι}
    (hf : ∀ c c', c.Softened c' → (f c).Softened (f' c')) :
    Softened { w with graph := w.graph.mapCache key f }
      { w' with graph := w'.graph.mapCache key f' } :=
  ⟨h.graph.mapCache key hf, h.beside, h.beside', h.world⟩

/-- Both constructions give up in the same way. -/
theorem giveUp (h : w.Softened w') (key : Key) (why : Option Interruption) :
    (w.giveUp key why).Softened (w'.giveUp key why) := by
  match why with
  | none => exact h.mapCache key fun _ _ hc => ⟨hc.made, rfl, hc.poisoned⟩
  | some (.panic _) => exact h.mapCache key fun _ _ hc => ⟨hc.made, rfl, fun _ => rfl⟩
  | some (.deadlock _) => exact h
  | some .tooDeep => exact h

/-- The first construction panicked, and the second failed. -/
theorem giveUp_failed (h : w.Softened w') (key : Key) (text : String) :
    (w.giveUp key (some (.panic text))).Softened (w'.giveUp key none) :=
  h.mapCache key fun _ _ hc => ⟨hc.made, rfl, fun _ => rfl⟩

/-- A registration ends alike in both graphs. -/
theorem register (h : w.Softened w') (key : Key) {node node' : Node σ ι}
    (hnode : node.Softened node') :
    (w'.register key node').1 = (w.register key node).1 ∧
      (w.register key node).2.Softened (w'.register key node').2 := by
  have hsame := h.graph.contains key
  unfold Workshop.register Graph.register
  cases hnew : w.graph.contains key with
  | true =>
    rw [hnew] at hsame
    rw [if_pos hsame]
    exact ⟨rfl, h⟩
  | false =>
    rw [hnew] at hsame
    rw [hsame]
    exact ⟨rfl, List.rel_append h.graph (.cons ⟨rfl, hnode⟩ .nil), h.beside, h.beside', h.world⟩

end Workshop.Softened

theorem Workshop.Softened.supplyDeeds {w w' : Workshop σ ι} (h : w.Softened w') (key : Key)
    (value : ι) : w'.supplyDeeds key value = w.supplyDeeds key value := by
  rw [Workshop.supplyDeeds, h.graph.contains, Workshop.supplyDeeds]

/-! ## Programs -/

/-- A softened program goes alongside the other, if resolving each key does. -/
theorem Program.Softened.alongside {resolve resolve' : Resolver σ ι} {seen seen' : Witness σ ι}
    (hresolve : ∀ key (w w' : Workshop σ ι), w.Softened w' → (∀ d ∈ seen key w, d.Fair) →
      Alongside GraphError.OfConstructor (seen key w) (seen' key w') (resolve key w)
        (resolve' key w'))
    {p p' : Program σ ι} (hp : p.Softened p') {w w' : Workshop σ ι} (h : w.Softened w')
    (hfair : ∀ d ∈ p.trace Deed.of resolve seen w, d.Fair) :
    Alongside (fun _ => True) (p.trace Deed.of resolve seen w) (p'.trace Deed.of resolve' seen' w')
      (p.run resolve w) (p'.run resolve' w') := by
  induction hp generalizing w w' with
  | finish result => cases result <;> exact ⟨.same _, .nil, h⟩
  | panic text => exact ⟨.same _, .nil, h⟩
  | failure text failure => exact ⟨.failure text trivial, .nil, h⟩
  | read _ ih =>
    unfold Program.trace Program.run
    rw [h.world]
    exact ih w.world h hfair
  | write world _ ih => exact ih (h.note world) hfair
  | resolve key _ hfail ih =>
    have hfirst := hresolve key w w' h
    unfold Program.trace at hfair
    unfold Program.trace Program.run
    simp only [Workshop.consult_of_beside h.beside, Workshop.consult_of_beside h.beside',
      Workshop.own_of_beside h.beside, Workshop.own_of_beside h.beside'] at hfair ⊢
    generalize resolve key w = r, resolve' key w' = r' at hfirst hfair
    obtain ⟨outcome, w₁⟩ := r
    obtain ⟨outcome', w₁'⟩ := r'
    cases outcome with
    | ok item =>
      simp only [List.forall_mem_append] at hfair
      obtain ⟨houtcome, hseen, hafter⟩ := hfirst hfair.1.1
      cases houtcome
      exact (ih _ hafter hfair.2).follow (List.rel_append hseen (Deed.Softened.refl _))
    | error e =>
      simp only [List.forall_mem_append] at hfair
      obtain ⟨houtcome, hseen, hafter⟩ := hfirst hfair.1
      cases houtcome
      exact (ih _ hafter hfair.2).follow hseen
    | interrupted why =>
      obtain ⟨houtcome, hseen, hafter⟩ := hfirst hfair
      cases houtcome with
      | same => exact ⟨.same _, hseen, hafter⟩
      | failure text hfailed =>
        -- the failure that came instead of the panic is passed on at once
        obtain ⟨owner, failure, rfl⟩ := hfailed
        obtain ⟨failure', hgives⟩ := hfail owner failure
        simp only [hgives, Program.trace, Program.run, List.append_nil]
        exact ⟨.failure text trivial, hseen, hafter⟩
  | supply key value _ ih =>
    have hnode : (Node.ofValue key value : Node σ ι).Softened (.ofValue key value) := .value _
    obtain ⟨hanswer, hafter⟩ := h.register key hnode
    unfold Program.trace at hfair
    unfold Program.trace Program.run
    simp only [Workshop.consult_of_beside h.beside, Workshop.consult_of_beside h.beside',
      Workshop.own_of_beside h.beside, Workshop.own_of_beside h.beside', Deed.of_supply,
      List.forall_mem_append] at hfair ⊢
    rw [h.supplyDeeds, hanswer]
    exact (ih _ hafter hfair.2).follow (Deed.Softened.refl _)
  | @provide key inputs construct construct' _ _ hconstruct _ _ ih =>
    have hnode : (Node.ofRecipe inputs construct).Softened (.ofRecipe inputs construct') :=
      .recipe inputs hconstruct ⟨rfl, rfl, fun h => h⟩
    obtain ⟨hanswer, hafter⟩ := h.register key hnode
    unfold Program.trace at hfair
    unfold Program.trace Program.run
    simp only [Workshop.consult_of_beside h.beside, Workshop.consult_of_beside h.beside',
      Deed.of_provide, Workshop.own_nil, List.nil_append] at hfair ⊢
    rw [hanswer]
    exact ih _ hafter hfair

/-! ## Constructions -/

section
variable {find find' : Key → Node σ ι → Workshop σ ι →
    Outcome GraphError (Instance ι) × Workshop σ ι}
  {seen seen' : Key → Node σ ι → Workshop σ ι → List (Deed σ ι)}

/-- Finding the components of inputs goes alongside if finding each of them does. -/
theorem gather_alongside (owner : Key)
    (hfind : ∀ key node node' (w w' : Workshop σ ι), w.Softened w' →
      w.graph.node? key = some node → w'.graph.node? key = some node' →
      (∀ d ∈ seen key node w, d.Fair) → Alongside GraphError.OfConstructor (seen key node w)
        (seen' key node' w') (find key node w) (find' key node' w'))
    {inputs : Inputs} {w w' : Workshop σ ι} (h : w.Softened w')
    (hfair : ∀ d ∈ gatherTrace find seen inputs w, d.Fair) :
    Alongside GraphError.OfConstructor (gatherTrace find seen inputs w)
      (gatherTrace find' seen' inputs w') (gather owner find inputs w)
      (gather owner find' inputs w') := by
  induction inputs generalizing w w' with
  | nil => exact ⟨.same _, .nil, h⟩
  | cons p rest ih =>
    unfold gatherTrace at hfair
    unfold gatherTrace gather
    cases hnode : w.graph.node? p.key with
    | none =>
      rw [h.graph.node_none.2 hnode]
      simp only [hnode] at hfair
      cases hoptional : p.optional with
      | false => exact ⟨.same _, .nil, h⟩
      | true =>
        rw [hoptional] at hfair
        obtain ⟨houtcome, hseen, hafter⟩ := ih h hfair
        simp only [if_true]
        generalize gather owner find rest w = r, gather owner find' rest w' = r'
          at houtcome hafter
        obtain ⟨outcome, w₁⟩ := r
        obtain ⟨outcome', w₁'⟩ := r'
        cases houtcome with
        | failure text hfailed => exact ⟨.failure text hfailed, hseen, hafter⟩
        | same => cases outcome <;> exact ⟨.same _, hseen, hafter⟩
    | some node =>
      obtain ⟨node', hnode', -⟩ := h.graph.node_some hnode
      simp only [hnode] at hfair
      simp only [hnode']
      have hfirst := hfind p.key node node' w w' h hnode hnode'
      generalize find p.key node w = r, find' p.key node' w' = r' at hfirst hfair
      obtain ⟨outcome, w₁⟩ := r
      obtain ⟨outcome', w₁'⟩ := r'
      cases outcome with
      | error e =>
        obtain ⟨houtcome, hseen, hafter⟩ := hfirst hfair
        cases houtcome
        exact ⟨.same _, hseen, hafter⟩
      | interrupted why =>
        obtain ⟨houtcome, hseen, hafter⟩ := hfirst hfair
        cases houtcome with
        | failure text hfailed => exact ⟨.failure text hfailed, hseen, hafter⟩
        | same => exact ⟨.same _, hseen, hafter⟩
      | ok item =>
        simp only [List.forall_mem_append] at hfair
        obtain ⟨houtcome, hseen, hafter⟩ := hfirst hfair.1
        cases houtcome
        obtain ⟨houtcome, hseen', hafter'⟩ := ih hafter hfair.2
        have hall := List.rel_append hseen hseen'
        simp only
        generalize gather owner find rest w₁ = r, gather owner find' rest w₁' = r'
          at houtcome hafter'
        obtain ⟨outcome, w₂⟩ := r
        obtain ⟨outcome', w₂'⟩ := r'
        cases houtcome with
        | failure text hfailed => exact ⟨.failure text hfailed, hall, hafter'⟩
        | same => cases outcome <;> exact ⟨.same _, hall, hafter'⟩

/-- Resolving a key that is not misjudged goes alongside if building its component does. -/
theorem resolveWith_alongside
    (hbuild : ∀ key node node' (w w' : Workshop σ ι), w.Softened w' →
      w.graph.node? key = some node → w'.graph.node? key = some node' →
      (∀ d ∈ seen key node w, d.Fair) → Alongside GraphError.OfConstructor (seen key node w)
        (seen' key node' w') (find key node w) (find' key node' w'))
    (key : Key) (w w' : Workshop σ ι) (h : w.Softened w')
    (hfair : ∀ d ∈ resolveTrace Deed.of seen key w, d.Fair) :
    Alongside GraphError.OfConstructor (resolveTrace Deed.of seen key w)
      (resolveTrace Deed.of seen' key w')
      (resolveWith find key w) (resolveWith find' key w') := by
  unfold resolveTrace at hfair
  unfold resolveTrace resolveWith
  cases hnode : w.graph.node? key with
  | none =>
    rw [h.graph.node_none.2 hnode]
    exact ⟨.same _, .nil, h⟩
  | some node =>
    obtain ⟨node', hnode', hsoft⟩ := h.graph.node_some hnode
    simp only [hnode] at hfair
    simp only [hnode', hsoft.available]
    cases havailable : node.available with
    | some item => exact ⟨.same _, .nil, h⟩
    | none =>
      simp only [havailable, Deed.of_checked, List.singleton_append, List.forall_mem_cons] at hfair
      have hchecked : Deed.Softened (.checked key w.graph) (.checked key w'.graph) :=
        .checked key h.graph
      have hverify := h.graph.verify hnode hnode' (hfair.1 key w.graph rfl)
      simp only [hverify]
      cases hcheck : w.graph.verify key node with
      | error e => exact ⟨.same _, .cons hchecked .nil, h⟩
      | ok =>
        simp only [hcheck] at hfair
        have hbuilt := hbuild key node node' w w' h hnode hnode' hfair.2
        exact ⟨hbuilt.outcome, .cons hchecked hbuilt.seen, hbuilt.after⟩

end

/-- Two constructions end alongside if their constructors did. -/
theorem Alongside.construct {failed : Failure → Prop} {seen seen' : List (Deed σ ι)}
    {r r' : Outcome Failure ι × Workshop σ ι} (h : Alongside failed seen seen' r r') (key : Key) :
    Alongside GraphError.OfConstructor (seen ++ constructedDeeds key r)
      (seen' ++ constructedDeeds key r') (constructed key r) (constructed key r') := by
  obtain ⟨houtcome, hseen, hafter⟩ := h
  obtain ⟨outcome, w⟩ := r
  obtain ⟨outcome', w'⟩ := r'
  have hall (last : List (Deed σ ι)) := List.rel_append hseen (Deed.Softened.refl last)
  cases houtcome with
  | failure text => exact ⟨.failure text ⟨key, _, rfl⟩, hall [], hafter.giveUp_failed key text⟩
  | same =>
    cases outcome with
    | error failure => exact ⟨.same _, hall [], hafter.giveUp key none⟩
    | interrupted why => exact ⟨.same _, hall [], hafter.giveUp key (some why)⟩
    | ok value =>
      exact ⟨.same _, hall [_], hafter.mapCache key fun _ _ hc => ⟨rfl, rfl, hc.poisoned⟩⟩

/-- Building a component goes alongside, whatever is marked. -/
theorem build_alongside (note : Notice → σ → σ) (depth : Nat) (path : List Key) (key : Key)
    (node node' : Node σ ι) (w w' : Workshop σ ι) (h : w.Softened w')
    (hnode : w.graph.node? key = some node) (hnode' : w'.graph.node? key = some node')
    (hfair : ∀ d ∈ buildTrace Deed.of note depth path key node w, d.Fair) :
    Alongside GraphError.OfConstructor (buildTrace Deed.of note depth path key node w)
      (buildTrace Deed.of note depth path key node' w') (build note depth path key node w)
      (build note depth path key node' w') := by
  have hsoft := h.graph.nodes hnode hnode'
  induction depth generalizing path key node node' w w' with
  | zero => cases hsoft <;> exact ⟨.same _, .nil, h⟩
  | succ depth ih =>
    cases hsoft with
    | value item => exact ⟨.same _, .nil, h⟩
    | @recipe inputs construct construct' cache cache' hconstruct hcache =>
      unfold buildTrace at hfair
      unfold buildTrace build
      rw [hcache.made, hcache.locked]
      by_cases hpath : key ∈ path
      · rw [if_pos (.inl hpath), if_pos (.inl hpath), if_pos hpath, if_pos hpath]
        exact ⟨.same _, .nil, h⟩
      cases hlocked : cache.locked with
      | true =>
        rw [if_pos (.inr (.inl rfl)), if_pos (.inr (.inl rfl)), if_neg hpath, if_neg hpath]
        exact ⟨.same _, .nil, h⟩
      | false =>
      cases hmade : cache.made with
      | some item =>
        rw [if_pos (.inr (.inr rfl)), if_pos (.inr (.inr rfl)), if_neg hpath, if_neg hpath]
        exact ⟨.same _, .nil, h⟩
      | none =>
        have hfree : ¬ (key ∈ path ∨ false = true ∨
            (none : Option (Instance ι)).isSome = true) := by
          simp [hpath]
        rw [hlocked, hmade, if_neg hfree] at hfair
        rw [if_neg hfree, if_neg hfree, if_neg hpath, if_neg hpath]
        simp only [List.forall_mem_append] at hfair
        simp only [Bool.false_eq_true, if_false]
        have hlock : Workshop.Softened { w with graph := w.graph.lock key }
            { w' with graph := w'.graph.lock key } :=
          h.mapCache key fun _ _ hc => ⟨hc.made, rfl, hc.poisoned⟩
        have hgather := gather_alongside key
          (fun k node node' w w' h hk hk' hfair =>
            ih (path ++ [key]) k node node' w w' h hk hk' hfair (h.graph.nodes hk hk'))
          hlock hfair.1
        generalize gather key (build note depth (path ++ [key])) inputs
            { w with graph := w.graph.lock key } = r,
          gather key (build note depth (path ++ [key])) inputs
            { w' with graph := w'.graph.lock key } = r' at hgather hfair
        obtain ⟨outcome, w₁⟩ := r
        obtain ⟨outcome', w₁'⟩ := r'
        obtain ⟨houtcome, hseen, hafter⟩ := hgather
        cases houtcome with
        | failure text hfailed =>
          simp only [List.append_nil]
          exact ⟨.failure text hfailed, hseen, hafter.giveUp_failed key text⟩
        | same =>
        cases outcome with
        | error e =>
          simp only [List.append_nil]
          exact ⟨.same _, hseen, hafter.giveUp key none⟩
        | interrupted why =>
          simp only [List.append_nil]
          exact ⟨.same _, hseen, hafter.giveUp key (some why)⟩
        | ok entries =>
          simp only [List.forall_mem_append] at hfair
          obtain ⟨-, -, hfairRun, -⟩ := hfair
          have hready : Workshop.Softened
              { w₁ with world := note (.constructing key) w₁.world }
              { w₁' with world := note (.constructing key) w₁'.world } := by
            rw [hafter.world]
            exact hafter.note _
          have hrun := (hconstruct ⟨key, entries⟩).alongside
            (resolveWith_alongside fun k node node' w w' h hk hk' hfair =>
              ih [] k node node' w w' h hk hk' hfair (h.graph.nodes hk hk')) hready hfairRun
          obtain ⟨houtcome, hseenRun, hafter⟩ := hrun.construct key
          exact ⟨houtcome, List.rel_append hseen (.cons (.same (.called key entries)) hseenRun),
            hafter⟩

/-! ## Requests -/

variable {note : Notice → σ → σ}

/-- Resolving a key goes alongside, unless a key is misjudged. -/
theorem resolveWithin_alongside (depth : Nat) (key : Key) (w w' : Workshop σ ι)
    (h : w.Softened w') (hfair : ∀ d ∈ resolveWithinDeeds note depth key w, d.Fair) :
    Alongside GraphError.OfConstructor (resolveWithinDeeds note depth key w)
      (resolveWithinDeeds note depth key w') (resolveWithin note depth key w)
      (resolveWithin note depth key w') :=
  resolveWith_alongside (build_alongside note depth []) key w w' h hfair

/-- Finding an input of an invocation goes alongside, as every construction does. -/
theorem fetch_alongside (depth : Nat) (owner key : Key) (node node' : Node σ ι)
    (w w' : Workshop σ ι) (h : w.Softened w') (hnode : w.graph.node? key = some node)
    (hnode' : w'.graph.node? key = some node')
    (hfair : ∀ d ∈ fetchTrace Deed.of note depth owner key node w, d.Fair) :
    Alongside GraphError.OfConstructor (fetchTrace Deed.of note depth owner key node w)
      (fetchTrace Deed.of note depth owner key node' w') (fetch note depth owner key node w)
      (fetch note depth owner key node' w') := by
  unfold fetchTrace at hfair
  unfold fetchTrace fetch
  rw [Deed.of_checked, List.singleton_append, List.forall_mem_cons] at hfair
  have hchecked : Deed.Softened (.checked key w.graph) (.checked key w'.graph) :=
    .checked key h.graph
  rw [h.graph.verify hnode hnode' (hfair.1 key w.graph rfl)]
  cases hcheck : w.graph.verify key node with
  | error e => exact ⟨.same _, .cons hchecked .nil, h⟩
  | ok =>
    rw [hcheck] at hfair
    have hbuilt := build_alongside note depth [owner] key node node' w w' h hnode hnode' hfair.2
    exact ⟨hbuilt.outcome, .cons hchecked hbuilt.seen, hbuilt.after⟩

/-- A constructor or the function that was invoked has failed. -/
def GraphError.OfCall (e : GraphError) : Prop :=
  e.OfConstructor ∨ ∃ name failure, e = .invokeFailed name failure

/-- An invocation goes alongside, unless a key is misjudged. -/
theorem invokeWithin_alongside (depth : Nat) (name : String) (inputs : Inputs)
    {function function' : Args ι → Program σ ι}
    (hfunction : ∀ args, (function args).Softened (function' args)) {w w' : Workshop σ ι}
    (h : w.Softened w') (hfair : ∀ d ∈ invokeDeeds note depth name inputs function w, d.Fair) :
    Alongside GraphError.OfCall (invokeDeeds note depth name inputs function w)
      (invokeDeeds note depth name inputs function' w')
      (invokeWithin note depth name inputs function w)
      (invokeWithin note depth name inputs function' w') := by
  unfold invokeDeeds invokeTrace at hfair
  rw [invokeWithin_eq, invokeWithin_eq, invokeDeeds, invokeDeeds, invokeTrace, invokeTrace]
  simp only [List.forall_mem_append] at hfair
  have hgather := gather_alongside (invocationKey name)
    (fetch_alongside depth (invocationKey name)) h hfair.1
  generalize gather (invocationKey name) (fetch note depth (invocationKey name)) inputs w = r,
    gather (invocationKey name) (fetch note depth (invocationKey name)) inputs w' = r'
    at hgather hfair
  obtain ⟨outcome, w₁⟩ := r
  obtain ⟨outcome', w₁'⟩ := r'
  obtain ⟨houtcome, hseen, hafter⟩ := hgather
  cases houtcome with
  | failure text hfailed =>
    simp only [List.append_nil]
    exact ⟨.failure text (.inl hfailed), hseen, hafter⟩
  | same =>
  cases outcome with
  | error e =>
    simp only [List.append_nil]
    exact ⟨.same _, hseen, hafter⟩
  | interrupted why =>
    simp only [List.append_nil]
    exact ⟨.same _, hseen, hafter⟩
  | ok entries =>
    simp only [List.forall_mem_append] at hfair
    have hready : Workshop.Softened
        { w₁ with world := note (.invoking (invocationKey name)) w₁.world }
        { w₁' with world := note (.invoking (invocationKey name)) w₁'.world } := by
      rw [hafter.world]
      exact hafter.note _
    have hrun := (hfunction ⟨invocationKey name, entries⟩).alongside
      (resolveWithin_alongside depth) hready hfair.2.2
    simp only
    generalize (function ⟨invocationKey name, entries⟩).run (resolveWithin note depth)
        { w₁ with world := note (.invoking (invocationKey name)) w₁.world } = r,
      (function' ⟨invocationKey name, entries⟩).run (resolveWithin note depth)
        { w₁' with world := note (.invoking (invocationKey name)) w₁'.world } = r' at hrun
    obtain ⟨outcome, w₂⟩ := r
    obtain ⟨outcome', w₂'⟩ := r'
    obtain ⟨houtcome, hseenRun, hafter⟩ := hrun
    have hall := List.rel_append hseen
      (.cons (.same (.invoked (invocationKey name) entries)) hseenRun)
    cases houtcome with
    | failure text => exact ⟨.failure text (.inr ⟨name, _, rfl⟩), hall, hafter⟩
    | same => cases outcome <;> exact ⟨.same _, hall, hafter⟩

/-- The same request, with softened programs. -/
inductive Request.Softened : Request σ ι → Request σ ι → Prop
  | live (world : σ) : Softened (.live world) (.live world)
  | supply (key : Key) (value : ι) : Softened (.supply key value) (.supply key value)
  | provide (key : Key) (inputs : Inputs) {construct construct' : Args ι → Program σ ι}
      (h : ∀ args, (construct args).Softened (construct' args)) :
      Softened (.provide key inputs construct) (.provide key inputs construct')
  | resolve (depth : Nat) (key : Key) : Softened (.resolve depth key) (.resolve depth key)
  | invoke (depth : Nat) (name : String) (inputs : Inputs)
      {function function' : Args ι → Program σ ι}
      (h : ∀ args, (function args).Softened (function' args)) :
      Softened (.invoke depth name inputs function) (.invoke depth name inputs function')

/-- The same answer, or a failure in place of a panic. -/
inductive Reply.Softened : Reply ι → Reply ι → Prop
  | same (reply : Reply ι) : Softened reply reply
  | resolved (text : String) {e : GraphError} (h : e.OfConstructor) :
      Softened (.resolved (.interrupted (.panic text))) (.resolved (.error e))
  | invoked (text : String) {e : GraphError} (h : e.OfCall) :
      Softened (.invoked (.interrupted (.panic text))) (.invoked (.error e))

/-- A request goes alongside, unless a key is misjudged. -/
theorem Request.Softened.alongside {request request' : Request σ ι}
    (hrequest : request.Softened request') {w w' : Workshop σ ι} (h : w.Softened w')
    (hfair : ∀ d ∈ request.deeds note w, d.Fair) :
    (request.reply note w).1.Softened (request'.reply note w').1 ∧
      List.Forall₂ Deed.Softened (request.deeds note w) (request'.deeds note w') ∧
      (request.reply note w).2.Softened (request'.reply note w').2 := by
  cases hrequest with
  | live world => exact ⟨.same _, .nil, h.note world⟩
  | supply key value =>
    have hnode : (Node.ofValue key value : Node σ ι).Softened (.ofValue key value) := .value _
    obtain ⟨hanswer, hafter⟩ := h.register key hnode
    simp only [Request.reply, Request.deeds, Request.trace, Deed.of_supply, h.supplyDeeds, hanswer]
    exact ⟨.same _, Deed.Softened.refl _, hafter⟩
  | @provide key inputs construct construct' hconstruct =>
    have hnode : (Node.ofRecipe inputs construct).Softened (.ofRecipe inputs construct') :=
      .recipe inputs hconstruct ⟨rfl, rfl, fun h => h⟩
    obtain ⟨hanswer, hafter⟩ := h.register key hnode
    simp only [Request.reply, hanswer]
    exact ⟨.same _, .nil, hafter⟩
  | resolve depth key =>
    simp only [Request.deeds, Request.trace, List.forall_mem_append] at hfair
    have hresolve := resolveWithin_alongside depth key w w' h hfair.1
    simp only [Request.reply, Request.deeds, Request.trace]
    generalize resolveWithin note depth key w = r, resolveWithin note depth key w' = r'
      at hresolve
    obtain ⟨outcome, w₁⟩ := r
    obtain ⟨outcome', w₁'⟩ := r'
    obtain ⟨houtcome, hseen, hafter⟩ := hresolve
    have hall (last : List (Deed σ ι)) := List.rel_append hseen (Deed.Softened.refl last)
    cases houtcome with
    | failure text hfailed => exact ⟨.resolved text hfailed, hall [], hafter⟩
    | same => exact ⟨.same _, hall _, hafter⟩
  | invoke depth name inputs hfunction =>
    have hinvoke := invokeWithin_alongside depth name inputs hfunction h hfair
    simp only [Request.reply, Request.deeds]
    generalize invokeWithin note depth name inputs _ w = r,
      invokeWithin note depth name inputs _ w' = r' at hinvoke
    obtain ⟨outcome, w₁⟩ := r
    obtain ⟨outcome', w₁'⟩ := r'
    obtain ⟨houtcome, hseen, hafter⟩ := hinvoke
    cases houtcome with
    | failure text hfailed => exact ⟨.invoked text hfailed, hseen, hafter⟩
    | same => exact ⟨.same _, hseen, hafter⟩

/-! ## Histories -/

namespace Chronicle

/-- The same requests were answered alike, and the like was seen of the graphs. -/
structure Softened (c c' : Chronicle σ ι) : Prop where
  replies : List.Forall₂ Reply.Softened c.replies c'.replies
  deeds : List.Forall₂ Deed.Softened c.deeds c'.deeds
  workshop : c.workshop.Softened c'.workshop

theorem Softened.next {c c' : Chronicle σ ι} (h : c.Softened c') {request request' : Request σ ι}
    (hrequest : request.Softened request')
    (hfair : ∀ d ∈ (c.next note request).deeds, d.Fair) :
    (c.next note request).Softened (c'.next note request') := by
  obtain ⟨hreply, hdeeds, hafter⟩ := hrequest.alongside h.workshop fun d hd =>
    hfair d (List.mem_append_right _ hd)
  exact ⟨List.rel_append h.replies (.cons hreply .nil), List.rel_append h.deeds hdeeds, hafter⟩

/-- What was seen stays in the chronicle. -/
theorem deeds_subset (c : Chronicle σ ι) (requests : List (Request σ ι)) :
    c.deeds ⊆ (requests.foldl (Chronicle.next note) c).deeds := by
  induction requests generalizing c with
  | nil => exact List.Subset.refl _
  | cons request rest ih =>
    exact List.Subset.trans (List.subset_append_left _ _) (ih (c.next note request))

/-- Chronicles of requests that correspond go alongside as long as all is fair. -/
theorem Softened.run {c c' : Chronicle σ ι} (h : c.Softened c')
    {requests requests' : List (Request σ ι)}
    (hrequests : List.Forall₂ Request.Softened requests requests')
    (hfair : ∀ d ∈ (requests.foldl (Chronicle.next note) c).deeds, d.Fair) :
    (requests.foldl (Chronicle.next note) c).Softened
      (requests'.foldl (Chronicle.next note) c') := by
  induction hrequests generalizing c c' with
  | nil => exact h
  | cons hrequest _ ih =>
    have hfirst := h.next hrequest fun d hd => hfair d (deeds_subset (c.next note _) _ hd)
    exact ih hfirst hfair

end Chronicle

/-- A check that the key has passed does not misjudge it. -/
def Deed.passed : Deed σ ι → Bool
  | checked key graph =>
    match graph.node? key with
    | none => true
    | some node => (graph.verify key node).isOk
  | _ => true

/-- A check that passes is fair. -/
theorem Deed.fair_of_passed {deed : Deed σ ι} (h : deed.passed = true) : deed.Fair := by
  rintro key graph rfl hmisjudged
  unfold Deed.passed at h
  cases hnode : graph.node? key with
  | none =>
    obtain ⟨made, ⟨⟨inputs, hunbuilt⟩, -⟩, -⟩ := hmisjudged
    obtain ⟨construct, cache, hsome, -⟩ := Graph.unbuilt_trusted.1 hunbuilt
    cases hnode.symm.trans hsome
  | some node =>
    simp only [hnode] at h
    cases hverify : graph.verify key node with
    | ok => exact hmisjudged.refused hnode hverify
    | error e =>
      rw [hverify] at h
      cases h

/-- Of two histories in which the same is requested, but some calls that panic in the first one fail
in the second, the answers are the same, apart from the failures in place of panics, and so are the
calls of constructors, what they are given and the surroundings. This holds as long as no check in
the first history misjudges a key. -/
theorem panics_recovered_as_failures (note : Notice → σ → σ) (world : σ)
    {requests requests' : List (Request σ ι)}
    (h : List.Forall₂ Request.Softened requests requests')
    (hfair : ∀ d ∈ (Chronicle.of note world requests).deeds, d.Fair) :
    List.Forall₂ Reply.Softened (Chronicle.of note world requests).replies
        (Chronicle.of note world requests').replies ∧
      List.Forall₂ Deed.Softened (Chronicle.of note world requests).deeds
        (Chronicle.of note world requests').deeds ∧
      (Chronicle.of note world requests).workshop.Softened
        (Chronicle.of note world requests').workshop := by
  have hnew : (Chronicle.new world : Chronicle σ ι).Softened (.new world) :=
    ⟨.nil, .nil, .nil, rfl, rfl, rfl⟩
  have hall := hnew.run h hfair
  exact ⟨hall.replies, hall.deeds, hall.workshop⟩

/-- A service whose constructor first ends in `first` and later returns how often constructors were
called, with an optional cache that is registered after it was made, and a page that needs it. -/
def lateCache (first : Program Nat Nat) (cacheInputs : Inputs) : List (Request Nat Nat) :=
  [ .provide (.of ⟨"Service"⟩) [(Param.of "cache" ⟨"Cache"⟩).asOptional] fun _ =>
      .read fun calls => if calls = 1 then first else .finish (.ok calls),
    .resolve 4 (.of ⟨"Service"⟩),
    .resolve 4 (.of ⟨"Service"⟩),
    .provide (.of ⟨"Cache"⟩) cacheInputs fun _ => .finish (.ok 0),
    .provide (.of ⟨"Page"⟩) [.of "service" ⟨"Service"⟩] fun _ =>
      .read fun calls => .finish (.ok calls),
    .resolve 4 (.of ⟨"Page"⟩) ]

/-- A panic of the cache is softened to a failure. -/
theorem lateCache_softened (text : String) (failure : Failure) (cacheInputs : Inputs) :
    List.Forall₂ Request.Softened (lateCache (.panic text) cacheInputs)
      (lateCache (.finish (.error failure)) cacheInputs) := by
  refine .cons (.provide _ _ fun _ => .read fun calls => ?_) <| .cons (.resolve ..) <|
    .cons (.resolve ..) <| .cons (.provide _ _ fun _ => .finish _) <|
    .cons (.provide _ _ fun _ => .read fun _ => .finish _) <| .cons (.resolve ..) .nil
  split
  · exact .failure text failure
  · exact .finish _

/-- With a cache that lacks nothing, the mark on the service leads the check through the service and
the cache, and the page is made all the same. -/
theorem soundCache_recovered :
    List.Forall₂ Reply.Softened
        (Chronicle.of (fun _ calls => calls + 1) 0 (lateCache (.panic "boom") [])).replies
        (Chronicle.of (fun _ calls => calls + 1) 0
          (lateCache (.finish (.error ⟨"boom", []⟩)) [])).replies ∧
      (Chronicle.of (fun _ calls => calls + 1) 0
        (lateCache (.finish (.error ⟨"boom", []⟩)) [])).replies[5]? =
          some (.resolved (.ok ⟨⟨"Page"⟩, 3⟩)) := by
  have hpassed : ((Chronicle.of (fun _ calls => calls + 1) 0
      (lateCache (.panic "boom") [])).deeds.all Deed.passed) = true := by decide
  have hrecovered := panics_recovered_as_failures (fun _ calls => calls + 1) 0
    (lateCache_softened "boom" ⟨"boom", []⟩ [])
    fun d hd => d.fair_of_passed (List.all_eq_true.1 hpassed d hd)
  exact ⟨hrecovered.1, rfl⟩

/-- With a cache that lacks a store, the page is refused if the service has panicked once, and made
if it has failed. -/
theorem latePanic_not_recovered :
    List.Forall₂ Request.Softened (lateCache (.panic "boom") [.of "store" ⟨"Store"⟩])
        (lateCache (.finish (.error ⟨"boom", []⟩)) [.of "store" ⟨"Store"⟩]) ∧
      (Chronicle.of (fun _ calls => calls + 1) 0
        (lateCache (.panic "boom") [.of "store" ⟨"Store"⟩])).replies[5]? =
          some (.resolved (.error (.missingDependency (.of ⟨"Store"⟩) (some (.of ⟨"Cache"⟩))))) ∧
      (Chronicle.of (fun _ calls => calls + 1) 0
        (lateCache (.finish (.error ⟨"boom", []⟩)) [.of "store" ⟨"Store"⟩])).replies[5]? =
          some (.resolved (.ok ⟨⟨"Page"⟩, 3⟩)) :=
  ⟨lateCache_softened .., rfl, rfl⟩

end ServiceHost
