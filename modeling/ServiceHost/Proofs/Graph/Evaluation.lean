import ServiceHost.Proofs.Graph.Retry

/-!
# Resolution as evaluation

A constructor is pure if what it makes depends on its arguments alone, up to what tells one
component from another of the same kind (`Program.Yields`, `Meaning`). A graph of pure constructors
can be evaluated without caches: the inputs of a key are evaluated one after another, and what comes
of them is handed to its constructor (`Graph.evaluate`). Whatever was made meanwhile is what the
evaluation of its key comes to, also where constructions have failed in between
(`Meaning.Faithful`), and so is what is handed out. Only the check comes before any constructor: a
key that needs something faulty is refused by it as in the untouched graph, and every other key is
resolved as it is evaluated, whatever was requested before (`resolution_evaluates`).
-/

namespace ServiceHost

variable {σ ι β : Type}

/-- What is to be seen of a component, and what the constructor of each key makes of its inputs. -/
structure Meaning (ι β : Type) where
  view : Instance ι → β
  make : Key → List (Param × Option β) → Except Failure β

/-! ## Evaluation -/

namespace Graph

/-- Evaluates inputs in turn, each that is registered by `eval`, as long as none fails. -/
def evaluateInputs (g : Graph σ ι) (owner : Key) (eval : Key → Option (Except GraphError β)) :
    Inputs → Option (Except GraphError (List (Param × Option β)))
  | [] => some (.ok [])
  | p :: rest =>
    match g.node? p.key with
    | none =>
      if p.optional then (g.evaluateInputs owner eval rest).map (Except.map ((p, none) :: ·))
      else some (.error (.missingDependency p.key (some owner)))
    | some _ =>
      match eval p.key with
      | some (.ok b) => (g.evaluateInputs owner eval rest).map (Except.map ((p, some b) :: ·))
      | some (.error e) => some (.error e)
      | none => none

/-- Evaluates a key without caches, and without an answer if that goes deeper than given. -/
def evaluate (g : Graph σ ι) (m : Meaning ι β) : Nat → Key → Option (Except GraphError β)
  | 0, _ => none
  | depth + 1, key =>
    match g.node? key with
    | none => some (.error (.missingDependency key none))
    | some (.value item) => some (.ok (m.view item))
    | some (.recipe inputs _ _) =>
      match g.evaluateInputs key (g.evaluate m depth) inputs with
      | some (.ok entries) => some ((m.make key entries).mapError (.constructor key))
      | some (.error e) => some (.error e)
      | none => none

/-- The key evaluates to the result. -/
def EvaluatesTo (g : Graph σ ι) (m : Meaning ι β) (key : Key) (result : Except GraphError β) :
    Prop :=
  ∃ depth, g.evaluate m depth key = some result

/-- The inputs evaluate to the result. -/
def InputsEvaluateTo (g : Graph σ ι) (m : Meaning ι β) (owner : Key) (inputs : Inputs)
    (result : Except GraphError (List (Param × Option β))) : Prop :=
  ∃ depth, g.evaluateInputs owner (g.evaluate m depth) inputs = some result

section
variable {g : Graph σ ι} {m : Meaning ι β} {owner key : Key} {inputs : Inputs}

/-- Inputs evaluate to the same, if each of them does. -/
theorem evaluateInputs_mono {eval eval' : Key → Option (Except GraphError β)}
    (heval : ∀ key result, eval key = some result → eval' key = some result)
    {result : Except GraphError (List (Param × Option β))}
    (h : g.evaluateInputs owner eval inputs = some result) :
    g.evaluateInputs owner eval' inputs = some result := by
  induction inputs generalizing result with
  | nil => exact h
  | cons p rest ih =>
    unfold evaluateInputs at h ⊢
    cases hnode : g.node? p.key with
    | none =>
      simp only [hnode] at h ⊢
      split at h
      · next hoptional =>
        obtain ⟨result', hrest, rfl⟩ := Option.map_eq_some_iff.1 h
        rw [if_pos hoptional, ih hrest]
        rfl
      · next hrequired =>
        rw [if_neg hrequired]
        exact h
    | some node =>
      simp only [hnode] at h ⊢
      cases hfirst : eval p.key with
      | none =>
        rw [hfirst] at h
        cases h
      | some first =>
        rw [hfirst] at h
        rw [heval p.key first hfirst]
        cases first with
        | error e => exact h
        | ok b =>
          obtain ⟨result', hrest, rfl⟩ := Option.map_eq_some_iff.1 h
          simp only [ih hrest]
          rfl

/-- An evaluation that has come to a result does so if it may go deeper. -/
theorem evaluate_succ {depth : Nat} {result : Except GraphError β}
    (h : g.evaluate m depth key = some result) : g.evaluate m (depth + 1) key = some result := by
  induction depth generalizing key result with
  | zero => cases h
  | succ depth ih =>
    unfold evaluate at h ⊢
    cases hnode : g.node? key with
    | none => simpa only [hnode] using h
    | some node =>
      cases node with
      | value item => simpa only [hnode] using h
      | recipe inputs construct cache =>
        simp only [hnode] at h ⊢
        cases hinputs : g.evaluateInputs key (g.evaluate m depth) inputs with
        | none =>
          rw [hinputs] at h
          cases h
        | some entries =>
          rw [evaluateInputs_mono (fun _ _ => ih) hinputs]
          rw [hinputs] at h
          exact h

theorem evaluate_mono {depth depth' : Nat} (hle : depth ≤ depth') {result : Except GraphError β}
    (h : g.evaluate m depth key = some result) : g.evaluate m depth' key = some result := by
  induction hle with
  | refl => exact h
  | step _ ih => exact evaluate_succ ih

/-- A key evaluates to one result. -/
theorem EvaluatesTo.unique {result result' : Except GraphError β} (h : g.EvaluatesTo m key result)
    (h' : g.EvaluatesTo m key result') : result = result' := by
  obtain ⟨depth, heval⟩ := h
  obtain ⟨depth', heval'⟩ := h'
  have hmax := evaluate_mono (Nat.le_max_left depth depth') heval
  have hmax' := evaluate_mono (Nat.le_max_right depth depth') heval'
  exact Option.some.inj (hmax.symm.trans hmax')

theorem EvaluatesTo.missing (hnone : g.node? key = none) :
    g.EvaluatesTo m key (.error (.missingDependency key none)) := by
  refine ⟨1, ?_⟩
  simp only [evaluate, hnone]

theorem EvaluatesTo.value {item : Instance ι} (hnode : g.node? key = some (.value item)) :
    g.EvaluatesTo m key (.ok (m.view item)) := by
  refine ⟨1, ?_⟩
  simp only [evaluate, hnode]

section
variable {construct : Args ι → Program σ ι} {cache : Cache ι}

/-- The constructor is called with what its inputs evaluate to. -/
theorem EvaluatesTo.made (hnode : g.node? key = some (.recipe inputs construct cache))
    {entries : List (Param × Option β)} (h : g.InputsEvaluateTo m key inputs (.ok entries)) :
    g.EvaluatesTo m key ((m.make key entries).mapError (.constructor key)) := by
  obtain ⟨depth, hinputs⟩ := h
  refine ⟨depth + 1, ?_⟩
  simp only [evaluate, hnode, hinputs]

/-- An input fails, and so does the key. -/
theorem EvaluatesTo.input_failed (hnode : g.node? key = some (.recipe inputs construct cache))
    {e : GraphError} (h : g.InputsEvaluateTo m key inputs (.error e)) :
    g.EvaluatesTo m key (.error e) := by
  obtain ⟨depth, hinputs⟩ := h
  refine ⟨depth + 1, ?_⟩
  simp only [evaluate, hnode, hinputs]

end

theorem InputsEvaluateTo.nil : g.InputsEvaluateTo m owner [] (.ok []) :=
  ⟨0, rfl⟩

section
variable {p : Param} {result : Except GraphError (List (Param × Option β))}

/-- An optional input that is not registered is left out. -/
theorem InputsEvaluateTo.absent (hnone : g.node? p.key = none) (hoptional : p.optional = true)
    (h : g.InputsEvaluateTo m owner inputs result) :
    g.InputsEvaluateTo m owner (p :: inputs) (result.map ((p, none) :: ·)) := by
  obtain ⟨depth, hinputs⟩ := h
  refine ⟨depth, ?_⟩
  simp only [evaluateInputs, hnone, hoptional, if_true, hinputs, Option.map_some]

/-- An input that is registered is evaluated before the rest. -/
theorem InputsEvaluateTo.found {node : Node σ ι} {b : β} (hnode : g.node? p.key = some node)
    (hfirst : g.EvaluatesTo m p.key (.ok b)) (h : g.InputsEvaluateTo m owner inputs result) :
    g.InputsEvaluateTo m owner (p :: inputs) (result.map ((p, some b) :: ·)) := by
  obtain ⟨depth, heval⟩ := hfirst
  obtain ⟨depth', hinputs⟩ := h
  have hmax := evaluate_mono (Nat.le_max_left depth depth') heval
  have hmax' := evaluateInputs_mono
    (fun _ _ => evaluate_mono (Nat.le_max_right depth depth')) hinputs
  refine ⟨max depth depth', ?_⟩
  simp only [evaluateInputs, hnode, hmax, hmax', Option.map_some]

/-- The first input that fails decides. -/
theorem InputsEvaluateTo.failed {node : Node σ ι} {e : GraphError}
    (hnode : g.node? p.key = some node) (hfirst : g.EvaluatesTo m p.key (.error e)) :
    g.InputsEvaluateTo m owner (p :: inputs) (.error e) := by
  obtain ⟨depth, heval⟩ := hfirst
  refine ⟨depth, ?_⟩
  simp only [evaluateInputs, hnode, heval]

end

end

end Graph

/-! ## Pure constructors -/

/-- Whatever the surroundings are, the program makes no requests and comes to this result, up to
what is to be seen of it. It may leave traces in the surroundings. -/
inductive Program.Yields (view : ι → β) : Program σ ι → Except Failure β → Prop
  | returned (value : ι) : Yields view (.finish (.ok value)) (.ok (view value))
  | failed (failure : Failure) : Yields view (.finish (.error failure)) (.error failure)
  | read {next : σ → Program σ ι} {result : Except Failure β}
      (h : ∀ world, Yields view (next world) result) : Yields view (.read next) result
  | write (world : σ) {next : Program σ ι} {result : Except Failure β}
      (h : Yields view next result) : Yields view (.write world next) result

/-- How a program that yields a result ends. -/
inductive Outcome.Yielded (view : ι → β) : Outcome Failure ι → Except Failure β → Prop
  | returned (value : ι) : Yielded view (.ok value) (.ok (view value))
  | failed (failure : Failure) : Yielded view (.error failure) (.error failure)

/-- A pure program yields its result in every graph, and leaves the graph alone. -/
theorem Program.Yields.run {view : ι → β} {p : Program σ ι} {result : Except Failure β}
    (h : p.Yields view result) (resolve : Resolver σ ι) (w : Workshop σ ι) :
    (p.run resolve w).1.Yielded view result ∧ (p.run resolve w).2.graph = w.graph := by
  induction h generalizing w with
  | returned value => exact ⟨.returned value, rfl⟩
  | failed failure => exact ⟨.failed failure, rfl⟩
  | read _ ih => exact ih w.world w
  | write world _ ih => exact ih { w with world }

namespace Meaning

variable (m : Meaning ι β) (g : Graph σ ι)

/-- What is to be seen of the arguments of a call. -/
def entries (entries : Entries ι) : List (Param × Option β) :=
  entries.map fun e => (e.1, e.2.map m.view)

/-- The constructors are pure, and this is what they make of their inputs. -/
def Describes : Prop :=
  ∀ key inputs construct cache, g.node? key = some (.recipe inputs construct cache) →
    ∀ entries : Entries ι, (construct ⟨key, entries⟩).Yields
      (fun value => m.view ⟨key.type, value⟩) (m.make key (m.entries entries))

/-- The same nodes as in the graph `g`, with no other components than what their keys evaluate to
there. -/
structure Faithful (g' : Graph σ ι) : Prop where
  registered : ∀ key, g'.registered? key = g.registered? key
  item : ∀ key item, g'.item? key = some item → g.EvaluatesTo m key (.ok (m.view item))

/-- The call found what the key evaluates to, or failed as the evaluation does, unless the check or
the look at the keys on the way has refused it. No constructor panicked. -/
def Answers (key : Key) : Outcome GraphError (Instance ι) → Prop
  | .ok item => g.EvaluatesTo m key (.ok (m.view item))
  | .error e => e.ofCheck = true ∨ g.EvaluatesTo m key (.error e)
  | .interrupted why => ∀ text, why ≠ .panic text

/-- The same of finding inputs. -/
def AnswersInputs (owner : Key) (inputs : Inputs) : Outcome GraphError (Entries ι) → Prop
  | .ok entries => g.InputsEvaluateTo m owner inputs (.ok (m.entries entries))
  | .error e => e.ofCheck = true ∨ g.InputsEvaluateTo m owner inputs (.error e)
  | .interrupted why => ∀ text, why ≠ .panic text

end Meaning

namespace Meaning.Faithful

variable {m : Meaning ι β} {g g' : Graph σ ι} {key : Key}

/-- The nodes are the same but for their caches. -/
theorem node?_eq_none (h : m.Faithful g g') : g'.node? key = none ↔ g.node? key = none := by
  rw [← Graph.registered?_eq_none, h.registered, Graph.registered?_eq_none]

theorem recipe_of (h : m.Faithful g g') {inputs : Inputs} {construct : Args ι → Program σ ι}
    {cache' : Cache ι} (hnode : g'.node? key = some (.recipe inputs construct cache')) :
    ∃ cache, g.node? key = some (.recipe inputs construct cache) :=
  Graph.node?_of_recipe ((h.registered key).symm.trans (Graph.registered?_of_recipe hnode))

theorem mapCache (h : m.Faithful g g') {f : Cache ι → Cache ι} (hmade : ∀ c, (f c).made = c.made) :
    m.Faithful g (g'.mapCache key f) where
  registered k := (Graph.registered?_mapCache ..).trans (h.registered k)
  item k item hitem := by
    rw [Graph.item?_mapCache hmade] at hitem
    exact h.item k item hitem

/-- What the key evaluates to is put into its cache. -/
theorem store (h : m.Faithful g g') (hbusy : g'.Busy key) {item : Instance ι}
    (heval : g.EvaluatesTo m key (.ok (m.view item))) : m.Faithful g (g'.store key item) where
  registered k := (Graph.registered?_mapCache ..).trans (h.registered k)
  item k item' hitem := by
    rw [Graph.item?_store hbusy] at hitem
    split at hitem
    · next hkey =>
      cases hitem
      exact hkey ▸ heval
    · exact h.item k item' hitem

end Meaning.Faithful

section
variable {m : Meaning ι β} {g : Graph σ ι} {note : Notice → σ → σ} {depth : Nat}
  {w : Workshop σ ι}

/-- Giving up makes nothing. -/
theorem Meaning.Faithful.giveUp (h : m.Faithful g w.graph) (key : Key)
    (why : Option Interruption) : m.Faithful g (w.giveUp key why).graph := by
  match why with
  | none => exact h.mapCache fun _ => rfl
  | some (.panic _) => exact h.mapCache fun _ => rfl
  | some (.deadlock _) => exact h
  | some .tooDeep => exact h

/-- Finding inputs answers as evaluating them does, if finding each of them does. -/
theorem gather_faithful {owner : Key} {inputs : Inputs}
    {find : Key → Node σ ι → Workshop σ ι → Outcome GraphError (Instance ι) × Workshop σ ι}
    (hfind : ∀ key node (w : Workshop σ ι), m.Faithful g w.graph → w.graph.node? key = some node →
      m.Answers g key (find key node w).1 ∧ m.Faithful g (find key node w).2.graph)
    (h : m.Faithful g w.graph) :
    m.AnswersInputs g owner inputs (gather owner find inputs w).1 ∧
      m.Faithful g (gather owner find inputs w).2.graph := by
  induction inputs generalizing w with
  | nil => exact ⟨.nil, h⟩
  | cons p rest ih =>
    unfold gather
    cases hnode : w.graph.node? p.key with
    | none =>
      have hnone := h.node?_eq_none.1 hnode
      cases hoptional : p.optional with
      | false => exact ⟨.inl rfl, h⟩
      | true =>
        have hrest := ih h
        simp only [if_true]
        generalize gather owner find rest w = r at hrest
        obtain ⟨outcome, w₁⟩ := r
        obtain ⟨hanswers, hfaithful⟩ := hrest
        cases outcome with
        | ok entries => exact ⟨.absent hnone hoptional hanswers, hfaithful⟩
        | error e => exact ⟨hanswers.imp_right (.absent hnone hoptional), hfaithful⟩
        | interrupted why => exact ⟨hanswers, hfaithful⟩
    | some node =>
      obtain ⟨node₀, hnode₀⟩ : ∃ node₀, g.node? p.key = some node₀ := by
        refine Option.ne_none_iff_exists'.1 fun hnone => ?_
        cases hnode.symm.trans (h.node?_eq_none.2 hnone)
      have hfirst := hfind p.key node w h hnode
      simp only
      generalize find p.key node w = r at hfirst
      obtain ⟨outcome, w₁⟩ := r
      obtain ⟨hanswers, hfaithful⟩ := hfirst
      cases outcome with
      | error e => exact ⟨hanswers.imp_right (.failed hnode₀), hfaithful⟩
      | interrupted why => exact ⟨hanswers, hfaithful⟩
      | ok item =>
        have hrest := ih hfaithful
        simp only
        generalize gather owner find rest w₁ = r at hrest
        obtain ⟨outcome, w₂⟩ := r
        obtain ⟨hothers, hfaithful⟩ := hrest
        cases outcome with
        | ok entries => exact ⟨.found hnode₀ hanswers hothers, hfaithful⟩
        | error e => exact ⟨hothers.imp_right (.found hnode₀ hanswers), hfaithful⟩
        | interrupted why => exact ⟨hothers, hfaithful⟩

/-- A construction answers as the evaluation of its key does, and makes only what keys evaluate to.
-/
theorem build_faithful (hm : m.Describes g) (note : Notice → σ → σ) (depth : Nat)
    (path : List Key) (key : Key) (node : Node σ ι) (w : Workshop σ ι)
    (h : m.Faithful g w.graph) (hnode : w.graph.node? key = some node) :
    m.Answers g key (build note depth path key node w).1 ∧
      m.Faithful g (build note depth path key node w).2.graph := by
  have hthere {item : Instance ι} (hitem : node.item? = some item) :
      g.EvaluatesTo m key (.ok (m.view item)) :=
    h.item key item ((Graph.item?_of_node? hnode).trans hitem)
  induction depth generalizing path key node w with
  | zero =>
    cases node with
    | value item => exact ⟨hthere rfl, h⟩
    | recipe => exact ⟨by rintro _ ⟨⟩, h⟩
  | succ depth ih =>
    cases node with
    | value item => exact ⟨hthere rfl, h⟩
    | recipe inputs construct cache =>
    unfold build
    split
    · exact ⟨.inl rfl, h⟩
    cases hlocked : cache.locked with
    | true => exact ⟨by rintro _ ⟨⟩, h⟩
    | false =>
    cases hmade : cache.made with
    | some item => exact ⟨hthere hmade, h⟩
    | none =>
      obtain ⟨cache₀, hnode₀⟩ := h.recipe_of hnode
      have hgather := @gather_faithful _ _ _ m g { w with graph := w.graph.lock key } key inputs
        (build note depth (path ++ [key]))
        (fun k node w' h hk => ih (path ++ [key]) k node w' h hk
          fun hitem => h.item k _ ((Graph.item?_of_node? hk).trans hitem))
        (h.mapCache fun _ => rfl)
      have hbusy := (gather_told key (fun k node w' hk =>
        build_finds note depth (path ++ [key]) k node w' hk) inputs
        { w with graph := w.graph.lock key }).1.busy key (Workshop.Told.busy_lock hnode hmade)
      simp only [Bool.false_eq_true, if_false]
      generalize gather key (build note depth (path ++ [key])) inputs
        { w with graph := w.graph.lock key } = r at hgather hbusy
      obtain ⟨outcome, w₁⟩ := r
      obtain ⟨hanswers, hfaithful⟩ := hgather
      cases outcome with
      | error e => exact ⟨hanswers.imp_right (.input_failed hnode₀), hfaithful.giveUp key none⟩
      | interrupted why => exact ⟨hanswers, hfaithful.giveUp key (some why)⟩
      | ok entries =>
        have heval := Graph.EvaluatesTo.made hnode₀ hanswers
        obtain ⟨hyielded, hsame⟩ := (hm key inputs construct cache₀ hnode₀ entries).run
          (resolveWith (build note depth []))
          { w₁ with world := note (.constructing key) w₁.world }
        generalize m.make key (m.entries entries) = result at heval hyielded
        simp only
        generalize (construct ⟨key, entries⟩).run (resolveWith (build note depth []))
          { w₁ with world := note (.constructing key) w₁.world } = r at hyielded hsame
        obtain ⟨outcome, w₂⟩ := r
        have hfaithful₂ : m.Faithful g w₂.graph := hsame ▸ hfaithful
        have hbusy₂ : w₂.graph.Busy key := hsame ▸ hbusy
        cases hyielded with
        | returned value => exact ⟨heval, hfaithful₂.store hbusy₂ heval⟩
        | failed failure => exact ⟨.inr heval, hfaithful₂.giveUp key none⟩

/-! ## Requests -/

/-- A key is resolved as it is evaluated, and what is made by this is what its key evaluates to. -/
theorem resolveWithin_faithful (hm : m.Describes g) (note : Notice → σ → σ) (depth : Nat)
    (key : Key) (h : m.Faithful g w.graph) :
    m.Answers g key (resolveWithin note depth key w).1 ∧
      m.Faithful g (resolveWithin note depth key w).2.graph := by
  unfold resolveWithin resolveWith
  cases hnode : w.graph.node? key with
  | none => exact ⟨.inl rfl, h⟩
  | some node =>
    simp only
    cases havailable : node.available with
    | some item =>
      have hitem := Node.item?_of_available havailable
      exact ⟨h.item key item ((Graph.item?_of_node? hnode).trans hitem), h⟩
    | none =>
      simp only
      cases hverify : w.graph.verify key node with
      | ok => exact build_faithful hm note depth [] key node w h hnode
      | error e => exact ⟨.inl (Graph.verify_ofCheck hnode hverify), h⟩

/-- Whatever is made stays faithful. -/
theorem Meaning.Describes.steady (hm : m.Describes g) (note : Notice → σ → σ) :
    Workshop.Steady note fun w w' : Workshop σ ι =>
      m.Faithful g w.graph → m.Faithful g w'.graph where
  live _ _ h := h
  trans h h' hbefore := h' (h hbefore)
  resolve depth key _ _ h := (resolveWithin_faithful hm note depth key h).2
  fetch depth owner key node w _ hnode h := by
    unfold fetch
    cases w.graph.verify key node with
    | error e => exact h
    | ok => exact (build_faithful hm note depth [owner] key node w h hnode).2

/-- A graph at work of which only registrations have been requested. -/
structure Workshop.Untouched (w : Workshop σ ι) : Prop where
  beside : w.beside = none
  fresh : ∀ key inputs construct cache,
    w.graph.node? key = some (.recipe inputs construct cache) → cache = .fresh
  detached : w.graph.Detached

namespace Workshop.Untouched

theorem new (world : σ) : Untouched (⟨.empty, none, world⟩ : Workshop σ ι) :=
  ⟨rfl, nofun, nofun⟩

/-- Nobody works at an untouched graph. -/
theorem idle (h : w.Untouched) : w.Idle := by
  refine ⟨h.beside, ?_, h.detached⟩
  intro key inputs construct cache hnode hlocked
  cases h.fresh key inputs construct cache hnode
  cases hlocked

/-- An untouched graph has no lock held and no mark. -/
theorem calm (h : w.Untouched) : w.graph.Calm := by
  refine ⟨h.idle.unlocked, ?_⟩
  rintro key ⟨inputs, construct, cache, hnode, hmarked⟩
  cases h.fresh key inputs construct cache hnode
  cases hmarked

/-- Where nothing was made yet, nothing was made wrong. -/
theorem faithful (h : w.Untouched) (m : Meaning ι β) : m.Faithful w.graph w.graph := by
  refine ⟨fun _ => rfl, fun key item hitem => ?_⟩
  obtain ⟨node, hnode, hitem⟩ := Option.bind_eq_some_iff.1 hitem
  cases node with
  | value =>
    cases hitem
    exact .value hnode
  | recipe inputs construct cache =>
    cases h.fresh key inputs construct cache hnode
    cases hitem

/-- One more registration leaves the graph untouched. -/
theorem register (h : w.Untouched) (key : Key) {node : Node σ ι}
    (hnode : ∀ inputs construct cache, node = .recipe inputs construct cache →
      cache = .fresh ∧ ∀ args, (construct args).Detached) :
    (w.register key node).2.Untouched := by
  have hidle := (h.idle.register key hnode).idle
  refine ⟨hidle.beside, ?_, hidle.detached⟩
  unfold Workshop.register
  cases hregister : w.graph.register key node with
  | error => exact h.fresh
  | ok g =>
    intro k inputs construct cache hk
    rcases Graph.register_ok hregister k with ⟨hnew, _⟩ | hsame
    · exact (hnode _ _ _ (Option.some.inj (hnew.symm.trans hk))).1
    · exact h.fresh k inputs construct cache (hsame ▸ hk)

end Workshop.Untouched

/-- One more pure constructor. -/
theorem Meaning.Describes.provide (hm : m.Describes w.graph) {key : Key} {inputs : Inputs}
    {construct : Args ι → Program σ ι}
    (hpure : ∀ entries : Entries ι, (construct ⟨key, entries⟩).Yields
      (fun value => m.view ⟨key.type, value⟩) (m.make key (m.entries entries))) :
    m.Describes (w.register key (.ofRecipe inputs construct)).2.graph := by
  unfold Workshop.register
  cases hregister : w.graph.register key (.ofRecipe inputs construct) with
  | error => exact hm
  | ok g =>
    intro k inputs' construct' cache hk
    rcases Graph.register_ok hregister k with ⟨hnew, rfl⟩ | hsame
    · cases hnew.symm.trans hk
      exact hpure
    · exact hm k inputs' construct' cache (hsame ▸ hk)

/-- What is to be seen of how a call ends that returns. -/
def Meaning.seen (m : Meaning ι β) :
    Outcome GraphError (Instance ι) → Option (Except GraphError β)
  | .ok item => some (.ok (m.view item))
  | .error e => some (.error e)
  | .interrupted _ => none

/-- In a graph of pure constructors, all of which were registered first, a key that needs something
faulty is refused as it was before anything was made, and every other key is resolved as it is
evaluated, whatever was resolved and invoked before, and whatever failed then. -/
theorem resolution_evaluates {w' : Workshop σ ι} (hw : w.Untouched) (hm : m.Describes w.graph)
    (hdepth : w.graph.size < depth) (h : w.Sequel note w') (key : Key) :
    ((∃ needed, w.graph.Needs key needed ∧ w.graph.Faulty needed) →
      ∃ e, e.ofCheck = true ∧ resolveWithin note depth key w = (.error e, w) ∧
        resolveWithin note depth key w' = (.error e, w')) ∧
    ((¬ ∃ needed, w.graph.Needs key needed ∧ w.graph.Faulty needed) →
      ∃ result, m.seen (resolveWithin note depth key w').1 = some result ∧
        ∀ result', w.graph.EvaluatesTo m key result' ↔ result' = result) := by
  have hadvanced := h.advanced hw.idle
  have hidle := h.idle hw.idle
  constructor
  · intro hbroken
    obtain ⟨inputs, construct, cache, hnode, -⟩ : w.graph.Pending key := by
      obtain ⟨needed, hneeds, -⟩ := hbroken
      exact hneeds.1
    cases hverify : w.graph.verify key (.recipe inputs construct cache) with
    | ok => exact absurd hbroken ((Graph.verify_ok_iff hw.calm hnode).1 hverify)
    | error e =>
      exact ⟨e, Graph.verify_ofCheck hnode hverify,
        resolveWithin_refused hw.calm (.refl _) hw.idle.unlocked hnode hverify,
        resolveWithin_refused hw.calm hadvanced hidle.unlocked hnode hverify⟩
  · intro hsound
    have hfaithful : m.Faithful w.graph w'.graph :=
      h.steady (hm.steady note) hw.idle (hw.faithful m)
    have hresult {result : Except GraphError β} (heval : w.graph.EvaluatesTo m key result)
        (result' : Except GraphError β) : w.graph.EvaluatesTo m key result' ↔ result' = result :=
      ⟨fun h => h.unique heval, fun h => h ▸ heval⟩
    cases hnode : w.graph.node? key with
    | none =>
      refine ⟨.error (.missingDependency key none), ?_, hresult (.missing hnode)⟩
      unfold resolveWithin resolveWith
      rw [(hadvanced.later.none key).2 hnode]
      rfl
    | some node =>
      have hverify := (Graph.verify_ok_iff hw.calm hnode).2 hsound
      have hclean : (resolveWithin note depth key w').1.Clean :=
        resolveWithin_clean hw.calm hadvanced hidle hdepth hnode hverify
      have hanswers := (resolveWithin_faithful hm note depth key hfaithful).1
      generalize (resolveWithin note depth key w').1 = outcome at hclean hanswers
      cases hclean with
      | ok item => exact ⟨_, rfl, hresult hanswers⟩
      | failed k failure =>
        rcases hanswers with hcheck | heval
        · cases hcheck
        · exact ⟨_, rfl, hresult heval⟩
      | panicked text => exact absurd rfl (hanswers text)

end

/-! ## An example -/

/-- Components of which the weight is to be seen, which is one more than that of their inputs. There
is no ledger to be had. -/
def weights : Meaning (Nat × Nat) Nat where
  view item := item.value.2
  make key entries :=
    if key = .of ⟨"Ledger"⟩ then .error ⟨"no disk", []⟩
    else .ok ((entries.filterMap (·.2)).foldr (· + ·) 1)

/-- The constructor of a component that can be told from others of its weight by the number of calls
that there were before. -/
def weighed (args : Args (Nat × Nat)) : Program Nat (Nat × Nat) :=
  .read fun calls =>
    .finish ((weights.make args.owner (weights.entries args.entries)).map (calls, ·))

/-- What a weighed constructor makes depends on the weights of its arguments alone. -/
theorem weighed_yields (key : Key) (entries : Entries (Nat × Nat)) :
    (weighed ⟨key, entries⟩).Yields (fun value => weights.view ⟨key.type, value⟩)
      (weights.make key (weights.entries entries)) := by
  refine .read fun calls => ?_
  cases weights.make key (weights.entries entries) with
  | ok weight => exact .returned (calls, weight)
  | error failure => exact .failed failure

/-- A server over a gateway and a ledger, and a report that needs a printer, too. -/
def weighedServer : Workshop Nat (Nat × Nat) :=
  let provide (w : Workshop Nat (Nat × Nat)) (type : String) (inputs : Inputs) :=
    (w.register (.of ⟨type⟩) (.ofRecipe inputs weighed)).2
  let pool := provide ⟨.empty, none, 0⟩ "Pool" []
  let ledger := provide pool "Ledger" []
  let gateway := provide ledger "Gateway"
    [.of "pool" ⟨"Pool"⟩, (Param.of "clock" ⟨"Clock"⟩).asOptional]
  let server := provide gateway "Server" [.of "gateway" ⟨"Gateway"⟩, .of "ledger" ⟨"Ledger"⟩]
  provide server "Report" [.of "ledger" ⟨"Ledger"⟩, .of "printer" ⟨"Printer"⟩]

/-- The server is new, and its constructors are described by weights. -/
theorem weighedServer_untouched :
    weighedServer.Untouched ∧ weights.Describes weighedServer.graph := by
  have hdetached : ∀ args, (weighed args).Detached := fun _ => .read fun _ => .finish _
  have hprovide {w : Workshop Nat (Nat × Nat)} (h : w.Untouched ∧ weights.Describes w.graph)
      (type : String) (inputs : Inputs) :
      (w.register (.of ⟨type⟩) (.ofRecipe inputs weighed)).2.Untouched ∧
        weights.Describes (w.register (.of ⟨type⟩) (.ofRecipe inputs weighed)).2.graph := by
    refine ⟨h.1.register _ ?_, h.2.provide (weighed_yields _)⟩
    rintro _ _ _ ⟨⟩
    exact ⟨rfl, hdetached⟩
  refine hprovide (hprovide (hprovide (hprovide (hprovide ⟨.new 0, ?_⟩ _ _) _ _) _ _) _ _) _ _
  rintro _ _ _ _ ⟨⟩

/-- The server was asked for, and failed, and then the gateway was, for a function that panicked.
The gateway has the weight that it evaluates to, though it was made meanwhile, the server fails as
it does when it is evaluated, and the report is refused as before, for the printer. -/
theorem weighedServer_evaluates :
    let note : Notice → Nat → Nat := fun _ calls => calls + 1
    let printerless : GraphError := .missingDependency (.of ⟨"Printer"⟩) (some (.of ⟨"Report"⟩))
    let diskless : GraphError := .constructor (.of ⟨"Ledger"⟩) ⟨"no disk", []⟩
    let probe : Request Nat (Nat × Nat) :=
      .invoke 6 "probe" [.of "gateway" ⟨"Gateway"⟩] fun _ => .panic "no answer"
    let w₁ := (resolveWithin note 6 (.of ⟨"Server"⟩) weighedServer).2
    let w₂ := (probe.reply note w₁).2
    w₂.graph.isCached (.of ⟨"Gateway"⟩) = true ∧
      ((resolveWithin note 6 (.of ⟨"Gateway"⟩) w₂).1 = .ok ⟨⟨"Gateway"⟩, (2, 2)⟩ ∧
        weighedServer.graph.EvaluatesTo weights (.of ⟨"Gateway"⟩) (.ok 2)) ∧
      ((resolveWithin note 6 (.of ⟨"Server"⟩) w₂).1 = .error diskless ∧
        weighedServer.graph.EvaluatesTo weights (.of ⟨"Server"⟩) (.error diskless)) ∧
      (resolveWithin note 6 (.of ⟨"Report"⟩) w₂).1 = .error printerless := by
  intro note printerless diskless probe w₁ w₂
  obtain ⟨hw, hm⟩ := weighedServer_untouched
  have hdepth : weighedServer.graph.size < 6 := by decide
  have hfirst : (Request.resolve 6 (.of ⟨"Server"⟩) : Request Nat (Nat × Nat)).Orderly := trivial
  have hsecond : probe.Orderly := fun _ => .panic _
  have hserver : weighedServer.Sequel note w₁ := .next .refl hfirst (by decide) rfl
  have hsequel : weighedServer.Sequel note w₂ := .next hserver hsecond (by decide) rfl
  have hsound (type : String) {node : Node Nat (Nat × Nat)}
      (hnode : weighedServer.graph.node? (.of ⟨type⟩) = some node) :=
    Graph.verify_ok_iff hw.calm hnode
  obtain ⟨gateway, hgateway, hevaluates⟩ :=
    (resolution_evaluates hw hm hdepth hsequel (.of ⟨"Gateway"⟩)).2
      ((hsound "Gateway" rfl).1 rfl)
  obtain ⟨server, hserver, hfails⟩ :=
    (resolution_evaluates hw hm hdepth hsequel (.of ⟨"Server"⟩)).2
      ((hsound "Server" rfl).1 rfl)
  obtain ⟨e, -, hrefused, hagain⟩ :=
    (resolution_evaluates hw hm hdepth hsequel (.of ⟨"Report"⟩)).1
      (Classical.not_not.1 fun hnot => nomatch (hsound "Report" rfl).2 hnot)
  refine ⟨rfl, ⟨rfl, (hevaluates _).2 ?_⟩, ⟨rfl, (hfails _).2 ?_⟩, ?_⟩
  · exact Option.some.inj hgateway
  · exact Option.some.inj hserver
  · rw [hagain]
    exact congrArg Prod.fst hrefused.symm

/-- The report is evaluated up to its ledger, which fails, but is refused by the check, which finds
that there is no printer before any constructor is called. -/
theorem weighedServer_refused_early :
    (weighedServer.Untouched ∧ weights.Describes weighedServer.graph) ∧
      weighedServer.graph.EvaluatesTo weights (.of ⟨"Report"⟩)
        (.error (.constructor (.of ⟨"Ledger"⟩) ⟨"no disk", []⟩)) ∧
      weighedServer.resolve (fun _ calls => calls + 1) (.of ⟨"Report"⟩) =
        (.error (.missingDependency (.of ⟨"Printer"⟩) (some (.of ⟨"Report"⟩))), weighedServer) :=
  ⟨weighedServer_untouched, ⟨3, rfl⟩, rfl⟩

end ServiceHost
