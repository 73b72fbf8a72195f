import ServiceHost.Proofs.Graph.Missed
import ServiceHost.Proofs.Graph.Thread

/-!
# How a thread conducts itself among others

What a thread learns by looking at the caches one after another is true of no one moment. It is true
of a graph that came of the first one by constructions that could be made there (`Graph.Amid`), a
different such graph at each look, or it finds the lock held and learns nothing. This is enough. A
check that comes to its end has seen that all that the component needs is there or can be made. A
check that fails would fail without the components whose locks were held, too, and if these can be
made anew it has walked where the check of the first graph walks, and fails with the same error
(`visit_meets`). A construction then waits for the lock of a component only if it is there or can be
made, and only while the thread holds none but the locks of components that it has under
construction and that lead there (`build_meets`).

`Thread.Meets` says that a thread keeps to this: whatever answers it gets, as long as they are true
of such graphs, every act is one that it may do with the locks that it has.
-/

namespace ServiceHost

open Relation

/-- What a thread has the lock of a component for: to look into the cache, or to construct the
component, which has come so far. -/
inductive Stage where
  | looking
  | gathering
  | calling
  | failed
  | made
  | stored
deriving DecidableEq, Repr

/-- The lock may be given back: no constructor runs, and no component waits to be stored. -/
def Stage.isOver : Stage → Bool
  | .calling => false
  | .made => false
  | _ => true

/-- The locks that a thread has, the last one first. -/
abbrev Stack := List (Key × Stage)

variable {σ ι α β : Type}

/-! ## What the others may have done -/

/-- A cache of the first graph, and as what a thread may find it. -/
structure Cache.Amid (makeable : Prop) (cache cache' : Cache ι) : Prop where
  free : cache.locked = false
  mark : cache'.poisoned = cache.poisoned
  kept : ∀ item, cache.made = some item → cache'.made = some item
  made : cache.made = none → cache'.made ≠ none → makeable

/-- A node of the first graph, and as what a thread may find it. -/
inductive Node.Amid (makeable : Prop) : Node σ ι → Node σ ι → Prop
  | value (item : Instance ι) : Amid makeable (.value item) (.value item)
  | recipe {inputs : Inputs} {construct : Args ι → Program σ ι} {cache cache' : Cache ι}
      (h : cache.Amid makeable cache') :
      Amid makeable (.recipe inputs construct cache) (.recipe inputs construct cache')

namespace Graph

/-- A graph that came of the first one while threads were at work. -/
def Amid (g g' : Graph σ ι) : Prop :=
  ∀ key, Option.Rel (Node.Amid (g.trusted.Makeable key)) (g.node? key) (g'.node? key)

/-- What is in the graph is known. -/
def KnownTo (g : Graph σ ι) (known : Key → Instance ι → Prop) : Prop :=
  ∀ key item, g.item? key = some item → known key item

namespace Amid

variable {g g' : Graph σ ι} {key : Key} {node' : Node σ ι}

/-- A graph where no lock is held is amid itself. -/
theorem refl (hlocks : g.LockedIn []) : g.Amid g := by
  intro key
  cases hnode : g.node? key with
  | none => exact .none
  | some node =>
    refine .some ?_
    cases node with
    | value item => exact .value item
    | recipe inputs construct cache =>
      refine .recipe ⟨?_, rfl, fun _ hitem => hitem, fun hnone hmade => absurd hnone hmade⟩
      exact hlocks.free hnode List.not_mem_nil

theorem none_iff (h : g.Amid g') (key : Key) : g'.node? key = none ↔ g.node? key = none := by
  have hkey := h key
  generalize g.node? key = node, g'.node? key = node' at hkey
  cases hkey <;> simp

/-- What a thread finds under a key comes of what was there at first. -/
theorem node_of (h : g.Amid g') (hnode : g'.node? key = some node') :
    ∃ node, g.node? key = some node ∧ node.Amid (g.trusted.Makeable key) node' := by
  have hkey := h key
  rw [hnode] at hkey
  generalize g.node? key = node at hkey
  cases hkey with
  | some hamid => exact ⟨_, rfl, hamid⟩

/-- A constructor stays registered. -/
theorem recipe (h : g.Amid g') {inputs : Inputs} {construct : Args ι → Program σ ι}
    {cache : Cache ι} (hnode : g.node? key = some (.recipe inputs construct cache)) :
    ∃ cache', g'.cache? key = some cache' ∧ cache.Amid (g.trusted.Makeable key) cache' := by
  have hkey := h key
  rw [hnode] at hkey
  generalize hnode' : g'.node? key = node' at hkey
  cases hkey with
  | some hsince =>
    cases hsince with
    | recipe hcache => exact ⟨_, cache?_of_node? hnode', hcache⟩

end Amid

end Graph

/-- A component that is found is there or can be made. -/
theorem Cache.Amid.attainable {g : Graph σ ι} {key : Key} {inputs : Inputs}
    {construct : Args ι → Program σ ι} {cache cache' : Cache ι}
    (h : cache.Amid (g.trusted.Makeable key) cache')
    (hnode : g.node? key = some (.recipe inputs construct cache))
    (hmark : cache'.poisoned = false) (hmade : cache'.made ≠ none) :
    g.trusted.Attainable key := by
  cases hbefore : cache.made with
  | none => exact fun _ => h.made hbefore hmade
  | some item =>
    refine Graph.attainable_of_isCached hnode ?_
    simp [Node.isCached, h.free, ← h.mark, hmark, hbefore]

/-! ## The rules -/

section
variable (g : Graph σ ι) (known : Key → Instance ι → Prop) (missed : List Key)

/-- What a thread may do with these locks. It waits only for the lock of a component that is there
or can be made, and that the constructions under way lead to. -/
def Act.Allowed (s : Stack) : Act σ ι → Prop
  | .lock key => (∃ cache, g.cache? key = some cache) ∧ g.trusted.Attainable key ∧
    ∀ outer ∈ s, outer.2 ≠ .looking ∧
      (g.trusted.Pending key → TransGen g.trusted.Uses outer.1 key)
  | .call key entries => s.head? = some (key, .gathering) ∧
    ∀ p item, (p, some item) ∈ entries → known p.key item
  | .returned key _ => s.head? = some (key, .calling)
  | .store key _ => s.head? = some (key, .made)
  | .release key => ∃ stage, s.head? = some (key, stage) ∧ stage.isOver = true
  | .poison _ => False
  | .register _ _ => False
  | _ => True

/-- What answers a thread may get. It does not get the locks that it misses. -/
def Act.Yields : (a : Act σ ι) → a.Answer → Prop
  | .peek key, node => ∃ g', g.Amid g' ∧ g'.KnownTo known ∧ g'.node? key = node
  | .look key, none => key ∈ missed
  | .look key, some cache => ∃ g', g.Amid g' ∧ g'.KnownTo known ∧ g'.cache? key = some cache
  | .lock key, none => g.trusted.Pending key
  | .lock key, some item => known key item
  | .store key item, _ => known key item
  | _, _ => True

/-- The locks that a thread has after an act. -/
def Act.after (s : Stack) : (a : Act σ ι) → a.Answer → Stack
  | .look key, some _ => (key, .looking) :: s
  | .lock key, some _ => (key, .looking) :: s
  | .lock key, none => (key, .gathering) :: s
  | .call key _, _ => (key, .calling) :: s.tail
  | .returned key (.ok _), _ => (key, .made) :: s.tail
  | .returned key (.error _), _ => (key, .failed) :: s.tail
  | .store key _, _ => (key, .stored) :: s.tail
  | .release _, _ => s.tail
  | _, _ => s

/-- The thread does only what it may, and ends with such locks and such a result. -/
def Thread.Meets (post : Stack → α → Prop) : Thread σ ι α → Stack → Prop
  | .done a, s => post s a
  | .act a next, s => a.Allowed g known s ∧
    ∀ answer, a.Yields g known missed answer → (next answer).Meets post (a.after s answer)

/-- A node of the first graph, and as what a thread may find it. -/
structure Graph.Shows (key : Key) (node node' : Node σ ι) : Prop where
  registered : g.node? key = some node
  since : node.Amid (g.trusted.Makeable key) node'
  known : ∀ item, node'.item? = some item → known key item

/-- A constructor whose component a thread did not see: it is still to be made, or somebody had the
lock of its cache. -/
structure Graph.Unseen (key : Key) (inputs : Inputs) : Prop where
  without : (g.without missed).trusted.Unbuilt key inputs
  cause : g.trusted.Unbuilt key inputs ∨ key ∈ missed ∧ g.item? key ≠ none

end

namespace Thread

variable {g : Graph σ ι} {known : Key → Instance ι → Prop} {missed : List Key} {s : Stack}
  {key : Key} {node node' : Node σ ι}

theorem Meets.bind {mid : Stack → α → Prop} {post : Stack → β → Prop} {t : Thread σ ι α}
    {f : α → Thread σ ι β} (h : t.Meets g known missed mid s)
    (hnext : ∀ s' a, mid s' a → (f a).Meets g known missed post s') :
    (t.bind f).Meets g known missed post s := by
  induction t generalizing s with
  | done a => exact hnext s a h
  | act a next ih => exact ⟨h.1, fun answer hyields => ih answer (h.2 answer hyields)⟩

theorem Meets.mono {post post' : Stack → α → Prop} {t : Thread σ ι α}
    (h : t.Meets g known missed post s) (hpost : ∀ s' a, post s' a → post' s' a) :
    t.Meets g known missed post' s := by
  induction t generalizing s with
  | done a => exact hpost s a h
  | act a next ih => exact ⟨h.1, fun answer hyields => ih answer (h.2 answer hyields)⟩

/-- A node is found. -/
theorem Meets.peek {post : Stack → α → Prop} {next : Option (Node σ ι) → Thread σ ι α}
    (hnone : g.node? key = none → (next none).Meets g known missed post s)
    (hsome : ∀ node node', g.Shows known key node node' →
      (next (some node')).Meets g known missed post s) :
    (Thread.act (.peek key) next).Meets g known missed post s := by
  refine ⟨trivial, ?_⟩
  rintro answer ⟨g', hamid, hknown, hnode'⟩
  cases answer with
  | none => exact hnone ((hamid.none_iff key).1 hnode')
  | some node' =>
    obtain ⟨node, hnode, hsince⟩ := hamid.node_of hnode'
    exact hsome node node' ⟨hnode, hsince, fun item hitem =>
      hknown key item ((Graph.item?_of_node? hnode').trans hitem)⟩

/-- A cache is looked into, which takes its lock for a moment. -/
theorem Meets.glance {post : Stack → α → Prop} {f : Option (Cache ι) → Thread σ ι α}
    {inputs : Inputs} {construct : Args ι → Program σ ι} {cache : Cache ι}
    (hnode : g.node? key = some (.recipe inputs construct cache))
    (hmissed : key ∈ missed → (f none).Meets g known missed post s)
    (hseen : ∀ cache', cache.Amid (g.trusted.Makeable key) cache' →
      (∀ item, cache'.made = some item → known key item) →
      (f (some cache')).Meets g known missed post s) :
    ((glance key).bind f).Meets g known missed post s := by
  refine ⟨trivial, fun answer hyields => ?_⟩
  cases answer with
  | none => exact hmissed hyields
  | some cache' =>
    obtain ⟨g', hamid, hknown, hcache'⟩ := hyields
    obtain ⟨_, hsame, hsince⟩ := hamid.recipe hnode
    cases hcache'.symm.trans hsame
    obtain ⟨_, _, hnode'⟩ := Graph.node?_of_cache? hcache'
    refine ⟨⟨.looking, rfl, rfl⟩, fun _ _ => hseen cache' hsince fun item hitem => ?_⟩
    exact hknown key item ((Graph.item?_of_node? hnode').trans hitem)

/-! ### Looks -/

/-- A thread that is told that a node is cached may count on its key. Otherwise it has not seen the
component. -/
theorem isCached_meets (hshown : g.Shows known key node node') :
    (isCached key node').Meets g known missed (fun s' cached => s' = s ∧
      if cached then g.trusted.Attainable key else g.Unseen missed key node'.inputs) s := by
  obtain ⟨hnode, hsince, -⟩ := hshown
  cases hsince with
  | value item => exact ⟨rfl, Graph.attainable_of_isCached hnode rfl⟩
  | @recipe inputs construct cache cache' _ =>
    have hunseen (hcause : key ∈ missed ∨
        (Node.recipe inputs construct cache).isCached = false) : g.Unseen missed key inputs := by
      refine ⟨Graph.unbuilt_without.2 ⟨construct, cache, hnode, hcause⟩, ?_⟩
      cases hcached : (Node.recipe inputs construct cache).isCached with
      | false => exact .inl (Graph.unbuilt_trusted.2 ⟨construct, cache, hnode, hcached⟩)
      | true =>
        rcases hcause with hmem | hnot
        · refine .inr ⟨hmem, fun hnone => ?_⟩
          rw [Graph.item?_of_node? hnode, Node.item?] at hnone
          simp [Node.isCached, hnone] at hcached
        · cases hcached.symm.trans hnot
    refine Meets.glance hnode (fun hmem => ⟨rfl, hunseen (.inl hmem)⟩) fun cache'' hamid _ => ?_
    refine ⟨rfl, ?_⟩
    cases hfound : (some cache'').any fun cache => !cache.poisoned && cache.made.isSome with
    | true =>
      rw [if_pos rfl]
      simp only [Option.any_some, Bool.and_eq_true, Bool.not_eq_true', Option.isSome_iff_ne_none]
        at hfound
      exact hamid.attainable hnode hfound.1 hfound.2
    | false =>
      rw [if_neg Bool.false_ne_true]
      refine hunseen (.inr (Bool.eq_false_iff.2 fun hcached => ?_))
      simp only [Node.isCached, Bool.and_eq_true, Bool.not_eq_true', Option.isSome_iff_exists]
        at hcached
      obtain ⟨⟨-, hmark⟩, item, hitem⟩ := hcached
      simp [hamid.mark, hmark, hamid.kept item hitem] at hfound

/-- What is taken from a cache is the component of the key. Nothing is taken if the key was missed,
or if nothing was there from the beginning. -/
theorem available_meets (hshown : g.Shows known key node node') :
    (available key node').Meets g known missed (fun s' found => s' = s ∧
      match found with
      | some item => known key item
      | none => key ∈ missed ∨ node.available = none) s := by
  obtain ⟨hnode, hsince, hitem⟩ := hshown
  cases hsince with
  | value item => exact ⟨rfl, hitem item rfl⟩
  | recipe =>
    refine Meets.glance hnode (fun hmem => ⟨rfl, .inl hmem⟩) fun cache'' hamid hknown => ?_
    refine ⟨rfl, ?_⟩
    cases hmade : cache''.made with
    | some item => simpa [hmade] using hknown item hmade
    | none =>
      simp only [Option.bind_some, hmade]
      refine .inr ?_
      rw [Node.available, hamid.free, if_neg Bool.false_ne_true]
      exact Option.eq_none_iff_forall_ne_some.2 fun item hbefore =>
        Option.some_ne_none item ((hamid.kept item hbefore).symm.trans hmade)

/-! ### The check -/

/-- The first missing input is found by looking what is registered, which no thread changes. -/
theorem seek_meets (inputs : Inputs) :
    (seek inputs).Meets g known missed (fun s' found => s' = s ∧ found = g.firstMissing inputs)
      s := by
  induction inputs with
  | nil => exact ⟨rfl, rfl⟩
  | cons p rest ih =>
    rw [seek, Graph.firstMissing, List.find?_cons, Graph.contains]
    cases hoptional : p.optional with
    | true => exact ih
    | false =>
      rw [if_neg Bool.false_ne_true]
      refine .peek (fun hnone => ?_) fun node node' hnode => ?_
      · rw [hnone]
        exact ⟨rfl, rfl⟩
      · rw [hnode.registered]
        exact ih

end Thread

namespace Graph

section
variable (g : Graph σ ι) (missed : List Key)

/-- The components that were there of those whose locks were held could be made anew. -/
def Spared : Prop :=
  ∀ k ∈ missed, g.item? k ≠ none → (g.without missed).trusted.Attainable k

/-- What a walk to a component has shown: it has come to its end, and the component is there or can
be made, or it has failed. Without the components whose locks were held this one could not be made,
and if they are spared then the walk of the first graph fails, too, wherever that one has been. -/
def Judged (visit : Key → Node σ ι → List Key → Except GraphError (List Key)) (path : List Key)
    (key : Key) : Except GraphError (List Key) → Prop
  | .ok been => (∀ k ∈ been, g.trusted.Attainable k) ∧ g.trusted.Attainable key
  | .error e => ¬ (g.without missed).trusted.Attainable key ∧
    (g.Spared missed → g.trusted.Way path key → ∃ node, g.trusted.node? key = some node ∧
      ∀ done, g.trusted.Ordered done → visit key node done = .error e)

/-- The same of a walk through inputs. -/
def InputsJudged (visit : Key → Node σ ι → List Key → Except GraphError (List Key))
    (path : List Key) (inputs : Inputs) : Except GraphError (List Key) → Prop
  | .ok been => (∀ k ∈ been, g.trusted.Attainable k) ∧ ∀ p ∈ inputs, g.trusted.Attainable p.key
  | .error e =>
    (∃ p ∈ inputs, p.key ∈ path ∨ ¬ (g.without missed).trusted.Attainable p.key) ∧
      (g.Spared missed → (∀ p ∈ inputs, p.key ∉ path → g.trusted.Way path p.key) →
        ∀ done, g.trusted.Ordered done → g.trusted.visitInputs path visit inputs done = .error e)

end

section
variable {g : Graph σ ι} {missed : List Key} {key : Key} {inputs : Inputs} {path : List Key}
  {depth : Nat}

/-- There are fewer keys on the way to a key of the graph than nodes. -/
theorem Way.length_lt (h : g.Way path key) {node : Node σ ι} (hnode : g.node? key = some node) :
    path.length < g.size :=
  path_length_lt hnode h.nodup h.subset_keys h.off

/-- The inputs of a component that can be made are not on the way to it. -/
theorem Way.input_off (h : g.Way path key) (hmakeable : g.Makeable key)
    (hunbuilt : g.Unbuilt key inputs) {p : Param} (hp : p ∈ inputs) : p.key ∉ path ++ [key] := by
  intro hmem
  have hpending : g.Pending key := ⟨inputs, hunbuilt⟩
  obtain ⟨hinput, hback⟩ : g.Needs p.key key := by
    rcases List.mem_append.1 hmem with hmem | hmem
    · exact h.needs hpending p.key hmem
    · rw [List.mem_singleton.1 hmem]
      exact ⟨hpending, .refl⟩
  exact hmakeable.not_looping (.head' ⟨inputs, hunbuilt, ⟨p, hp, rfl⟩, hinput⟩ hback)

/-- A walk that fails whenever it sets out for a component where it has not been always fails. -/
theorem Way.error_of_new (h : g.Way path key) (hg : g.Calm) {node : Node σ ι} {e : GraphError}
    (hnode : g.node? key = some node)
    (hvisit : ∀ done, g.Ordered done → key ∉ done →
      g.visit depth path key node done = .error e) {done : List Key} (hdone : g.Ordered done) :
    g.visit depth path key node done = .error e :=
  hvisit done hdone fun hmem =>
    hdone.not_unsound hmem (h.unsound hg hnode (hvisit [] .nil List.not_mem_nil))

/-! ### A component that was not seen -/

/-- If all that is there is spared, and the component could not be made anew, it is still to be
made. -/
theorem Unseen.unbuilt (h : g.Unseen missed key inputs) (hspared : g.Spared missed)
    (hnot : ¬ (g.without missed).trusted.Attainable key) : g.trusted.Unbuilt key inputs := by
  rcases h.cause with hunbuilt | ⟨hmem, hmade⟩
  · exact hunbuilt
  · exact absurd (hspared key hmem hmade) hnot

/-- A component that lacks an input, or one of whose inputs cannot be made, cannot be made. -/
theorem Unseen.not_attainable (h : g.Unseen missed key inputs) {p : Param} (hp : p ∈ inputs)
    (hinput : p.optional = false ∧ g.node? p.key = none ∨
      ¬ (g.without missed).trusted.Attainable p.key) :
    ¬ (g.without missed).trusted.Attainable key := by
  intro hattainable
  cases hattainable ⟨inputs, h.without⟩ with
  | intro hunbuilt hrequired hused =>
    rw [h.without.unique hunbuilt] at hp
    rcases hinput with ⟨hoptional, hnone⟩ | hnot
    · refine hrequired p hp hoptional ?_
      rw [node?_trusted, node?_without, hnone]
      rfl
    · exact hnot (hused p hp)

/-- A required input that is missing decides. -/
theorem Unseen.judged_of_missing (h : g.Unseen missed key inputs) {p : Param}
    (hmissing : g.firstMissing inputs = some p) :
    g.Judged missed (g.trusted.visit (depth + 1) path) path key
      (.error (.missingDependency p.key (some key))) := by
  obtain ⟨hp, hwhy⟩ := missing_of_firstMissing hmissing
  have hnot := h.not_attainable hp (.inl hwhy)
  refine ⟨hnot, fun hspared hway => ?_⟩
  have hunbuilt := h.unbuilt hspared hnot
  obtain ⟨construct, cache, hnode, -⟩ := h.unbuilt hspared hnot
  refine ⟨_, hnode, fun done hdone => hway.error_of_new g.trusted_calm hnode ?_ hdone⟩
  intro done _ hnew
  rw [visit_recipe g.trusted_calm hnode ⟨inputs, hunbuilt⟩ hnew, firstMissing_trusted, hmissing]

/-- The walk through the inputs decides. -/
theorem Unseen.judged_of_inputs (h : g.Unseen missed key inputs)
    (hway : (g.without missed).trusted.Way path key)
    (hmissing : g.firstMissing inputs = none) {r : Except GraphError (List Key)}
    (hr : g.InputsJudged missed (g.trusted.visit depth (path ++ [key])) (path ++ [key]) inputs r) :
    g.Judged missed (g.trusted.visit (depth + 1) path) path key (r.map (· ++ [key])) := by
  cases r with
  | ok been =>
    obtain ⟨hbeen, hall⟩ := hr
    have hattainable : g.trusted.Attainable key := by
      rintro ⟨inputs', hunbuilt⟩
      obtain rfl : inputs = inputs' :=
        h.without.unique ((g.surer_without missed).unbuilt key inputs' hunbuilt)
      refine .intro hunbuilt (fun p hp hoptional hnone => ?_) hall
      rw [node?_trusted, Option.map_eq_none_iff] at hnone
      exact required_of_firstMissing hmissing p hp hoptional hnone
    refine ⟨fun k hk => ?_, hattainable⟩
    rcases List.mem_append.1 hk with hk | hk
    · exact hbeen k hk
    · rwa [List.mem_singleton.1 hk]
  | error e =>
    obtain ⟨⟨p, hp, hwhy⟩, hvisit⟩ := hr
    have hnot : ¬ (g.without missed).trusted.Attainable key := by
      rcases hwhy with hback | hnot
      · intro hattainable
        exact hway.input_off (hattainable ⟨inputs, h.without⟩) h.without hp hback
      · exact h.not_attainable hp (.inr hnot)
    refine ⟨hnot, fun hspared hway' => ?_⟩
    have hunbuilt := h.unbuilt hspared hnot
    obtain ⟨construct, cache, hnode, -⟩ := h.unbuilt hspared hnot
    refine ⟨_, hnode, fun done hdone => hway'.error_of_new g.trusted_calm hnode ?_ hdone⟩
    intro done hdone hnew
    rw [visit_recipe g.trusted_calm hnode ⟨inputs, hunbuilt⟩ hnew, firstMissing_trusted, hmissing]
    dsimp only
    rw [hvisit hspared (fun p hp hoff => hway'.next hunbuilt hp hoff) done hdone]

end

end Graph

namespace Thread

variable {g : Graph σ ι} {known : Key → Instance ι → Prop} {missed : List Key} {s : Stack}
  {key : Key} {node node' : Node σ ι}

/-- Inputs are judged one after another, if each of them is. -/
theorem visitInputs_meets {path : List Key} {inputs : Inputs}
    {visit : Key → Node σ ι → List Key → Thread σ ι (Except GraphError (List Key))}
    {visit' : Key → Node σ ι → List Key → Except GraphError (List Key)}
    (hvisit : ∀ p ∈ inputs, p.key ∉ path → ∀ node node', g.Shows known p.key node node' →
      ∀ been, (∀ k ∈ been, g.trusted.Attainable k) →
      (visit p.key node' been).Meets g known missed
        (fun s' r => s' = s ∧ g.Judged missed visit' path p.key r) s)
    (hpass : ∀ p ∈ inputs, g.trusted.Way path p.key → g.trusted.Attainable p.key →
      ∀ node done, g.trusted.node? p.key = some node → g.trusted.Ordered done →
      ∃ done', visit' p.key node done = .ok done' ∧ g.trusted.Ordered done')
    {been : List Key} (hbeen : ∀ k ∈ been, g.trusted.Attainable k) :
    (visitInputs path visit inputs been).Meets g known missed
      (fun s' r => s' = s ∧ g.InputsJudged missed visit' path inputs r) s := by
  induction inputs generalizing been with
  | nil => exact ⟨rfl, hbeen, fun _ hp => absurd hp List.not_mem_nil⟩
  | cons p rest ih =>
    obtain ⟨hvisit, hvisits⟩ := List.forall_mem_cons.1 hvisit
    obtain ⟨hpass, hpasses⟩ := List.forall_mem_cons.1 hpass
    rw [visitInputs]
    by_cases hback : p.key ∈ path
    · rw [if_pos hback]
      refine ⟨rfl, ⟨p, List.mem_cons_self, .inl hback⟩, fun _ _ done _ => ?_⟩
      rw [Graph.visitInputs, if_pos hback]
    rw [if_neg hback]
    -- the rest decides once the walk of the first graph passes the first input, too
    have hrest (hfirst : g.trusted.Attainable p.key) {r : Except GraphError (List Key)}
        (hr : g.InputsJudged missed visit' path rest r) :
        g.InputsJudged missed visit' path (p :: rest) r := by
      cases r with
      | ok been => exact ⟨hr.1, List.forall_mem_cons.2 ⟨hfirst, hr.2⟩⟩
      | error e =>
        obtain ⟨⟨q, hq, hwhy⟩, hvisit⟩ := hr
        refine ⟨⟨q, List.mem_cons_of_mem _ hq, hwhy⟩, fun hspared hways done hdone => ?_⟩
        obtain ⟨hway, hways⟩ := List.forall_mem_cons.1 hways
        rw [Graph.visitInputs, if_neg hback]
        cases hnode : g.trusted.node? p.key with
        | none => exact hvisit hspared hways done hdone
        | some node =>
          obtain ⟨done', hpassed, hdone'⟩ := hpass (hway hback) hfirst node done hnode hdone
          dsimp only
          rw [hpassed]
          exact hvisit hspared hways done' hdone'
    refine .peek (fun hnone => ?_) fun node node' hshown => ?_
    · refine (ih hvisits hpasses hbeen).mono fun s' r hr => ⟨hr.1, hrest ?_ hr.2⟩
      refine Graph.attainable_of_none ?_
      rw [g.node?_trusted, hnone, Option.map_none]
    · refine (hvisit hback node node' hshown been hbeen).bind ?_
      rintro s' r ⟨rfl, hr⟩
      cases r with
      | ok been =>
        exact (ih hvisits hpasses hr.1).mono fun s'' r' hr' => ⟨hr'.1, hrest hr.2 hr'.2⟩
      | error e =>
        refine ⟨rfl, ⟨p, List.mem_cons_self, .inr hr.1⟩, fun hspared hways done hdone => ?_⟩
        obtain ⟨trusted, hnode, hfails⟩ := hr.2 hspared (hways p List.mem_cons_self hback)
        rw [Graph.visitInputs, if_neg hback, hnode]
        dsimp only
        rw [hfails done hdone]

/-- A walk goes on only where it has not been, through what it does not see made. -/
theorem meets_unless_seen {path been : List Key}
    {visit : Key → Node σ ι → List Key → Except GraphError (List Key)}
    {next : Bool → Thread σ ι (Except GraphError (List Key))}
    (hbeen : ∀ k ∈ been, g.trusted.Attainable k) (hshown : g.Shows known key node node')
    (hseen : next true = .done (.ok been))
    (hnext : g.Unseen missed key node'.inputs → (next false).Meets g known missed
      (fun s' r => s' = s ∧ g.Judged missed visit path key r) s) :
    (if key ∈ been then .done (.ok been) else (isCached key node').bind next).Meets g known missed
      (fun s' r => s' = s ∧ g.Judged missed visit path key r) s := by
  by_cases hmem : key ∈ been
  · rw [if_pos hmem]
    exact ⟨rfl, hbeen, hbeen key hmem⟩
  rw [if_neg hmem]
  refine (isCached_meets hshown).bind ?_
  rintro s' cached ⟨rfl, hcached⟩
  cases cached with
  | true =>
    rw [hseen]
    exact ⟨rfl, hbeen, hcached⟩
  | false => exact hnext hcached

/-- The check, with others at work. -/
theorem visit_meets {depth : Nat} {path : List Key} {been : List Key}
    (hway : (g.without missed).trusted.Way path key) (hdepth : g.size ≤ path.length + depth)
    (hbeen : ∀ k ∈ been, g.trusted.Attainable k) (hshown : g.Shows known key node node') :
    (visit depth path key node' been).Meets g known missed
      (fun s' r => s' = s ∧ g.Judged missed (g.trusted.visit depth path) path key r) s := by
  have hsize : (g.without missed).trusted.size = g.size :=
    ((g.without missed).size_trusted).trans (g.size_without missed)
  induction depth generalizing path key node node' been s with
  | zero =>
    unfold visit
    refine meets_unless_seen hbeen hshown rfl fun hunseen => ?_
    obtain ⟨_, _, hnode, -⟩ := hunseen.without
    exact absurd hdepth (Nat.not_le_of_lt (hsize ▸ hway.length_lt hnode))
  | succ depth ih =>
    unfold visit
    refine meets_unless_seen hbeen hshown rfl fun hunseen => ?_
    cases node' with
    | value item =>
      have hcached : (Node.value item : Node σ ι).isCached = true := rfl
      exact ⟨rfl, hbeen, Graph.attainable_of_isCached hshown.registered
        (by cases hshown.since; exact hcached)⟩
    | recipe inputs construct cache' =>
      refine (seek_meets inputs).bind ?_
      rintro s' r ⟨rfl, rfl⟩
      cases hmissing : g.firstMissing inputs with
      | some p => exact ⟨rfl, hunseen.judged_of_missing hmissing⟩
      | none =>
        have hvisit : ∀ p ∈ inputs, p.key ∉ path ++ [key] → ∀ node node',
            g.Shows known p.key node node' → ∀ been, (∀ k ∈ been, g.trusted.Attainable k) →
            (visit depth (path ++ [key]) p.key node' been).Meets g known missed
              (fun s'' r => s'' = s' ∧ g.Judged missed
                (g.trusted.visit depth (path ++ [key])) (path ++ [key]) p.key r) s' :=
          fun p hp hoff node node' hinput been hbeen =>
            ih (hway.next hunseen.without hp hoff) (by simp; omega) hbeen hinput
        have hpass : ∀ p ∈ inputs, g.trusted.Way (path ++ [key]) p.key →
            g.trusted.Attainable p.key → ∀ node done, g.trusted.node? p.key = some node →
            g.trusted.Ordered done →
            ∃ done', g.trusted.visit depth (path ++ [key]) p.key node done = .ok done' ∧
              g.trusted.Ordered done' :=
          fun p _ hnext hattainable node done hnode hdone => hnext.passes g.trusted_calm hnode
            (by simp [g.size_trusted]; omega) hdone (hattainable.sound hnode)
        refine (visitInputs_meets hvisit hpass hbeen).bind ?_
        rintro s' r ⟨rfl, hr⟩
        have hjudged := hunseen.judged_of_inputs hway hmissing hr
        cases r <;> exact ⟨rfl, hjudged⟩

end Thread

/-! ## The construction -/

/-- The call returns what is so, or tells of a failed constructor. -/
def Outcome.Delivers (p : α → Prop) : Outcome GraphError α → Prop
  | .ok a => p a
  | .error e => e.ofCheck = false
  | .interrupted _ => False

namespace Thread

variable {g : Graph σ ι} {known : Key → Instance ι → Prop} {missed : List Key} {s : Stack}
  {key : Key} {node node' : Node σ ι}

/-- A thread that goes on with what was delivered to it conducts itself, if both parts do. -/
theorem Meets.andThen {p : α → Prop} {q : β → Prop} {t : Thread σ ι (Outcome GraphError α)}
    {f : α → Thread σ ι (Outcome GraphError β)}
    (h : t.Meets g known missed (fun s' r => s' = s ∧ r.Delivers p) s)
    (hnext : ∀ a, p a → (f a).Meets g known missed (fun s' r => s' = s ∧ r.Delivers q) s) :
    (t.andThen f).Meets g known missed (fun s' r => s' = s ∧ r.Delivers q) s := by
  refine h.bind ?_
  rintro s' r ⟨rfl, hr⟩
  cases r with
  | ok a => exact hnext a hr
  | error e => exact ⟨rfl, hr⟩
  | interrupted why => exact hr.elim

/-- A constructor that returns is not interrupted, and takes no lock. -/
theorem program_meets {p : Program σ ι} (h : p.Returns)
    (resolve : Key → Thread σ ι (Outcome GraphError (Instance ι))) :
    (p.thread resolve).Meets g known missed
      (fun s' outcome => s' = s ∧ ∀ why, outcome ≠ .interrupted why) s := by
  induction h with
  | finish result =>
    cases result with
    | ok value => exact ⟨rfl, fun _ => nofun⟩
    | error failure => exact ⟨rfl, fun _ => nofun⟩
  | read _ ih => exact ⟨trivial, fun world _ => ih world⟩
  | write world _ ih => exact ⟨trivial, fun _ _ => ih⟩

/-- A constructor is called with the lock of its key held, and gives it back. -/
theorem construct_meets {constructor : Args ι → Program σ ι}
    {entries : List (Param × Option (Instance ι))}
    (hreturns : (constructor ⟨key, entries⟩).Returns)
    (resolve : Key → Thread σ ι (Outcome GraphError (Instance ι)))
    (hentries : ∀ p item, (p, some item) ∈ entries → known p.key item) :
    (construct resolve key constructor entries).Meets g known missed
      (fun s' r => s' = s ∧ r.Delivers (known key)) ((key, .gathering) :: s) := by
  refine ⟨⟨rfl, hentries⟩, fun _ _ => (program_meets hreturns resolve).bind ?_⟩
  rintro s' outcome ⟨rfl, hreturned⟩
  cases outcome with
  | ok value =>
    refine ⟨rfl, fun _ _ => ⟨rfl, fun _ hknown => ?_⟩⟩
    exact ⟨⟨.stored, rfl, rfl⟩, fun _ _ => ⟨rfl, hknown⟩⟩
  | error failure => exact ⟨rfl, fun _ _ => ⟨⟨.failed, rfl, rfl⟩, fun _ _ => ⟨rfl, rfl⟩⟩⟩
  | interrupted why => exact absurd rfl (hreturned why)

/-- Inputs are found one after another, if each of them is. -/
theorem gather_meets {owner : Key} {inputs : Inputs}
    {find : Key → Node σ ι → Thread σ ι (Outcome GraphError (Instance ι))}
    (hrequired : ∀ p ∈ inputs, p.optional = false → g.node? p.key ≠ none)
    (hfind : ∀ p ∈ inputs, ∀ node node', g.Shows known p.key node node' →
      (find p.key node').Meets g known missed
        (fun s' r => s' = s ∧ r.Delivers (known p.key)) s) :
    (gather owner find inputs).Meets g known missed (fun s' r => s' = s ∧
      r.Delivers fun entries => ∀ p item, (p, some item) ∈ entries → known p.key item) s := by
  induction inputs with
  | nil => exact ⟨rfl, fun _ _ h => absurd h List.not_mem_nil⟩
  | cons p rest ih =>
    obtain ⟨hrequired, hrest⟩ := List.forall_mem_cons.1 hrequired
    obtain ⟨hfirst, hfind⟩ := List.forall_mem_cons.1 hfind
    refine .peek (fun hnone => ?_) fun node node' hnode => ?_
    · dsimp only
      cases hoptional : p.optional with
      | false => exact absurd hnone (hrequired hoptional)
      | true =>
        rw [if_pos rfl]
        refine (ih hrest hfind).andThen fun entries hentries => ⟨rfl, fun q item hq => ?_⟩
        rcases List.mem_cons.1 hq with hq | hq
        · cases hq
        · exact hentries q item hq
    · refine (hfirst node node' hnode).andThen fun found hfound =>
        (ih hrest hfind).andThen fun entries hentries => ⟨rfl, fun q item hq => ?_⟩
      rcases List.mem_cons.1 hq with hq | hq
      · cases hq
        exact hfound
      · exact hentries q item hq

/-- The construction, with others at work. -/
theorem build_meets {size depth : Nat} {path : List Key}
    (hreturns : g.Returns) (hway : g.trusted.Way path key) (hdepth : g.size ≤ path.length + depth)
    (hs : ∀ outer ∈ s, outer.1 ∈ path ∧ outer.2 ≠ .looking)
    (hattainable : g.trusted.Attainable key) (hshown : g.Shows known key node node') :
    (build size depth path key node').Meets g known missed
      (fun s' r => s' = s ∧ r.Delivers (known key)) s := by
  induction depth generalizing path key node node' s with
  | zero =>
    have hlt := hway.length_lt (Graph.node?_trusted_of hshown.registered)
    rw [g.size_trusted] at hlt
    exact absurd hdepth (Nat.not_le_of_lt hlt)
  | succ depth ih =>
    obtain ⟨hnode, hsince, hitem⟩ := hshown
    cases hsince with
    | value item => exact ⟨rfl, hitem item rfl⟩
    | @recipe inputs constructor cache cache' _ =>
      rw [build, if_neg hway.off]
      refine ⟨⟨⟨cache, Graph.cache?_of_node? hnode⟩, hattainable, fun outer houter => ?_⟩, ?_⟩
      · obtain ⟨hmem, hstage⟩ := hs outer houter
        refine ⟨hstage, fun hpending => ?_⟩
        rcases Relation.reflTransGen_iff_eq_or_transGen.1 (hway.needs hpending _ hmem).2 with
          heq | huses
        · exact absurd (heq ▸ hmem) hway.off
        · exact huses
      rintro answer hyields
      cases answer with
      | some item => exact ⟨⟨.looking, rfl, rfl⟩, fun _ _ => ⟨rfl, hyields⟩⟩
      | none =>
        cases hattainable hyields with
        | @intro _ inputs' hunbuilt hrequired hused =>
        obtain rfl : inputs = inputs' := by
          obtain ⟨_, _, hnode', _⟩ := Graph.unbuilt_trusted.1 hunbuilt
          cases hnode.symm.trans hnode'
          rfl
        have hgather : (gather key (build size depth (path ++ [key])) inputs).Meets g known missed
            (fun s' r => s' = (key, .gathering) :: s ∧
              r.Delivers fun entries => ∀ p item, (p, some item) ∈ entries → known p.key item)
            ((key, .gathering) :: s) := by
          refine gather_meets (fun p hp hoptional hnone => ?_)
            fun p hp node node' hinput => ?_
          · refine hrequired p hp hoptional ?_
            rw [g.node?_trusted, hnone, Option.map_none]
          · have hnext := hway.next hunbuilt hp (hway.input_off (hattainable hyields) hunbuilt hp)
            refine ih hnext (by simp; omega) (fun outer houter => ?_) (hused p hp) hinput
            rcases List.mem_cons.1 houter with rfl | houter
            · exact ⟨List.mem_append_right _ (List.mem_singleton_self _), Stage.noConfusion⟩
            · obtain ⟨hmem, hstage⟩ := hs outer houter
              exact ⟨List.mem_append_left _ hmem, hstage⟩
        refine hgather.bind ?_
        rintro s' r ⟨rfl, hr⟩
        cases r with
        | ok entries =>
          exact construct_meets (hreturns key inputs constructor cache hnode ⟨key, entries⟩) _ hr
        | error e => exact ⟨⟨.gathering, rfl, rfl⟩, fun _ _ => ⟨rfl, hr⟩⟩
        | interrupted why => exact hr.elim

/-- How the resolution of a key of the graph may end: with a component, in a failed constructor, or
in an error of the check. Without the components whose locks were held the check refuses the key
then, and if these are spared it refuses it with the same error. -/
def Ends (g : Graph σ ι) (known : Key → Instance ι → Prop) (missed : List Key) (key : Key) :
    Outcome GraphError (Instance ι) → Prop
  | .ok item => known key item
  | .error e => e.ofCheck = true →
    (∃ e', (g.without missed).Refuses key e') ∧ (g.Spared missed → g.Refuses key e)
  | .interrupted _ => False

/-- The resolution of a key, with others at work. -/
theorem resolve_meets (hreturns : g.Returns) (depth : Nat) (hdepth : g.size ≤ depth) (key : Key) :
    (resolve g.size depth key).Meets g known missed
      (fun s r => s = [] ∧ Ends g known missed key r) [] := by
  refine .peek (fun hnone => ?_) fun node node' hshown => ?_
  · refine ⟨rfl, fun _ => ⟨⟨_, Graph.refuses_of_none ?_⟩, fun _ => Graph.refuses_of_none hnone⟩⟩
    rw [Graph.node?_without, hnone]
    rfl
  refine (available_meets hshown).bind ?_
  rintro s found ⟨rfl, hfound⟩
  cases found with
  | some item => exact ⟨rfl, hfound⟩
  | none =>
    have hvisit := @visit_meets _ _ g known missed [] key node node' g.size [] [] (.nil _ _)
      (Nat.le_add_left ..) (fun _ h => absurd h List.not_mem_nil) hshown
    refine hvisit.bind ?_
    rintro s r ⟨rfl, hr⟩
    cases r with
    | ok been =>
      refine (build_meets hreturns (.nil _ _) (by simpa using hdepth)
        (fun _ h => absurd h List.not_mem_nil) hr.2 hshown).mono ?_
      rintro s r ⟨rfl, hr⟩
      refine ⟨rfl, ?_⟩
      cases r with
      | ok item => exact hr
      | error e =>
        intro hkind
        cases hr.symm.trans hkind
      | interrupted why => exact hr
    | error e =>
      obtain ⟨hnot, hsame⟩ := hr
      have hnode := hshown.registered
      refine ⟨rfl, fun _ => ⟨Graph.refused_without hnode hfound hnot, fun hspared => ?_⟩⟩
      obtain ⟨trusted, htrusted, hvisit⟩ := hsame hspared (.nil _ _)
      cases (Graph.node?_trusted_of hnode).symm.trans htrusted
      have hverify : g.verify key node = .error e := by
        rw [← Graph.verify_trusted, Graph.verify, Graph.size_trusted, hvisit [] .nil]
      refine Graph.refuses_of_verify hnode ?_ hverify
      rcases hfound with hmem | hnone
      · refine Option.eq_none_iff_forall_ne_some.2 fun item havailable => hnot ?_
        refine hspared key hmem ?_
        rw [Graph.item?_of_node? hnode, Node.item?_of_available havailable]
        exact Option.some_ne_none item
      · exact hnone

end Thread

end ServiceHost
