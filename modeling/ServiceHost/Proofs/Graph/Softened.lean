import Mathlib.Data.List.Forall2
import ServiceHost.Proofs.Graph.Deeds
import ServiceHost.Proofs.Graph.Trust

/-!
# Failures in place of panics

Two graphs are worked at alike, but some calls that panic at the first one fail at the second
(`Program.Softened`): the second graph differs from the first by marks that it lacks and by what its
constructors do where those of the first panic (`Graph.Softened`). The check before a construction
can be led astray by a mark, since it does not trust the component then, but it ends alike in both
graphs unless it misjudges the key in the first one (`Graph.Softened.verify`).
-/

namespace ServiceHost

variable {σ ι ε α : Type}

/-! ## The relation -/

/-- The second program goes the way of the first, and may fail where that panics. A failure that
takes the place of a panic in a key that it resolves lets the program fail at once, as the panic
would have passed it by. -/
inductive Program.Softened : Program σ ι → Program σ ι → Prop
  | finish (result : Except Failure ι) : Softened (.finish result) (.finish result)
  | panic (text : String) : Softened (.panic text) (.panic text)
  | failure (text : String) (failure : Failure) :
      Softened (.panic text) (.finish (.error failure))
  | read {next next' : σ → Program σ ι} (h : ∀ world, Softened (next world) (next' world)) :
      Softened (.read next) (.read next')
  | write (world : σ) {next next' : Program σ ι} (h : Softened next next') :
      Softened (.write world next) (.write world next')
  | resolve (key : Key) {next next' : Except GraphError (Instance ι) → Program σ ι}
      (h : ∀ answer, Softened (next answer) (next' answer))
      (hfail : ∀ owner failure, ∃ failure',
        next' (.error (.constructor owner failure)) = .finish (.error failure')) :
      Softened (.resolve key next) (.resolve key next')
  | supply (key : Key) (value : ι) {next next' : Except GraphError Unit → Program σ ι}
      (h : ∀ answer, Softened (next answer) (next' answer)) :
      Softened (.supply key value next) (.supply key value next')
  | provide (key : Key) (inputs : Inputs) {construct construct' : Args ι → Program σ ι}
      {next next' : Except GraphError Unit → Program σ ι}
      (hconstruct : ∀ args, Softened (construct args) (construct' args))
      (h : ∀ answer, Softened (next answer) (next' answer)) :
      Softened (.provide key inputs construct next) (.provide key inputs construct' next')

/-- The same component and the same lock, and no mark that the first cache lacks. -/
structure Cache.Softened (cache cache' : Cache ι) : Prop where
  made : cache'.made = cache.made
  locked : cache'.locked = cache.locked
  poisoned : cache'.poisoned = true → cache.poisoned = true

/-- The same value, or constructors of the same inputs, the second one softened. -/
inductive Node.Softened : Node σ ι → Node σ ι → Prop
  | value (item : Instance ι) : Softened (.value item) (.value item)
  | recipe (inputs : Inputs) {construct construct' : Args ι → Program σ ι}
      {cache cache' : Cache ι} (hconstruct : ∀ args, (construct args).Softened (construct' args))
      (hcache : cache.Softened cache') :
      Softened (.recipe inputs construct cache) (.recipe inputs construct' cache')

/-- The same keys, with softened nodes. -/
def Graph.Softened (g g' : Graph σ ι) : Prop :=
  List.Forall₂ (fun e e' => e.1 = e'.1 ∧ e.2.Softened e'.2) g.entries g'.entries

/-- Graphs of which one is softened, in the same surroundings. -/
structure Workshop.Softened (w w' : Workshop σ ι) : Prop where
  graph : w.graph.Softened w'.graph
  beside : w.beside = none
  beside' : w'.beside = none
  world : w'.world = w.world

/-- The same outcome, or a failure in place of a panic. -/
inductive Outcome.Softened (failed : ε → Prop) : Outcome ε α → Outcome ε α → Prop
  | same (outcome : Outcome ε α) : Softened failed outcome outcome
  | failure (text : String) {e : ε} (h : failed e) :
      Softened failed (.interrupted (.panic text)) (.error e)

/-- The same deed, or checks of the same key in graphs of which one is softened. -/
inductive Deed.Softened : Deed σ ι → Deed σ ι → Prop
  | same (deed : Deed σ ι) : Softened deed deed
  | checked (key : Key) {g g' : Graph σ ι} (h : g.Softened g') :
      Softened (.checked key g) (.checked key g')

/-- A constructor has failed. -/
def GraphError.OfConstructor (e : GraphError) : Prop :=
  ∃ owner failure, e = .constructor owner failure

/-- No key is misjudged by a check. -/
def Deed.Fair (deed : Deed σ ι) : Prop :=
  ∀ key graph, deed = .checked key graph → ¬ graph.Misjudged key

theorem Deed.Softened.refl (deeds : List (Deed σ ι)) : List.Forall₂ Deed.Softened deeds deeds :=
  List.forall₂_same.2 fun deed _ => .same deed

/-! ## Softened graphs -/

theorem Node.Softened.available {node node' : Node σ ι} (h : node.Softened node') :
    node'.available = node.available := by
  cases h with
  | value => rfl
  | recipe _ _ hcache => simp only [Node.available, hcache.made, hcache.locked]

/-- What is trusted in the first graph is trusted in the second. -/
theorem Node.Softened.isCached {node node' : Node σ ι} (h : node.Softened node')
    (hcached : node.isCached = true) : node'.isCached = true := by
  cases h with
  | value => rfl
  | @recipe _ _ _ cache cache' _ hcache =>
    obtain ⟨hmade, hlocked, hmark⟩ := hcache
    simp only [Node.isCached, hmade, hlocked, Bool.and_eq_true, Bool.not_eq_true'] at hcached ⊢
    obtain ⟨⟨hfree, hclean⟩, hthere⟩ := hcached
    refine ⟨⟨hfree, Bool.eq_false_iff.2 fun hpoisoned => ?_⟩, hthere⟩
    cases hclean.symm.trans (hmark hpoisoned)

namespace Graph.Softened

variable {g g' : Graph σ ι} {key : Key} {node node' : Node σ ι}

theorem size (h : g.Softened g') : g'.size = g.size :=
  h.length_eq.symm

/-- Nodes under the same key correspond. -/
theorem node? (h : g.Softened g') (key : Key) :
    Option.Rel Node.Softened (g.node? key) (g'.node? key) := by
  obtain ⟨entries⟩ := g
  obtain ⟨entries'⟩ := g'
  change List.Forall₂ _ entries entries' at h
  simp only [Graph.node?]
  induction h with
  | nil => exact .none
  | @cons e e' rest rest' hfirst _ ih =>
    obtain ⟨hkey, hnode⟩ := hfirst
    rw [List.lookup_cons, List.lookup_cons, ← hkey]
    split
    · exact .some hnode
    · exact ih

theorem node_none (h : g.Softened g') : g'.node? key = none ↔ g.node? key = none := by
  have hkey := h.node? key
  generalize g.node? key = found, g'.node? key = found' at hkey
  cases hkey <;> simp

/-- A node that is registered has one that corresponds. -/
theorem node_some (h : g.Softened g') (hnode : g.node? key = some node) :
    ∃ node', g'.node? key = some node' ∧ node.Softened node' := by
  have hkey := h.node? key
  rw [hnode] at hkey
  generalize g'.node? key = found' at hkey
  cases hkey with
  | some hsoft => exact ⟨_, rfl, hsoft⟩

/-- Nodes under the same key. -/
theorem nodes (h : g.Softened g') (hnode : g.node? key = some node)
    (hnode' : g'.node? key = some node') : node.Softened node' := by
  obtain ⟨_, hfound, hsoft⟩ := h.node_some hnode
  cases hnode'.symm.trans hfound
  exact hsoft

/-- Changes of caches that correspond. -/
theorem mapCache (h : g.Softened g') (key : Key) {f f' : Cache ι → Cache ι}
    (hf : ∀ c c', c.Softened c' → (f c).Softened (f' c')) :
    (g.mapCache key f).Softened (g'.mapCache key f') := by
  refine List.forall₂_map_left_iff.2 (List.forall₂_map_right_iff.2 (h.imp ?_))
  rintro ⟨k, node⟩ ⟨k', node'⟩ ⟨hkey, hnode⟩
  obtain rfl : k = k' := hkey
  simp only
  split
  · refine ⟨rfl, ?_⟩
    cases hnode with
    | value item => exact .value item
    | recipe inputs hconstruct hcache => exact .recipe inputs hconstruct (hf _ _ hcache)
  · exact ⟨rfl, hnode⟩

/-- The same keys are registered. -/
theorem contains (h : g.Softened g') (key : Key) : g'.contains key = g.contains key := by
  have hkey := h.node? key
  unfold Graph.contains
  generalize g.node? key = found, g'.node? key = found' at hkey
  cases hkey <;> rfl

/-- More is trusted of the second graph, and all that it has is in the first. -/
theorem surer (h : g.Softened g') : g.trusted.Surer g'.trusted where
  calm := g.trusted_calm
  calm' := g'.trusted_calm
  size := by rw [size_trusted, size_trusted, h.size]
  none key := by
    rw [node?_trusted, node?_trusted, Option.map_eq_none_iff, Option.map_eq_none_iff, h.node_none]
  unbuilt key inputs hunbuilt := by
    obtain ⟨construct', cache', hnode', hcached⟩ := unbuilt_trusted.1 hunbuilt
    cases hnode : g.node? key with
    | none => cases hnode'.symm.trans (h.node_none.2 hnode)
    | some node =>
      have hsoft := h.nodes hnode hnode'
      have hnot : node.isCached = false :=
        Bool.eq_false_iff.2 fun htrusted => by cases hcached.symm.trans (hsoft.isCached htrusted)
      cases hsoft with
      | recipe => exact unbuilt_trusted.2 ⟨_, _, hnode, hnot⟩

/-- What the second graph trusts in addition was made, and is unsound only if it is misjudged. -/
theorem soundBetween (h : g.Softened g') (hfair : ¬ g.Misjudged key) :
    g.trusted.SoundBetween g'.trusted key := by
  intro needed hneeds hmade hunsound
  refine hfair ⟨needed, hneeds, ?_, hunsound⟩
  obtain ⟨inputs, hunbuilt⟩ := hneeds.pending
  obtain ⟨construct, cache, hnode, hcached⟩ := unbuilt_trusted.1 hunbuilt
  obtain ⟨node', hnode', hsoft⟩ := h.node_some hnode
  cases hsoft with
  | @recipe _ _ construct' _ cache' _ hcache =>
    have hcached' : (Node.recipe inputs construct' cache').isCached = true :=
      Bool.not_eq_false _ ▸ fun hnot => hmade ⟨inputs, unbuilt_trusted.2 ⟨_, _, hnode', hnot⟩⟩
    rw [item?_of_node? hnode]
    simp only [Node.isCached, hcache.made, Bool.and_eq_true] at hcached'
    exact Option.isSome_iff_ne_none.1 hcached'.2

/-- The check of a key that is not misjudged ends alike in both graphs. -/
theorem verify (h : g.Softened g') (hnode : g.node? key = some node)
    (hnode' : g'.node? key = some node') (hfair : ¬ g.Misjudged key) :
    g'.verify key node' = g.verify key node := by
  rw [← verify_trusted, ← verify_trusted g]
  refine h.surer.verify_same ?_ ?_ (h.soundBetween hfair)
  · rw [node?_trusted, hnode, Option.map_some]
  · rw [node?_trusted, hnode', Option.map_some]

end Graph.Softened

end ServiceHost
