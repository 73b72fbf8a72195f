import ServiceHost.Proofs.Graph.Origins
import ServiceHost.Proofs.Graph.Search

/-!
# What the check trusts

The check looks at the inputs and caches of nodes and at nothing else, and judges graphs alike in
which these are the same (`Graph.verify_mapNodes`).

The check before a construction takes a component for granted if its cache is neither locked nor
marked by a panic, and walks on through its inputs otherwise, also if the component is there. It
judges a graph as if the components that it does not trust were not made yet (`Graph.trusted`,
`verify_trusted`), and so it is right about that graph. Of two graphs with the same nodes, the one
in which more is trusted is judged like the other one unless a component that only this one trusts
is unsound there (`Surer.verify_same`). A key is misjudged if it needs such a component, one that
was made and is unsound all the same (`Graph.Misjudged`), and the check then refuses it
(`Misjudged.refused`).
-/

namespace ServiceHost

open Relation

variable {σ σ' ι : Type}

/-! ## Graphs that look alike -/

/-- The graph with something else under each key. -/
def Graph.mapNodes (g : Graph σ ι) (f : Node σ ι → Node σ' ι) : Graph σ' ι :=
  ⟨g.entries.map fun e => (e.1, f e.2)⟩

/-- All that the check looks at is left. -/
structure Node.Unseen (f : Node σ ι → Node σ' ι) : Prop where
  inputs : ∀ node, (f node).inputs = node.inputs
  isCached : ∀ node, (f node).isCached = node.isCached

namespace Graph

variable {f : Node σ ι → Node σ' ι}

/-- Under each key is what has become of its node. -/
theorem node?_mapNodes (g : Graph σ ι) (f : Node σ ι → Node σ' ι) (key : Key) :
    (g.mapNodes f).node? key = (g.node? key).map f := by
  obtain ⟨entries⟩ := g
  simp only [mapNodes, node?]
  induction entries with
  | nil => rfl
  | cons e rest ih =>
    rw [List.map_cons, List.lookup_cons, List.lookup_cons]
    split
    · rfl
    · exact ih

theorem size_mapNodes (g : Graph σ ι) (f : Node σ ι → Node σ' ι) : (g.mapNodes f).size = g.size :=
  List.length_map _

theorem contains_mapNodes (g : Graph σ ι) (f : Node σ ι → Node σ' ι) (key : Key) :
    (g.mapNodes f).contains key = g.contains key := by
  rw [contains, node?_mapNodes, Option.isSome_map, contains]

theorem firstMissing_mapNodes (g : Graph σ ι) (f : Node σ ι → Node σ' ι) (inputs : Inputs) :
    (g.mapNodes f).firstMissing inputs = g.firstMissing inputs := by
  simp only [firstMissing, contains_mapNodes]

/-- Inputs are gone through alike, if each of them is visited alike. -/
theorem visitInputs_mapNodes {g : Graph σ ι} {path : List Key}
    {visit : Key → Node σ ι → List Key → Except GraphError (List Key)}
    {visit' : Key → Node σ' ι → List Key → Except GraphError (List Key)}
    (hvisit : ∀ key node done, visit' key (f node) done = visit key node done)
    (inputs : Inputs) (done : List Key) :
    (g.mapNodes f).visitInputs path visit' inputs done = g.visitInputs path visit inputs done := by
  induction inputs generalizing done with
  | nil => rfl
  | cons p rest ih =>
    unfold visitInputs
    rw [node?_mapNodes]
    cases g.node? p.key with
    | none => simp only [Option.map_none, ih]
    | some node => simp only [Option.map_some, hvisit, ih]

/-- A walk goes the same way where nodes look alike. -/
theorem visit_mapNodes (hf : Node.Unseen f) (g : Graph σ ι) (depth : Nat) (path : List Key)
    (key : Key) (node : Node σ ι) (done : List Key) :
    (g.mapNodes f).visit depth path key (f node) done = g.visit depth path key node done := by
  induction depth generalizing path key node done with
  | zero =>
    unfold visit
    rw [hf.isCached]
    cases node <;> cases f _ <;> rfl
  | succ depth ih =>
    have hsame := hf.inputs node
    have hcached := hf.isCached node
    unfold visit
    rw [hcached]
    cases hbeen : decide (key ∈ done) || node.isCached with
    | true => rfl
    | false =>
      obtain ⟨-, hnew⟩ := Bool.or_eq_false_iff.1 hbeen
      rw [hnew] at hcached
      generalize f node = node' at hsame hcached
      cases node with
      | value => cases hnew
      | recipe inputs construct cache =>
        cases node' with
        | value => cases hcached
        | recipe inputs' construct' cache' =>
          obtain rfl : inputs' = inputs := hsame
          simp only [firstMissing_mapNodes, visitInputs_mapNodes (ih (path ++ [key]))]

/-- The check judges graphs that look alike in the same way. -/
theorem verify_mapNodes (hf : Node.Unseen f) (g : Graph σ ι) (key : Key) (node : Node σ ι) :
    (g.mapNodes f).verify key (f node) = g.verify key node := by
  unfold verify
  rw [size_mapNodes, visit_mapNodes hf]

end Graph

/-! ## The graph as the check sees it -/

/-- The node with its component if the check trusts it, and without otherwise. -/
def Node.trusted (node : Node σ ι) : Node σ ι :=
  node.mapCache fun cache => if node.isCached then ⟨cache.made, false, false⟩ else .fresh

/-- The check trusts the same nodes. -/
theorem Node.isCached_trusted (node : Node σ ι) : node.trusted.isCached = node.isCached := by
  cases node with
  | value => rfl
  | recipe inputs construct cache =>
    obtain ⟨made, locked, poisoned⟩ := cache
    cases made <;> cases locked <;> cases poisoned <;> rfl

theorem Node.unseen_trusted : Unseen (trusted : Node σ ι → Node σ ι) where
  inputs node := by cases node <;> rfl
  isCached := isCached_trusted

namespace Graph

/-- The graph with the components that the check trusts, and no others. -/
def trusted (g : Graph σ ι) : Graph σ ι :=
  ⟨g.entries.map fun e => (e.1, e.2.trusted)⟩

/-- A component that was made is needed, and the check, which does not trust it, finds it unsound.
-/
def Misjudged (g : Graph σ ι) (key : Key) : Prop :=
  ∃ made, g.trusted.Needs key made ∧ g.item? made ≠ none ∧ g.trusted.Unsound made

section
variable {g : Graph σ ι} {key : Key} {node : Node σ ι}

theorem node?_trusted (g : Graph σ ι) (key : Key) :
    g.trusted.node? key = (g.node? key).map Node.trusted :=
  g.node?_mapNodes Node.trusted key

theorem size_trusted (g : Graph σ ι) : g.trusted.size = g.size :=
  g.size_mapNodes Node.trusted

/-- Where only trusted components are left, no cache is locked or marked. -/
theorem trusted_calm (g : Graph σ ι) : g.trusted.Calm := by
  have hclear : ∀ key inputs construct cache,
      g.trusted.node? key = some (.recipe inputs construct cache) →
        cache.locked = false ∧ cache.poisoned = false := by
    intro key inputs construct cache hnode
    rw [node?_trusted] at hnode
    obtain ⟨node, -, hnode⟩ := Option.map_eq_some_iff.1 hnode
    cases node with
    | value => cases hnode
    | recipe =>
      cases hnode
      split <;> exact ⟨rfl, rfl⟩
  refine ⟨fun key inputs construct cache hnode hlocked => ?_, ?_⟩
  · cases (hclear key inputs construct cache hnode).1.symm.trans hlocked
  · rintro key ⟨inputs, construct, cache, hnode, hmarked⟩
    cases (hclear key inputs construct cache hnode).2.symm.trans hmarked

/-- What the check does not trust is to be made, from the inputs of its node. -/
theorem unbuilt_trusted {inputs : Inputs} :
    g.trusted.Unbuilt key inputs ↔ ∃ construct cache,
      g.node? key = some (.recipe inputs construct cache) ∧
        (Node.recipe inputs construct cache).isCached = false := by
  unfold Unbuilt
  rw [node?_trusted]
  constructor
  · rintro ⟨construct, cache, hnode, hnone⟩
    obtain ⟨node, hbefore, hsame⟩ := Option.map_eq_some_iff.1 hnode
    cases node with
    | value => cases hsame
    | recipe inputs construct cache =>
      cases hsame
      refine ⟨construct, cache, hbefore, Bool.eq_false_iff.2 fun hcached => ?_⟩
      simp only [if_pos hcached] at hnone
      simp [Node.isCached, hnone] at hcached
  · rintro ⟨construct, cache, hnode, hcached⟩
    refine ⟨construct, .fresh, ?_, rfl⟩
    rw [hnode, Option.map_some, Node.trusted, Node.mapCache, hcached]
    rfl

theorem firstMissing_trusted (g : Graph σ ι) (inputs : Inputs) :
    g.trusted.firstMissing inputs = g.firstMissing inputs :=
  g.firstMissing_mapNodes Node.trusted inputs

/-- The check judges a graph by what it trusts of it. -/
theorem verify_trusted (g : Graph σ ι) (key : Key) (node : Node σ ι) :
    g.trusted.verify key node.trusted = g.verify key node :=
  verify_mapNodes Node.unseen_trusted g key node

theorem node?_trusted_of (hnode : g.node? key = some node) :
    g.trusted.node? key = some node.trusted := by
  rw [node?_trusted, hnode, Option.map_some]

/-- The check fails for nothing else than what is not registered or leads back to itself. -/
theorem verify_ofCheck {e : GraphError} (hnode : g.node? key = some node)
    (h : g.verify key node = .error e) : e.ofCheck = true := by
  rw [← verify_trusted] at h
  exact verify_error g.trusted_calm (node?_trusted_of hnode) h

/-- A key that is misjudged is refused. -/
theorem Misjudged.refused (h : g.Misjudged key) (hnode : g.node? key = some node) :
    g.verify key node ≠ .ok () := by
  obtain ⟨made, hneeds, hmade, hunsound⟩ := h
  have hnode' := node?_trusted_of hnode
  intro hok
  rw [← verify_trusted] at hok
  refine (verify_ok_iff g.trusted_calm hnode').1 hok ?_
  rcases hunsound with hnone | ⟨needed, hrest, hfaulty⟩
  · rw [node?_trusted, Option.map_eq_none_iff] at hnone
    rw [item?, hnone] at hmade
    exact absurd rfl hmade
  · exact ⟨needed, ⟨hneeds.1, hneeds.2.trans hrest.2⟩, hfaulty⟩

end

/-! ## Ways through a graph -/

/-- The keys on the way to a key are others, each once, and need the key if it is to be made. -/
structure Way (g : Graph σ ι) (path : List Key) (key : Key) : Prop where
  nodup : path.Nodup
  off : key ∉ path
  pending : ∀ a ∈ path, g.Pending a
  needs : g.Pending key → ∀ a ∈ path, g.Needs a key

namespace Way

variable {g : Graph σ ι} {path done done' : List Key} {key : Key} {node : Node σ ι} {depth : Nat}

theorem nil (g : Graph σ ι) (key : Key) : g.Way [] key :=
  ⟨List.nodup_nil, List.not_mem_nil, nofun, nofun⟩

/-- The way on from a component to be made to one of its inputs. -/
theorem next (h : g.Way path key) {inputs : Inputs} (hunbuilt : g.Unbuilt key inputs) {p : Param}
    (hp : p ∈ inputs) (hoff : p.key ∉ path ++ [key]) : g.Way (path ++ [key]) p.key where
  nodup := by
    refine List.nodup_append.2 ⟨h.nodup, List.pairwise_singleton .., ?_⟩
    rintro a ha b hb rfl
    exact h.off (List.mem_singleton.1 hb ▸ ha)
  off := hoff
  pending a ha := by
    rcases List.mem_append.1 ha with ha | ha
    · exact h.pending a ha
    · rw [List.mem_singleton.1 ha]
      exact ⟨inputs, hunbuilt⟩
  needs hpending a ha := by
    have huses : g.Uses key p.key := ⟨inputs, hunbuilt, ⟨p, hp, rfl⟩, hpending⟩
    rcases List.mem_append.1 ha with ha | ha
    · exact (h.needs ⟨inputs, hunbuilt⟩ a ha).tail huses
    · rw [List.mem_singleton.1 ha]
      exact ⟨⟨inputs, hunbuilt⟩, .single huses⟩

theorem subset_keys (h : g.Way path key) : path ⊆ g.keys := by
  intro a ha
  obtain ⟨inputs, hunbuilt⟩ := h.pending a ha
  exact hunbuilt.mem_keys

/-- What a walk that comes to its end has been to is in order. -/
theorem ordered (h : g.Way path key) (hg : g.Calm) (hnode : g.node? key = some node)
    (hdepth : g.size ≤ path.length + depth) (hdone : g.Ordered done)
    (hok : g.visit depth path key node done = .ok done') : g.Ordered done' :=
  (visit_ok hg depth hnode h.nodup h.subset_keys h.off hdepth hdone hok).1.ordered

/-- A walk that fails set out for something unsound. -/
theorem unsound (h : g.Way path key) (hg : g.Calm) (hnode : g.node? key = some node)
    {e : GraphError} (herror : g.visit depth path key node done = .error e) : g.Unsound key :=
  .inr (visit_error hg depth hnode (h.needs (pending_of_visit_error hg hnode herror)) herror).2

/-- The walk to something sound comes to its end. -/
theorem passes (h : g.Way path key) (hg : g.Calm) (hnode : g.node? key = some node)
    (hdepth : g.size ≤ path.length + depth) (hdone : g.Ordered done) (hsound : ¬ g.Unsound key) :
    ∃ done', g.visit depth path key node done = .ok done' ∧ g.Ordered done' := by
  cases hvisit : g.visit depth path key node done with
  | ok done' => exact ⟨done', rfl, h.ordered hg hnode hdepth hdone hvisit⟩
  | error e => exact absurd (h.unsound hg hnode hvisit) hsound

end Way

/-- The walk goes on through a component that is to be made and where it has not been. -/
theorem visit_recipe {g : Graph σ ι} (hg : g.Calm) {key : Key} {inputs : Inputs}
    {construct : Args ι → Program σ ι} {cache : Cache ι} {done : List Key}
    (hnode : g.node? key = some (.recipe inputs construct cache)) (hpending : g.Pending key)
    (hnew : key ∉ done) (depth : Nat) (path : List Key) :
    g.visit (depth + 1) path key (.recipe inputs construct cache) done =
      match g.firstMissing inputs with
      | some p => .error (.missingDependency p.key (some key))
      | none =>
        match g.visitInputs (path ++ [key]) (g.visit depth (path ++ [key])) inputs done with
        | .ok done => .ok (done ++ [key])
        | .error e => .error e := by
  have hcached := (hg.isCached_eq_false_iff hnode).2 hpending
  rw [visit, hcached, Bool.or_false]
  exact if_neg (by simpa using hnew)

/-- What was walked to the end is sound. -/
theorem Ordered.not_unsound {g : Graph σ ι} {done : List Key} {key : Key} (h : g.Ordered done)
    (hkey : key ∈ done) : ¬ g.Unsound key := by
  obtain ⟨inputs, construct, cache, hnode, -⟩ := h.pending key hkey
  rintro (hnone | ⟨needed, hneeds, hfaulty⟩)
  · cases hnone.symm.trans hnode
  · exact (h.sound key hkey needed hneeds.2).2 hfaulty

/-! ## A graph in which more is trusted -/

/-- The same nodes are in both graphs, and in the second one fewer components are to be made. -/
structure Surer (g g' : Graph σ ι) : Prop where
  calm : g.Calm
  calm' : g'.Calm
  size : g'.size = g.size
  none : ∀ key, g'.node? key = none ↔ g.node? key = none
  unbuilt : ∀ key inputs, g'.Unbuilt key inputs → g.Unbuilt key inputs

/-- Both walks end at their ends, or in the same error. -/
inductive SameVerdict (g g' : Graph σ ι) :
    Except GraphError (List Key) → Except GraphError (List Key) → Prop
  | passed {done done' : List Key} (h : g.Ordered done) (h' : g'.Ordered done') :
      SameVerdict g g' (.ok done) (.ok done')
  | refused (e : GraphError) : SameVerdict g g' (.error e) (.error e)

/-- Of what the key needs, nothing that is to be made in the first graph only is unsound. -/
def SoundBetween (g g' : Graph σ ι) (key : Key) : Prop :=
  ∀ needed, g.Needs key needed → ¬ g'.Pending needed → ¬ g.Unsound needed

theorem SoundBetween.next {g g' : Graph σ ι} {key used : Key} (h : g.SoundBetween g' key)
    (huses : g.Uses key used) : g.SoundBetween g' used :=
  fun needed hneeds => h needed (hneeds.head huses)

namespace Surer

variable {g g' : Graph σ ι} {key used needed : Key}

theorem pending (h : g.Surer g') (hpending : g'.Pending key) : g.Pending key := by
  obtain ⟨inputs, hunbuilt⟩ := hpending
  exact ⟨inputs, h.unbuilt key inputs hunbuilt⟩

theorem uses (h : g.Surer g') (huses : g'.Uses key used) : g.Uses key used := by
  obtain ⟨inputs, hunbuilt, hinput, hpending⟩ := huses
  exact ⟨inputs, h.unbuilt key inputs hunbuilt, hinput, h.pending hpending⟩

/-- What is to be made in both graphs has the same inputs. -/
theorem unbuilt_of_pending (h : g.Surer g') {inputs : Inputs} (hunbuilt : g.Unbuilt key inputs)
    (hpending : g'.Pending key) : g'.Unbuilt key inputs := by
  obtain ⟨inputs', hunbuilt'⟩ := hpending
  rwa [hunbuilt.unique (h.unbuilt key inputs' hunbuilt')]

/-- What is unsound where more is trusted is unsound. -/
theorem unsound (h : g.Surer g') (hunsound : g'.Unsound key) : g.Unsound key := by
  rcases hunsound with hnone | ⟨needed, hneeds, hfaulty⟩
  · exact .inl ((h.none key).1 hnone)
  refine .inr ⟨needed, ⟨h.pending hneeds.1, ReflTransGen.mono (fun _ _ => h.uses) _ _ hneeds.2⟩, ?_⟩
  cases hfaulty with
  | lacking hinputs hp hrequired hnone =>
    exact .lacking (h.unbuilt _ _ hinputs) hp hrequired ((h.none _).1 hnone)
  | looping hloop => exact .looping (TransGen.mono (fun _ _ => h.uses) _ _ hloop)

theorem uses_of_pending (h : g.Surer g') (huses : g.Uses key used) (hkey : g'.Pending key)
    (hused : g'.Pending used) : g'.Uses key used := by
  obtain ⟨inputs, hunbuilt, hinput, -⟩ := huses
  exact ⟨inputs, h.unbuilt_of_pending hunbuilt hkey, hinput, hused⟩

/-- A component that leads to something faulty is to be made in both graphs if the one that uses it
is sound between them. -/
theorem pending_of_uses (hsound : g.SoundBetween g' key) (huses : g.Uses key used)
    (hway : ReflTransGen g.Uses used needed) (hfaulty : g.Faulty needed) : g'.Pending used := by
  have ⟨inputs, hunbuilt, hinput, hused⟩ := huses
  refine Classical.byContradiction fun hmade => ?_
  exact hsound used ⟨⟨inputs, hunbuilt⟩, .single huses⟩ hmade
    (.inr ⟨needed, ⟨hused, hway⟩, hfaulty⟩)

/-- The way to something faulty is there in both graphs. -/
theorem reaches (h : g.Surer g') (hsound : g.SoundBetween g' key) (hpending : g'.Pending key)
    (hfaulty : g.Faulty needed) (hway : ReflTransGen g.Uses key needed) :
    ReflTransGen g'.Uses key needed ∧ g'.Pending needed := by
  induction hway using ReflTransGen.head_induction_on with
  | refl => exact ⟨.refl, hpending⟩
  | head huses hway ih =>
    have hused := pending_of_uses hsound huses hway hfaulty
    obtain ⟨hrest, hend⟩ := ih (hsound.next huses) hused
    exact ⟨hrest.head (h.uses_of_pending huses hpending hused), hend⟩

/-- What is unsound in the first graph is so in the second one, if it is sound between them. -/
theorem unsound_of (h : g.Surer g') (hsound : g.SoundBetween g' key) (hpending : g'.Pending key)
    (hunsound : g.Unsound key) : g'.Unsound key := by
  rcases hunsound with hnone | ⟨needed, hneeds, hfaulty⟩
  · exact .inl ((h.none key).2 hnone)
  obtain ⟨hway, hneeded⟩ := h.reaches hsound hpending hfaulty hneeds.2
  refine .inr ⟨needed, ⟨hpending, hway⟩, ?_⟩
  cases hfaulty with
  | lacking hinputs hp hrequired hnone =>
    exact .lacking (h.unbuilt_of_pending hinputs hneeded) hp hrequired ((h.none _).2 hnone)
  | looping hloop =>
    have hbetween : g.SoundBetween g' needed := fun a hrest =>
      hsound a ⟨hneeds.1, hneeds.2.trans hrest.2⟩
    obtain ⟨used, huses, hback⟩ := TransGen.head'_iff.1 hloop
    have hused := pending_of_uses hbetween huses hback (.looping hloop)
    obtain ⟨hback', -⟩ := h.reaches (hbetween.next huses) hused (.looping hloop) hback
    exact .looping (.head' (h.uses_of_pending huses hneeded hused) hback')

/-! ### Both walks -/

section
variable {path done done' : List Key} {node node' : Node σ ι}

/-- Both graphs lack the same. -/
theorem firstMissing (h : g.Surer g') (inputs : Inputs) :
    g'.firstMissing inputs = g.firstMissing inputs := by
  unfold Graph.firstMissing
  congr 1
  funext p
  have hcontains : g'.contains p.key = g.contains p.key := by
    rw [Bool.eq_iff_iff]
    simp only [contains, Option.isSome_iff_ne_none, ne_eq, h.none]
  rw [hcontains]

/-- Walks through inputs end alike if the walks to each input do. -/
theorem visitInputs_same (h : g.Surer g')
    {visit visit' : Key → Node σ ι → List Key → Except GraphError (List Key)} {inputs : Inputs}
    (hvisit : ∀ p ∈ inputs, p.key ∉ path → ∀ node node' done done', g.node? p.key = some node →
      g'.node? p.key = some node' → g.Ordered done → g'.Ordered done' →
      g.SameVerdict g' (visit p.key node done) (visit' p.key node' done'))
    (hdone : g.Ordered done) (hdone' : g'.Ordered done') :
    g.SameVerdict g' (g.visitInputs path visit inputs done)
      (g'.visitInputs path visit' inputs done') := by
  induction inputs generalizing done done' with
  | nil => exact .passed hdone hdone'
  | cons p rest ih =>
    obtain ⟨hfirst, hrest⟩ := List.forall_mem_cons.1 hvisit
    unfold visitInputs
    by_cases hback : p.key ∈ path
    · rw [if_pos hback, if_pos hback]
      exact .refused _
    rw [if_neg hback, if_neg hback]
    cases hnode : g.node? p.key with
    | none =>
      rw [(h.none p.key).2 hnode]
      exact ih hrest hdone hdone'
    | some node =>
      cases hnode' : g'.node? p.key with
      | none => cases hnode.symm.trans ((h.none p.key).1 hnode')
      | some node' =>
        have hverdict := hfirst hback node node' done done' hnode hnode' hdone hdone'
        simp only
        generalize visit p.key node done = r, visit' p.key node' done' = r' at hverdict
        cases hverdict with
        | passed hdone hdone' => exact ih hrest hdone hdone'
        | refused e => exact .refused e

/-- Where one of the walks stops early, the component is sound: the walk has been there, or trusts
the component. -/
theorem not_unsound_of_skip (h : g.Surer g') (hnode : g.node? key = some node)
    (hsound : g.SoundBetween g' key) (hdone : g.Ordered done) (hdone' : g'.Ordered done')
    (hskip : ¬ (g'.Pending key ∧ key ∉ done ∧ key ∉ done')) : ¬ g.Unsound key := by
  by_cases hpending : g'.Pending key
  · by_cases hbeen : key ∈ done
    · exact hdone.not_unsound hbeen
    · have hbeen' : key ∈ done' := Classical.byContradiction fun hnew =>
        hskip ⟨hpending, hbeen, hnew⟩
      exact fun hunsound => hdone'.not_unsound hbeen' (h.unsound_of hsound hpending hunsound)
  · rintro (hnone | ⟨needed, hneeds, hfaulty⟩)
    · cases hnone.symm.trans hnode
    · exact hsound key ⟨hneeds.1, .refl⟩ hpending (.inr ⟨needed, hneeds, hfaulty⟩)

/-- Both walks end alike, wherever they have been, if the component that they set out for is sound
between the graphs. -/
theorem visit_same (h : g.Surer g') (depth : Nat) (hnode : g.node? key = some node)
    (hnode' : g'.node? key = some node') (hway : g.Way path key) (hway' : g'.Way path key)
    (hdepth : g.size ≤ path.length + depth) (hsound : g.SoundBetween g' key)
    (hdone : g.Ordered done) (hdone' : g'.Ordered done') :
    g.SameVerdict g' (g.visit depth path key node done)
      (g'.visit depth path key node' done') := by
  induction depth generalizing path key node node' done done' with
  | zero =>
    have hlt := path_length_lt hnode hway.nodup hway.subset_keys hway.off
    exact absurd hdepth (Nat.not_le_of_lt hlt)
  | succ depth ih =>
  have hdepth' : g'.size ≤ path.length + (depth + 1) := h.size ▸ hdepth
  by_cases hwalk : g'.Pending key ∧ key ∉ done ∧ key ∉ done'
  case neg =>
    have hgood := h.not_unsound_of_skip hnode hsound hdone hdone' hwalk
    have hgood' : ¬ g'.Unsound key := fun hunsound => hgood (h.unsound hunsound)
    obtain ⟨_, hvisit, hafter⟩ := hway.passes h.calm hnode hdepth hdone hgood
    obtain ⟨_, hvisit', hafter'⟩ := hway'.passes h.calm' hnode' hdepth' hdone' hgood'
    rw [hvisit, hvisit']
    exact .passed hafter hafter'
  obtain ⟨⟨inputs, hunbuilt'⟩, hnew, hnew'⟩ := hwalk
  have hunbuilt := h.unbuilt key inputs hunbuilt'
  have ⟨construct, cache, hrecipe, _⟩ := hunbuilt
  have ⟨construct', cache', hrecipe', _⟩ := hunbuilt'
  cases hnode.symm.trans hrecipe
  cases hnode'.symm.trans hrecipe'
  have hwalk := visit_recipe h.calm hnode ⟨inputs, hunbuilt⟩ hnew depth path
  have hwalk' := visit_recipe h.calm' hnode' ⟨inputs, hunbuilt'⟩ hnew' depth path
  have hinputs : g.SameVerdict g'
      (g.visitInputs (path ++ [key]) (g.visit depth (path ++ [key])) inputs done)
      (g'.visitInputs (path ++ [key]) (g'.visit depth (path ++ [key])) inputs done') := by
    refine h.visitInputs_same ?_ hdone hdone'
    intro p hp hoff node node' done done' hnode hnode' hdone hdone'
    refine ih hnode hnode' (hway.next hunbuilt hp hoff) (hway'.next hunbuilt' hp hoff) ?_ ?_
      hdone hdone'
    · rw [List.length_append, List.length_singleton]
      omega
    · intro needed hneeds
      exact hsound.next ⟨inputs, hunbuilt, ⟨p, hp, rfl⟩, hneeds.1⟩ needed hneeds
  rw [h.firstMissing] at hwalk'
  cases hmissing : g.firstMissing inputs with
  | some p =>
    rw [hmissing] at hwalk hwalk'
    rw [hwalk, hwalk']
    exact .refused _
  | none =>
    simp only [hmissing] at hwalk hwalk'
    generalize g.visitInputs (path ++ [key]) (g.visit depth (path ++ [key])) inputs done = r
      at hwalk hinputs
    generalize g'.visitInputs (path ++ [key]) (g'.visit depth (path ++ [key])) inputs done' = r'
      at hwalk' hinputs
    cases hinputs with
    | refused e =>
      rw [hwalk, hwalk']
      exact .refused e
    | passed =>
      have hafter := hway.ordered h.calm hnode hdepth hdone hwalk
      have hafter' := hway'.ordered h.calm' hnode' hdepth' hdone' hwalk'
      rw [hwalk, hwalk']
      exact .passed hafter hafter'

/-- The check of a key that is sound between the graphs ends alike in both. -/
theorem verify_same (h : g.Surer g') (hnode : g.node? key = some node)
    (hnode' : g'.node? key = some node') (hsound : g.SoundBetween g' key) :
    g'.verify key node' = g.verify key node := by
  have hverdict := h.visit_same g.size hnode hnode' (.nil g key) (.nil g' key)
    (Nat.le_add_left ..) hsound .nil .nil
  unfold verify
  rw [h.size]
  generalize g.visit g.size [] key node [] = r, g'.visit g.size [] key node' [] = r' at hverdict
  cases hverdict <;> rfl

end

end Surer

end Graph

end ServiceHost
