import ServiceHost.Proofs.Graph.Advance

/-!
# Components that were not seen

A thread that tries the lock of a cache while somebody has it takes the component for one that is
still to be made. What it then checks is the graph without that component (`Graph.without`). Of the
two graphs the check trusts more in the one with the component (`surer_without`). What can be made
with it may be out of reach without, for inputs that were registered after the component had been
made may stand in the way.
-/

namespace ServiceHost

open Relation

variable {σ ι : Type}

/-- The node as if its constructor had not returned yet. -/
def Node.emptied (node : Node σ ι) : Node σ ι :=
  node.mapCache fun cache => { cache with made := none }

namespace Graph

/-- The graph as if the constructors of some keys had not returned yet. -/
def without (g : Graph σ ι) (keys : List Key) : Graph σ ι :=
  ⟨g.entries.map fun e => (e.1, if e.1 ∈ keys then e.2.emptied else e.2)⟩

/-- The component is there, or can be made. -/
def Attainable (g : Graph σ ι) (key : Key) : Prop :=
  g.Pending key → g.Makeable key

/-- The check refuses a resolution of the key with this error, whatever the surroundings. -/
def Refuses (g : Graph σ ι) (key : Key) (e : GraphError) : Prop :=
  e.ofCheck = true ∧ ∀ note depth (w : Workshop σ ι), w.graph = g →
    (resolveWithin note depth key w).1 = .error e

section
variable {g g' : Graph σ ι} {key : Key} {node : Node σ ι} {inputs : Inputs} {done : List Key}

/-! ## What can be made -/

/-- Components in order can be made one after another. -/
theorem Ordered.makeable (h : g.Ordered done) : ∀ k ∈ done, g.Makeable k := by
  induction h with
  | nil => exact fun _ hk => absurd hk List.not_mem_nil
  | snoc _ _ hunbuilt hrequired hused ih =>
    intro k hk
    rcases List.mem_append.1 hk with hk | hk
    · exact ih k hk
    · rw [List.mem_singleton.1 hk]
      exact .intro hunbuilt hrequired fun p hp hpending => ih _ (hused p hp hpending)

theorem Attainable.sound (h : g.Attainable key) (hnode : g.node? key = some node) :
    ¬ g.Unsound key := by
  rintro (hnone | ⟨needed, hneeds, hfaulty⟩)
  · cases hnone.symm.trans hnode
  · exact (h hneeds.1).sound (.inr ⟨needed, hneeds, hfaulty⟩)

/-- What is not registered is not to be made. -/
theorem attainable_of_none (hnone : g.node? key = none) : g.Attainable key := by
  rintro ⟨inputs, construct, cache, hnode, -⟩
  cases hnone.symm.trans hnode

/-- Nothing that the check trusts is to be made. -/
theorem attainable_of_isCached (hnode : g.node? key = some node) (hcached : node.isCached = true) :
    g.trusted.Attainable key := by
  rintro ⟨inputs, hunbuilt⟩
  obtain ⟨construct, cache, hnode', hnot⟩ := unbuilt_trusted.1 hunbuilt
  cases hnode.symm.trans hnode'
  cases hcached.symm.trans hnot

/-- What passes the check can be made. -/
theorem attainable_of_verify (hnode : g.node? key = some node)
    (h : g.verify key node = .ok ()) : g.trusted.Attainable key := by
  intro hpending
  rw [← verify_trusted] at h
  obtain ⟨done, hordered, hmem⟩ :=
    ordered_of_verify g.trusted_calm (node?_trusted_of hnode) h hpending
  exact hordered.makeable key hmem

/-! ## Refusals -/

theorem refuses_of_none (hnone : g.node? key = none) :
    g.Refuses key (.missingDependency key none) := by
  refine ⟨rfl, fun note depth w hw => ?_⟩
  rw [resolveWithin, resolveWith, hw, hnone]

/-- A key is refused with the error of its check. -/
theorem refuses_of_verify {e : GraphError} (hnode : g.node? key = some node)
    (hnone : node.available = none) (h : g.verify key node = .error e) : g.Refuses key e := by
  refine ⟨verify_ofCheck hnode h, fun note depth w hw => ?_⟩
  rw [resolveWithin, resolveWith, hw, hnode]
  dsimp only
  rw [hnone]
  dsimp only
  rw [h]

/-- What is neither there nor can be made is refused. -/
theorem refuses_of_not_attainable (hnode : g.node? key = some node) (hnone : node.available = none)
    (h : ¬ g.trusted.Attainable key) : ∃ e, g.Refuses key e := by
  cases hverify : g.verify key node with
  | ok _ => exact absurd (attainable_of_verify hnode hverify) h
  | error e => exact ⟨e, refuses_of_verify hnode hnone hverify⟩

/-! ## A graph without some components -/

variable {keys : List Key}

/-- Under each key is the same node, emptied if it is among the keys. -/
theorem node?_without (g : Graph σ ι) (keys : List Key) (key : Key) :
    (g.without keys).node? key =
      (g.node? key).map fun node => if key ∈ keys then node.emptied else node := by
  obtain ⟨entries⟩ := g
  simp only [without, node?]
  induction entries with
  | nil => rfl
  | cons e rest ih =>
    rw [List.map_cons, List.lookup_cons, List.lookup_cons]
    split
    · next hkey =>
      rw [eq_of_beq hkey]
      rfl
    · exact ih

theorem node?_without_of_mem (hmem : key ∈ keys) (hnode : g.node? key = some node) :
    (g.without keys).node? key = some node.emptied := by
  rw [node?_without, hnode, Option.map_some, if_pos hmem]

theorem node?_without_of_not_mem (hmem : key ∉ keys) :
    (g.without keys).node? key = g.node? key := by
  rw [node?_without]
  simp only [if_neg hmem, Option.map_id']

theorem size_without (g : Graph σ ι) (keys : List Key) : (g.without keys).size = g.size :=
  List.length_map _

/-- To be made are those that the check does not trust, and those that are left out. -/
theorem unbuilt_without : (g.without keys).trusted.Unbuilt key inputs ↔ ∃ construct cache,
    g.node? key = some (.recipe inputs construct cache) ∧
      (key ∈ keys ∨ (Node.recipe inputs construct cache).isCached = false) := by
  rw [unbuilt_trusted]
  by_cases hmem : key ∈ keys
  · constructor
    · rintro ⟨construct, cache, hnode, -⟩
      rw [node?_without] at hnode
      obtain ⟨node, hbefore, hsame⟩ := Option.map_eq_some_iff.1 hnode
      rw [if_pos hmem] at hsame
      cases node with
      | value item => cases hsame
      | recipe =>
        cases hsame
        exact ⟨construct, _, hbefore, .inl hmem⟩
    · rintro ⟨construct, cache, hnode, -⟩
      refine ⟨construct, _, node?_without_of_mem hmem hnode, ?_⟩
      rw [Node.isCached, Option.isSome_none, Bool.and_false]
  · rw [node?_without_of_not_mem hmem]
    simp only [hmem, false_or]

/-- A graph trusts at least what it does without some components. -/
theorem surer_without (g : Graph σ ι) (keys : List Key) :
    (g.without keys).trusted.Surer g.trusted where
  calm := trusted_calm _
  calm' := trusted_calm _
  size := by rw [size_trusted, size_trusted, size_without]
  none key := by
    rw [node?_trusted, node?_trusted, node?_without, Option.map_eq_none_iff,
      Option.map_eq_none_iff, Option.map_eq_none_iff]
  unbuilt key inputs hunbuilt := by
    obtain ⟨construct, cache, hnode, hnot⟩ := unbuilt_trusted.1 hunbuilt
    exact unbuilt_without.2 ⟨construct, cache, hnode, .inr hnot⟩

/-- A component that was not there, or is left out, is refused if it cannot be made without those
that are left out. -/
theorem refused_without (hnode : g.node? key = some node)
    (hnone : key ∈ keys ∨ node.available = none)
    (h : ¬ (g.without keys).trusted.Attainable key) : ∃ e, (g.without keys).Refuses key e := by
  by_cases hmem : key ∈ keys
  · have hnode' := node?_without_of_mem hmem hnode
    cases node with
    | value item => exact absurd (attainable_of_isCached hnode' rfl) h
    | recipe inputs construct cache =>
      refine refuses_of_not_attainable hnode' ?_ h
      exact ite_self none
  · rw [← node?_without_of_not_mem hmem] at hnode
    exact refuses_of_not_attainable hnode (hnone.resolve_left hmem) h

end

end Graph

end ServiceHost
