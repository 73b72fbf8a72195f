import Mathlib.Logic.Relation
import ServiceHost.Proofs.Graph.Caches

/-!
# What a component needs

A component is pending while its constructor is registered and has not made it. It uses the pending
components among its inputs, and needs itself and whatever the components that it uses need
(`Graph.Needs`). A graph cannot provide a key if nothing is registered under it, or if something
that it needs is faulty: a required input is not registered, or the component needs itself through
one of its inputs. These are the words in which the check before a construction is specified. A list
of keys in which every component comes after those that it uses, and none lacks a required input, is
`Graph.Ordered`; nothing that such a list contains needs anything faulty (`Graph.Ordered.sound`).
-/

namespace ServiceHost

open Relation

variable {σ ι : Type}

namespace Graph

/-- A constructor with these inputs is registered under the key, and has not made the component. -/
def Unbuilt (g : Graph σ ι) (key : Key) (inputs : Inputs) : Prop :=
  ∃ construct cache, g.node? key = some (.recipe inputs construct cache) ∧ cache.made = none

/-- The component of the key has to be made first. -/
def Pending (g : Graph σ ι) (key : Key) : Prop :=
  ∃ inputs, g.Unbuilt key inputs

/-- The component to be made declares another one to be made as an input. -/
def Uses (g : Graph σ ι) (key used : Key) : Prop :=
  ∃ inputs, g.Unbuilt key inputs ∧ (∃ p ∈ inputs, p.key = used) ∧ g.Pending used

/-- The component to be made leads to another one, or to itself, through declared inputs. -/
def Needs (g : Graph σ ι) (key needed : Key) : Prop :=
  g.Pending key ∧ ReflTransGen g.Uses key needed

/-- The component cannot be made. -/
inductive Faulty (g : Graph σ ι) (key : Key) : Prop
  /-- A required input is not registered. -/
  | lacking {inputs : Inputs} {p : Param} (hinputs : g.Unbuilt key inputs) (hp : p ∈ inputs)
      (hrequired : p.optional = false) (hnone : g.node? p.key = none)
  /-- The inputs lead back to it. -/
  | looping (h : TransGen g.Uses key key)

/-- The key is not registered, or something that it needs cannot be made. -/
def Unsound (g : Graph σ ι) (key : Key) : Prop :=
  g.node? key = none ∨ ∃ needed, g.Needs key needed ∧ g.Faulty needed

/-- Every component of the list comes once, after the components that it uses, and has its required
inputs registered. -/
inductive Ordered (g : Graph σ ι) : List Key → Prop
  | nil : Ordered g []
  | snoc {done : List Key} {key : Key} {inputs : Inputs} (h : Ordered g done) (hnew : key ∉ done)
      (hunbuilt : g.Unbuilt key inputs)
      (hrequired : ∀ p ∈ inputs, p.optional = false → g.node? p.key ≠ none)
      (hused : ∀ p ∈ inputs, g.Pending p.key → p.key ∈ done) : Ordered g (done ++ [key])

section
variable {g : Graph σ ι} {key : Key} {inputs inputs' : Inputs} {done : List Key}

/-- The inputs of a component to be made are those of its node. -/
theorem Unbuilt.unique (h : g.Unbuilt key inputs) (h' : g.Unbuilt key inputs') :
    inputs = inputs' := by
  obtain ⟨_, _, hnode, _⟩ := h
  obtain ⟨_, _, hnode', _⟩ := h'
  cases hnode.symm.trans hnode'
  rfl

theorem Unbuilt.mem_keys (h : g.Unbuilt key inputs) : key ∈ g.keys := by
  obtain ⟨_, _, hnode, _⟩ := h
  exact mem_keys_of_node? hnode

/-- A component that uses one which needs another needs it, too. -/
theorem Needs.head {used needed : Key} (huses : g.Uses key used) (h : g.Needs used needed) :
    g.Needs key needed := by
  have ⟨inputs, hunbuilt, _⟩ := huses
  exact ⟨⟨inputs, hunbuilt⟩, h.2.head huses⟩

theorem Needs.tail {needed used : Key} (h : g.Needs key needed) (huses : g.Uses needed used) :
    g.Needs key used :=
  ⟨h.1, h.2.tail huses⟩

/-- Whatever is needed is to be made. -/
theorem Needs.pending {needed : Key} (h : g.Needs key needed) : g.Pending needed := by
  rcases h.2.cases_tail with rfl | ⟨_, _, huses⟩
  · exact h.1
  · obtain ⟨_, _, _, hpending⟩ := huses
    exact hpending

/-- Keys in order are distinct. -/
theorem Ordered.nodup (h : g.Ordered done) : done.Nodup := by
  induction h with
  | nil => exact List.nodup_nil
  | snoc _ hnew _ _ _ ih =>
    refine List.nodup_append.2 ⟨ih, List.pairwise_singleton .., ?_⟩
    rintro a ha b hb rfl
    exact hnew (List.mem_singleton.1 hb ▸ ha)

/-- Keys in order are all still to be made. -/
theorem Ordered.pending (h : g.Ordered done) : ∀ k ∈ done, g.Pending k := by
  induction h with
  | nil => nofun
  | snoc _ _ hunbuilt _ _ ih =>
    intro k hk
    rcases List.mem_append.1 hk with hk | hk
    · exact ih k hk
    · rw [List.mem_singleton.1 hk]
      exact ⟨_, hunbuilt⟩

/-- There are no more components in order than nodes in the graph. -/
theorem Ordered.length_le (h : g.Ordered done) : done.length ≤ g.size := by
  have hkeys : done ⊆ g.keys := by
    intro k hk
    obtain ⟨inputs, hunbuilt⟩ := h.pending k hk
    exact hunbuilt.mem_keys
  have hle := h.nodup.length_le_of_subset hkeys
  rwa [keys, List.length_map] at hle

/-- What components in order need is among them, and is not faulty. -/
theorem Ordered.sound (h : g.Ordered done) :
    ∀ key ∈ done, ∀ needed, ReflTransGen g.Uses key needed → needed ∈ done ∧ ¬ g.Faulty needed := by
  induction h with
  | nil => nofun
  | @snoc done last inputs h hnew hunbuilt hrequired hused ih =>
    -- whatever the last component uses comes before it
    have hbefore : ∀ used, g.Uses last used → used ∈ done := by
      rintro used ⟨inputs', hunbuilt', ⟨p, hp, rfl⟩, hpending⟩
      rw [← hunbuilt.unique hunbuilt'] at hp
      exact hused p hp hpending
    intro key hkey needed hneeds
    rcases List.mem_append.1 hkey with hkey | hkey
    · obtain ⟨hmem, hsound⟩ := ih key hkey needed hneeds
      exact ⟨List.mem_append_left _ hmem, hsound⟩
    rw [List.mem_singleton.1 hkey] at hneeds
    rcases hneeds.cases_head with rfl | ⟨used, huses, hrest⟩
    · refine ⟨List.mem_append_right _ (List.mem_singleton_self _), ?_⟩
      rintro (⟨hinputs, hp, hoptional, hnone⟩ | hloop)
      · rw [← hunbuilt.unique hinputs] at hp
        exact hrequired _ hp hoptional hnone
      · obtain ⟨used, huses, hrest⟩ := TransGen.head'_iff.1 hloop
        exact hnew (ih used (hbefore used huses) _ hrest).1
    · obtain ⟨hmem, hsound⟩ := ih used (hbefore used huses) needed hrest
      exact ⟨List.mem_append_left _ hmem, hsound⟩

end

end Graph

end ServiceHost
