import ServiceHost.Graph.Resolve

/-!
# What a graph keeps

A request changes nothing but caches. `Graph.Grown` says what every change of the caches has in
common: the nodes and their inputs stay, a component that was made stays, a mark left by a panic
stays, and the locks are as they were. The construction of a component takes the lock of its key and
gives it back, so that the graphs in between are grown from the locked graph, and the one at the end
from the graph before (`Graph.Grown.of_lock`).
-/

namespace ServiceHost

variable {σ ι : Type}

/-! ## Nodes by their keys -/

namespace Graph

/-- What is registered under a key after the caches under another key were changed. -/
theorem node?_mapCache (g : Graph σ ι) (key : Key) (f : Cache ι → Cache ι) (k : Key) :
    (g.mapCache key f).node? k =
      if k = key then (g.node? k).map (Node.mapCache f) else g.node? k := by
  obtain ⟨entries⟩ := g
  simp only [mapCache, node?]
  induction entries with
  | nil => simp
  | cons e rest ih =>
    obtain ⟨first, node⟩ := e
    by_cases hfirst : k = first
    · subst hfirst
      by_cases hk : k = key <;> simp [hk]
    · have hbeq : (k == first) = false := by simpa using hfirst
      have hskip : List.lookup k
          ((if first = key then (first, node.mapCache f) else (first, node)) ::
            rest.map fun e => if e.1 = key then (e.1, e.2.mapCache f) else e) =
          List.lookup k (rest.map fun e => if e.1 = key then (e.1, e.2.mapCache f) else e) := by
        split <;> simp [List.lookup_cons, hbeq]
      rw [List.map_cons, hskip, ih, List.lookup_cons, hbeq]

/-- A key that something is registered under is among the keys of the graph. -/
theorem mem_keys_of_node? {g : Graph σ ι} {key : Key} {node : Node σ ι}
    (h : g.node? key = some node) : key ∈ g.keys := by
  obtain ⟨entries⟩ := g
  simp only [node?, keys] at h ⊢
  induction entries with
  | nil => cases h
  | cons e rest ih =>
    rw [List.lookup_cons] at h
    split at h
    · next hkey => exact List.mem_map.2 ⟨e, List.mem_cons_self, (eq_of_beq hkey).symm⟩
    · exact List.mem_cons_of_mem _ (ih h)

/-- A registration under a new key adds its node and changes no other. -/
theorem register_ok {g g' : Graph σ ι} {key : Key} {node : Node σ ι}
    (h : g.register key node = .ok g') (k : Key) :
    g'.node? k = some node ∧ k = key ∨ g'.node? k = g.node? k := by
  unfold register contains at h
  split at h
  · cases h
  · next hnew =>
    cases h
    have hnone : g.node? key = none := by simpa using hnew
    by_cases hk : k = key
    · subst hk
      refine .inl ⟨?_, rfl⟩
      simp only [node?] at hnone ⊢
      rw [List.lookup_append, hnone]
      simp
    · have hbeq : (k == key) = false := by simpa using hk
      refine .inr ?_
      simp only [node?]
      rw [List.lookup_append]
      simp [List.lookup_cons, hbeq]

/-! ## Growth -/

/-- A panic ended a construction of the component of the key. -/
def Marked (g : Graph σ ι) (key : Key) : Prop :=
  ∃ inputs construct cache, g.node? key = some (.recipe inputs construct cache) ∧
    cache.poisoned = true

/-- Every component that is under construction is one of `path`. -/
def LockedIn (g : Graph σ ι) (path : List Key) : Prop :=
  ∀ key inputs construct cache, g.node? key = some (.recipe inputs construct cache) →
    cache.locked = true → key ∈ path

/-- No constructor makes a request to the graph, whatever it is called with. -/
def Detached (g : Graph σ ι) : Prop :=
  ∀ key inputs construct cache, g.node? key = some (.recipe inputs construct cache) →
    ∀ args, (construct args).Detached

end Graph

/-- A node with the same lock, and with no less in its cache. -/
inductive Node.Grown : Node σ ι → Node σ ι → Prop
  | value (item : Instance ι) : Grown (.value item) (.value item)
  | recipe (inputs : Inputs) (construct : Args ι → Program σ ι) {cache cache' : Cache ι}
      (hlocked : cache'.locked = cache.locked)
      (hmade : ∀ item, cache.made = some item → cache'.made = some item)
      (hmark : cache.poisoned = true → cache'.poisoned = true) :
      Grown (.recipe inputs construct cache) (.recipe inputs construct cache')

theorem Node.Grown.refl (node : Node σ ι) : node.Grown node := by
  cases node with
  | value item => exact .value item
  | recipe inputs construct cache => exact .recipe inputs construct rfl (fun _ h => h) (fun h => h)

/-- A node grows step by step. -/
theorem Node.Grown.trans {a b c : Node σ ι} (h : a.Grown b) (h' : b.Grown c) : a.Grown c := by
  cases h with
  | value => exact h'
  | recipe inputs construct hlocked hmade hmark =>
    cases h' with
    | recipe _ _ hlocked' hmade' hmark' =>
      exact .recipe inputs construct (hlocked'.trans hlocked)
        (fun item h => hmade' item (hmade item h)) (fun h => hmark' (hmark h))

namespace Graph

/-- The same nodes with the same locks, and no less in the caches. -/
def Grown (g g' : Graph σ ι) : Prop :=
  ∀ key, Option.Rel Node.Grown (g.node? key) (g'.node? key)

namespace Grown

variable {g g' g'' : Graph σ ι} {key : Key} {path : List Key}

/-- A graph has grown of itself. -/
theorem refl (g : Graph σ ι) : g.Grown g := by
  intro key
  cases g.node? key with
  | none => exact .none
  | some node => exact .some (.refl node)

/-- A graph grows step by step. -/
theorem trans (h : g.Grown g') (h' : g'.Grown g'') : g.Grown g'' := by
  intro key
  have hkey := h key
  have hkey' := h' key
  generalize g.node? key = node, g'.node? key = node', g''.node? key = node'' at hkey hkey'
  cases hkey with
  | none => exact hkey'
  | some hnode =>
    cases hkey' with
    | some hnode' => exact .some (hnode.trans hnode')

/-- A key without a node stays one. -/
theorem node_none (h : g.Grown g') (hnone : g.node? key = none) : g'.node? key = none := by
  have hkey := h key
  rw [hnone] at hkey
  generalize g'.node? key = node' at hkey
  cases hkey
  rfl

/-- A node that was registered has grown, under the same key. -/
theorem node_some (h : g.Grown g') {node : Node σ ι} (hnode : g.node? key = some node) :
    ∃ node', g'.node? key = some node' ∧ node.Grown node' := by
  have hkey := h key
  rw [hnode] at hkey
  generalize g'.node? key = node' at hkey
  cases hkey with
  | some hgrown => exact ⟨_, rfl, hgrown⟩

/-- A constructor of the grown graph was there before. -/
theorem recipe_of (h : g.Grown g') {inputs : Inputs} {construct : Args ι → Program σ ι}
    {cache' : Cache ι} (hnode : g'.node? key = some (.recipe inputs construct cache')) :
    ∃ cache, g.node? key = some (.recipe inputs construct cache) ∧
      cache'.locked = cache.locked ∧
      (∀ item, cache.made = some item → cache'.made = some item) ∧
      (cache.poisoned = true → cache'.poisoned = true) := by
  have hkey := h key
  rw [hnode] at hkey
  generalize g.node? key = node at hkey
  cases hkey with
  | some hgrown =>
    cases hgrown with
    | recipe _ _ hlocked hmade hmark => exact ⟨_, rfl, hlocked, hmade, hmark⟩

theorem lockedIn (h : g.Grown g') (hlocks : g.LockedIn path) : g'.LockedIn path := by
  intro key inputs construct cache' hnode hlocked
  have ⟨cache, hbefore, hsame, _⟩ := h.recipe_of hnode
  exact hlocks key inputs construct cache hbefore (hsame ▸ hlocked)

theorem detached (h : g.Grown g') (hdetached : g.Detached) : g'.Detached := by
  intro key inputs construct cache' hnode args
  have ⟨cache, hbefore, _⟩ := h.recipe_of hnode
  exact hdetached key inputs construct cache hbefore args

end Grown

/-! ## Locks -/

section
variable {g g' : Graph σ ι} {key : Key} {inputs : Inputs} {construct : Args ι → Program σ ι}
  {cache : Cache ι} {path : List Key}

/-- A component that is not one of those under construction can be locked. -/
theorem LockedIn.free (h : g.LockedIn path)
    (hnode : g.node? key = some (.recipe inputs construct cache))
    (hoff : key ∉ path) : cache.locked = false := by
  cases hlocked : cache.locked with
  | false => rfl
  | true => exact absurd (h key inputs construct cache hnode hlocked) hoff

/-- Under construction is what was so before, and the component whose lock was taken. -/
theorem LockedIn.lock (h : g.LockedIn path) (key : Key) :
    (g.lock key).LockedIn (path ++ [key]) := by
  intro k inputs construct cache hnode hlocked
  rw [Graph.lock, node?_mapCache] at hnode
  split at hnode
  · next hk => exact List.mem_append.2 (.inr (List.mem_singleton.2 hk))
  · exact List.mem_append.2 (.inl (h k inputs construct cache hnode hlocked))

/-- What constructors do does not depend on caches. -/
theorem Detached.mapCache (h : g.Detached) (key : Key) (f : Cache ι → Cache ι) :
    (g.mapCache key f).Detached := by
  intro k inputs construct cache hnode args
  rw [node?_mapCache] at hnode
  split at hnode
  · obtain ⟨node, hbefore, hnode⟩ := Option.map_eq_some_iff.1 hnode
    cases node with
    | value => cases hnode
    | recipe _ _ cache =>
      cases hnode
      exact h k inputs construct cache hbefore args
  · exact h k inputs construct cache hnode args

/-- At the end of a construction, which finds the cache empty and takes its lock, the graph is grown
from what it was before, whatever was put into the cache. -/
theorem Grown.of_lock (hnode : g.node? key = some (.recipe inputs construct cache))
    (hfree : cache.locked = false) (hnone : cache.made = none) (h : (g.lock key).Grown g')
    {f : Cache ι → Cache ι} (hlocked : ∀ c, (f c).locked = false)
    (hmark : ∀ c, c.poisoned = true → (f c).poisoned = true) : g.Grown (g'.mapCache key f) := by
  intro k
  have hk := h k
  rw [lock, node?_mapCache] at hk
  rw [node?_mapCache]
  split at hk
  · next heq =>
    subst heq
    rw [if_pos rfl, hnode]
    rw [hnode, Option.map_some] at hk
    generalize g'.node? k = node' at hk
    cases hk with
    | some hgrown =>
      cases hgrown with
      | recipe _ _ _ _ hmark' =>
        refine .some (Node.Grown.recipe inputs construct ?_ ?_ ?_)
        · rw [hlocked, hfree]
        · rw [hnone]
          nofun
        · exact fun hpoisoned => hmark _ (hmark' hpoisoned)
  · next hne =>
    rw [if_neg hne]
    exact hk

/-- A mark after a change of a cache is an old one, or the change has set it. -/
theorem marked_mapCache {f : Cache ι → Cache ι} {k : Key} (h : (g.mapCache key f).Marked k) :
    g.Marked k ∨ k = key ∧ ∃ c : Cache ι, c.poisoned = false ∧ (f c).poisoned = true := by
  obtain ⟨inputs, construct, cache, hnode, hpoisoned⟩ := h
  rw [node?_mapCache] at hnode
  split at hnode
  · next hk =>
    obtain ⟨node, hbefore, hnode⟩ := Option.map_eq_some_iff.1 hnode
    cases node with
    | value => cases hnode
    | recipe _ _ cache =>
      cases hnode
      cases hmark : cache.poisoned with
      | true => exact .inl ⟨inputs, construct, cache, hbefore, hmark⟩
      | false => exact .inr ⟨hk, cache, hmark, hpoisoned⟩
  · exact .inl ⟨inputs, construct, cache, hnode, hpoisoned⟩

end

end Graph

end ServiceHost
