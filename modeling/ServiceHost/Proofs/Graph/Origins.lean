import ServiceHost.Proofs.Graph.Deeds

/-!
# Where components come from

A component comes about under a key once: the value is registered, or the constructor of the key
returns (`Deed.origin?`). Deeds are coherent if none of them lets anything come about, or sets out
to, under a key that has a component already, and none hands out anything else than what has come
about before (`Coherent`). A graph is accounted for by deeds if they are coherent and the components
in it are exactly those that have come about (`Graph.AccountedBy`). What a call leaves of an account
is `Workshop.Told`. It also says that the cache of a component under construction is left alone,
which is why the constructor that is running finds it empty when it returns, whatever it has
requested meanwhile.
-/

namespace ServiceHost

variable {σ ι : Type}

/-! ## Coherent deeds -/

namespace Deed

/-- What has come about, and under which key. -/
def origin? : Deed σ ι → Option (Key × Instance ι)
  | supplied key item => some (key, item)
  | made key item => some (key, item)
  | checked .. => none
  | called .. => none
  | resolved .. => none
  | invoked .. => none

/-- The key under which something comes about, or is about to. -/
def claim? : Deed σ ι → Option Key
  | supplied key _ => some key
  | called key _ => some key
  | made key _ => some key
  | checked .. => none
  | resolved .. => none
  | invoked .. => none

end Deed

/-- The components among the arguments of a call, with their keys. -/
def Entries.items (entries : Entries ι) : List (Key × Instance ι) :=
  entries.filterMap fun e => e.2.map fun item => (e.1.key, item)

/-- What is handed out, and for which key. -/
def Deed.handed : Deed σ ι → List (Key × Instance ι)
  | called _ entries => entries.items
  | resolved key item => [(key, item)]
  | invoked _ entries => entries.items
  | supplied .. => []
  | checked .. => []
  | made .. => []

/-- Everything that has come about. -/
def origins (deeds : List (Deed σ ι)) : List (Key × Instance ι) :=
  deeds.filterMap Deed.origin?

/-- The deed claims a key without a component, and hands out what has come about. -/
structure Deed.Follows (before : List (Deed σ ι)) (deed : Deed σ ι) : Prop where
  fresh : ∀ key, deed.claim? = some key → ∀ item, (key, item) ∉ origins before
  handed : ∀ pair ∈ deed.handed, pair ∈ origins before

/-- Every deed follows those before it. -/
inductive Coherent : List (Deed σ ι) → Prop
  | nil : Coherent []
  | snoc {deeds : List (Deed σ ι)} {deed : Deed σ ι} (h : Coherent deeds)
      (hdeed : deed.Follows deeds) : Coherent (deeds ++ [deed])

theorem origins_append (deeds more : List (Deed σ ι)) :
    origins (deeds ++ more) = origins deeds ++ origins more :=
  List.filterMap_append

/-- Something comes about only under a key that is claimed. -/
theorem Deed.claim?_of_origin? {deed : Deed σ ι} {key : Key} {item : Instance ι}
    (h : deed.origin? = some (key, item)) : deed.claim? = some key := by
  cases deed <;> cases h <;> rfl

/-- Each of coherent deeds follows those before it. -/
theorem Coherent.follows {deeds : List (Deed σ ι)} (h : Coherent deeds)
    {before after : List (Deed σ ι)} {deed : Deed σ ι} (hdeeds : deeds = before ++ deed :: after) :
    deed.Follows before := by
  induction h generalizing after with
  | nil => simp at hdeeds
  | @snoc deeds last _ hlast ih =>
    rcases List.eq_nil_or_concat after with rfl | ⟨rest, last', rfl⟩
    · obtain ⟨rfl, hsame⟩ := List.append_inj' hdeeds rfl
      cases hsame
      exact hlast
    · rw [List.concat_eq_append, ← List.cons_append, ← List.append_assoc] at hdeeds
      exact ih (List.append_inj' hdeeds rfl).1

/-! ## Components in a graph -/

/-- The component of a node, if it is there. -/
def Node.item? : Node σ ι → Option (Instance ι)
  | .value item => some item
  | .recipe _ _ cache => cache.made

/-- What can be had at once is the component of the node. -/
theorem Node.item?_of_available {node : Node σ ι} {item : Instance ι}
    (h : node.available = some item) : node.item? = some item := by
  cases node with
  | value => exact h
  | recipe inputs construct cache =>
    simp only [Node.available] at h
    split at h
    · cases h
    · exact h

namespace Graph

/-- The component of a key, if it is there. -/
def item? (g : Graph σ ι) (key : Key) : Option (Instance ι) :=
  (g.node? key).bind Node.item?

/-- The constructor of the key is running, or its inputs are being built. -/
def Busy (g : Graph σ ι) (key : Key) : Prop :=
  ∃ inputs construct cache, g.node? key = some (.recipe inputs construct cache) ∧
    cache.locked = true ∧ cache.made = none

/-- The deeds are coherent, and have brought about what is in the graph. -/
structure AccountedBy (g : Graph σ ι) (deeds : List (Deed σ ι)) : Prop where
  coherent : Coherent deeds
  origin : ∀ key item, (key, item) ∈ origins deeds ↔ g.item? key = some item

section
variable {g g' : Graph σ ι} {key k : Key} {item : Instance ι} {f : Cache ι → Cache ι}

theorem item?_of_node? {node : Node σ ι} (h : g.node? key = some node) :
    g.item? key = node.item? := by
  rw [item?, h]
  rfl

theorem Busy.item? (h : g.Busy key) : g.item? key = none := by
  obtain ⟨inputs, construct, cache, hnode, -, hnone⟩ := h
  rw [item?_of_node? hnode]
  exact hnone

/-- A change of a cache that leaves the component in it. -/
theorem item?_mapCache (hmade : ∀ c, (f c).made = c.made) (k : Key) :
    (g.mapCache key f).item? k = g.item? k := by
  rw [Graph.item?, node?_mapCache, Graph.item?]
  split
  · cases g.node? k with
    | none => rfl
    | some node =>
      cases node with
      | value => rfl
      | recipe inputs construct cache => exact hmade cache
  · rfl

/-- Other components are under construction as before. -/
theorem Busy.mapCache (h : g.Busy k) (hk : k ≠ key) : (g.mapCache key f).Busy k := by
  obtain ⟨inputs, construct, cache, hnode, hbusy⟩ := h
  exact ⟨inputs, construct, cache, by rw [node?_mapCache, if_neg hk, hnode], hbusy⟩

/-- What a constructor under construction returned is put into its cache. -/
theorem item?_store (h : g.Busy key) (k : Key) :
    (g.store key item).item? k = if k = key then some item else g.item? k := by
  obtain ⟨inputs, construct, cache, hnode, -⟩ := h
  rw [Graph.item?, store, node?_mapCache]
  split
  · next hk =>
    subst hk
    rw [hnode]
    rfl
  · rfl

/-- A key without a component is not claimed in vain: what has come about is something else. -/
theorem AccountedBy.fresh {deeds : List (Deed σ ι)} (h : g.AccountedBy deeds)
    (hnone : g.item? key = none) (item : Instance ι) : (key, item) ∉ origins deeds := by
  intro hmem
  cases hnone.symm.trans ((h.origin key item).1 hmem)

/-- A registration under a new key. -/
theorem item?_register {node : Node σ ι} (h : g.register key node = .ok g') :
    g.item? key = none ∧ ∀ k, g'.item? k = if k = key then node.item? else g.item? k := by
  have hnone : g.node? key = none := by
    unfold register contains at h
    split at h
    · cases h
    · next hnew => simpa using hnew
  refine ⟨by rw [Graph.item?, hnone]; rfl, fun k => ?_⟩
  split
  · next hk =>
    subst hk
    rcases register_ok h k with ⟨hnode, _⟩ | hsame
    · exact item?_of_node? hnode
    · -- the key that is registered has a node afterwards
      unfold register at h
      split at h
      · cases h
      · cases h
        rw [hnone] at hsame
        simp only [node?] at hsame hnone
        rw [List.lookup_append, hnone] at hsame
        simp at hsame
  · next hk =>
    rcases register_ok h k with ⟨_, hkey⟩ | hsame
    · exact absurd hkey hk
    · rw [Graph.item?, hsame, Graph.item?]

/-- A component comes about under a key that had none. -/
theorem brings_of_item? {d : Deed σ ι} (horigin : d.origin? = some (key, item))
    (hhanded : d.handed = []) (hnone : g.item? key = none)
    (hitem : ∀ k, g'.item? k = if k = key then some item else g.item? k) :
    (∀ deeds, g.AccountedBy deeds → g'.AccountedBy (deeds ++ [d])) ∧
      ∀ k item', g.item? k = some item' → g'.item? k = some item' := by
  refine ⟨fun deeds h => ?_, fun k item' h => ?_⟩
  · have hclaim := Deed.claim?_of_origin? horigin
    have hmore : origins (deeds ++ [d]) = origins deeds ++ [(key, item)] := by
      rw [origins_append, origins, origins, List.filterMap_cons_some horigin, List.filterMap_nil]
    refine ⟨.snoc h.coherent ⟨?_, by rw [hhanded]; nofun⟩, fun k item' => ?_⟩
    · intro key' hkey'
      cases hclaim.symm.trans hkey'
      exact h.fresh hnone
    rw [hmore, List.mem_append, List.mem_singleton, hitem]
    split
    · next hk =>
      subst hk
      constructor
      · rintro (hmem | hpair)
        · exact absurd hmem (h.fresh hnone item')
        · cases hpair
          rfl
      · rintro ⟨⟩
        exact .inr rfl
    · next hk =>
      rw [h.origin k item']
      exact or_iff_left fun hpair => hk (congrArg Prod.fst hpair)
  · rw [hitem, if_neg, h]
    rintro rfl
    cases hnone.symm.trans h

/-- What is under construction stays so when something is registered. -/
theorem Busy.register {node : Node σ ι} (h : g.register key node = .ok g') (hbusy : g.Busy k) :
    g'.Busy k := by
  obtain ⟨inputs, construct, cache, hnode, hrest⟩ := hbusy
  refine ⟨inputs, construct, cache, ?_, hrest⟩
  rcases register_ok h k with ⟨_, rfl⟩ | hsame
  · unfold Graph.register contains at h
    split at h
    · cases h
    · next hnew =>
      rw [hnode] at hnew
      exact absurd rfl hnew
  · exact hsame.trans hnode

end

end Graph

/-! ## What a call leaves of an account -/

/-- With what was seen of the call, the deeds before it account for the graph after it. Components
that were there are still there, and those under construction are still so. -/
structure Workshop.Told (w : Workshop σ ι) (seen : List (Deed σ ι)) (w' : Workshop σ ι) :
    Prop where
  account : ∀ deeds, w.graph.AccountedBy deeds → w'.graph.AccountedBy (deeds ++ seen)
  kept : ∀ key item, w.graph.item? key = some item → w'.graph.item? key = some item
  busy : ∀ key, w.graph.Busy key → w'.graph.Busy key

namespace Workshop.Told

variable {w w₁ w₂ : Workshop σ ι} {seen seen' : List (Deed σ ι)} {key : Key}

/-- A call that brings nothing about. -/
theorem still (hitem : ∀ k, w₁.graph.item? k = w.graph.item? k)
    (hbusy : ∀ k, w.graph.Busy k → w₁.graph.Busy k) : w.Told [] w₁ := by
  refine ⟨fun deeds h => ?_, fun k item h => (hitem k).trans h, hbusy⟩
  rw [List.append_nil]
  refine ⟨h.coherent, fun k item => ?_⟩
  rw [hitem]
  exact h.origin k item

/-- A call that leaves the graph alone. -/
theorem same (h : w₁.graph = w.graph) : w.Told [] w₁ :=
  .still (fun _ => by rw [h]) fun _ hbusy => by rwa [h]

/-- What is seen of two calls accounts for both. -/
theorem and_then (h : w.Told seen w₁) (h' : w₁.Told seen' w₂) : w.Told (seen ++ seen') w₂ where
  account deeds hdeeds := by
    rw [← List.append_assoc]
    exact h'.account _ (h.account deeds hdeeds)
  kept k item hitem := h'.kept k item (h.kept k item hitem)
  busy k hbusy := h'.busy k (h.busy k hbusy)

/-- A deed that brings nothing about, but may claim a key and hand out components. -/
theorem deed (w : Workshop σ ι) (world : σ) {d : Deed σ ι} (horigin : d.origin? = none)
    (hfresh : ∀ key, d.claim? = some key → w.graph.item? key = none)
    (hhanded : ∀ pair ∈ d.handed, w.graph.item? pair.1 = some pair.2) :
    w.Told [d] { w with world } where
  account deeds h := by
    have hsame : origins (deeds ++ [d]) = origins deeds := by
      rw [origins_append, origins, origins, List.filterMap_cons_none horigin, List.filterMap_nil,
        List.append_nil]
    refine ⟨.snoc h.coherent ⟨fun key hclaim => h.fresh (hfresh key hclaim), ?_⟩, ?_⟩
    · exact fun pair hpair => (h.origin _ _).2 (hhanded pair hpair)
    · rw [hsame]
      exact h.origin
  kept _ _ h := h
  busy _ h := h

/-- A value is registered, or refused. -/
theorem supply (w : Workshop σ ι) (key : Key) (value : ι) :
    w.Told (w.supplyDeeds key value) (w.register key (.ofValue key value)).2 := by
  unfold supplyDeeds register Graph.register
  split
  · exact .same rfl
  next hnew =>
  have hregister : w.graph.register key (.ofValue key value) =
      .ok ⟨w.graph.entries ++ [(key, .ofValue key value)]⟩ := if_neg hnew
  obtain ⟨hnone, hitem⟩ := Graph.item?_register hregister
  have hbrings := Graph.brings_of_item? (d := (.supplied key ⟨key.type, value⟩ : Deed σ ι))
    rfl rfl hnone hitem
  exact ⟨hbrings.1, hbrings.2, fun k hbusy => hbusy.register hregister⟩

/-- A constructor is registered, or refused. -/
theorem provide (w : Workshop σ ι) (key : Key) (inputs : Inputs)
    (construct : Args ι → Program σ ι) :
    w.Told [] (w.register key (.ofRecipe inputs construct)).2 := by
  unfold register
  cases hregister : w.graph.register key (.ofRecipe inputs construct) with
  | error => exact .same rfl
  | ok g =>
    obtain ⟨hnone, hitem⟩ := Graph.item?_register hregister
    refine .still (fun k => ?_) fun k hbusy => hbusy.register hregister
    show g.item? k = _
    rw [hitem]
    split
    · next hk =>
      rw [hk, hnone]
      rfl
    · rfl

/-- The construction of a component begins. -/
theorem lock (w : Workshop σ ι) (key : Key) : w.Told [] { w with graph := w.graph.lock key } := by
  refine .still (Graph.item?_mapCache fun _ => rfl) fun k hbusy => ?_
  by_cases hk : k = key
  · subst hk
    obtain ⟨inputs, construct, cache, hnode, hlocked, hnone⟩ := hbusy
    refine ⟨inputs, construct, { cache with locked := true }, ?_, rfl, hnone⟩
    show (w.graph.lock k).node? k = _
    rw [Graph.lock, Graph.node?_mapCache, if_pos rfl, hnode]
    rfl
  · exact hbusy.mapCache hk

section
variable {inputs : Inputs} {construct : Args ι → Program σ ι} {cache : Cache ι}

/-- A component whose construction has begun is under construction. -/
theorem busy_lock (hnode : w.graph.node? key = some (.recipe inputs construct cache))
    (hnone : cache.made = none) : (w.graph.lock key).Busy key := by
  refine ⟨inputs, construct, { cache with locked := true }, ?_, rfl, hnone⟩
  rw [Graph.lock, Graph.node?_mapCache, if_pos rfl, hnode]
  rfl

/-- The others that were under construction before the construction began. -/
theorem busy_other (hnode : w.graph.node? key = some (.recipe inputs construct cache))
    (hfree : cache.locked = false) {k : Key} (hbusy : w.graph.Busy k) : k ≠ key := by
  rintro rfl
  obtain ⟨_, _, _, hnode', hlocked, -⟩ := hbusy
  cases hnode.symm.trans hnode'
  cases hfree.symm.trans hlocked

/-- A construction ends without a component. -/
theorem giveUp (hnode : w.graph.node? key = some (.recipe inputs construct cache))
    (hfree : cache.locked = false) (h : Told { w with graph := w.graph.lock key } seen w₁)
    (why : Option Interruption) : w.Told seen (w₁.giveUp key why) := by
  have hlock := (Told.lock w key).and_then h
  rw [List.nil_append] at hlock
  have hend {f : Cache ι → Cache ι} (hmade : ∀ c, (f c).made = c.made) :
      w.Told seen { w₁ with graph := w₁.graph.mapCache key f } := by
    refine ⟨fun deeds hdeeds => ?_, fun k item hitem => ?_, fun k hbusy => ?_⟩
    · have hafter := hlock.account deeds hdeeds
      refine ⟨hafter.coherent, fun k item => ?_⟩
      rw [Graph.item?_mapCache hmade]
      exact hafter.origin k item
    · rw [Graph.item?_mapCache hmade]
      exact hlock.kept k item hitem
    · exact (hlock.busy k hbusy).mapCache (busy_other hnode hfree hbusy)
  match why with
  | none => exact hend fun _ => rfl
  | some (.panic _) => exact hend fun _ => rfl
  | some (.deadlock _) => exact hlock
  | some .tooDeep => exact hlock

/-- A construction ends with a component. -/
theorem store (hnode : w.graph.node? key = some (.recipe inputs construct cache))
    (hfree : cache.locked = false) (hnone : cache.made = none)
    (h : Told { w with graph := w.graph.lock key } seen w₁) (item : Instance ι) :
    w.Told (seen ++ [.made key item]) { w₁ with graph := w₁.graph.store key item } := by
  have hlock := (Told.lock w key).and_then h
  rw [List.nil_append] at hlock
  have hbusy : w₁.graph.Busy key := h.busy key (busy_lock hnode hnone)
  have hbrings := Graph.brings_of_item? (d := .made key item) rfl rfl hbusy.item?
    (Graph.item?_store hbusy)
  refine ⟨fun deeds hdeeds => ?_, fun k item' hitem => hbrings.2 k item' (hlock.kept k item' hitem),
    fun k hother => (hlock.busy k hother).mapCache (busy_other hnode hfree hother)⟩
  rw [← List.append_assoc]
  exact hbrings.1 _ (hlock.account deeds hdeeds)

end

end Workshop.Told

end ServiceHost
