import ServiceHost.Proofs.Graph.Registry
import ServiceHost.Proofs.Graph.Singleton
import ServiceHost.Proofs.Graph.Trust

/-!
# Requests that register nothing

Requests that register nothing make components, or leave marks where constructors panic. A
component is made after those of its inputs, which were made before or can be made themselves, so it
was `Graph.Makeable` in the graph before: nothing that it needs is faulty (`Makeable.sound`). A
component that was there stays and is not marked any more. This is `Graph.Advanced`, and whatever
becomes of a calm graph in this way, the check before a construction judges every key as it did
before (`Advanced.verify_same`): it trusts more components, but none of those was unsound. A graph
whose constructors make no requests advances by any requests that register nothing
(`Workshop.Sequel.advanced`).
-/

namespace ServiceHost

open Relation

variable {σ ι : Type}

namespace Graph

/-- The component can be made after those that it uses, which can be made in their turn. -/
inductive Makeable (g : Graph σ ι) : Key → Prop
  | intro {key : Key} {inputs : Inputs} (hunbuilt : g.Unbuilt key inputs)
      (hrequired : ∀ p ∈ inputs, p.optional = false → g.node? p.key ≠ none)
      (hused : ∀ p ∈ inputs, g.Pending p.key → Makeable g p.key) : Makeable g key

section
variable {g g' : Graph σ ι} {key needed : Key} {inputs : Inputs}

/-- What a makeable component needs is makeable. -/
theorem Makeable.of_needed (h : g.Makeable key) (hneeds : ReflTransGen g.Uses key needed) :
    g.Makeable needed := by
  induction hneeds with
  | refl => exact h
  | tail _ huses ih =>
    obtain ⟨inputs, hunbuilt, ⟨p, hp, rfl⟩, hpending⟩ := huses
    cases ih with
    | intro hunbuilt' _ hused =>
      rw [hunbuilt.unique hunbuilt'] at hp
      exact hused p hp hpending

/-- The inputs of a makeable component do not lead back to it. -/
theorem Makeable.not_looping (h : g.Makeable key) : ¬ TransGen g.Uses key key := by
  induction h with
  | @intro key inputs hunbuilt _ _ ih =>
    intro hloop
    obtain ⟨used, huses, hback⟩ := TransGen.head'_iff.1 hloop
    have ⟨inputs', hunbuilt', ⟨p, hp, hkey⟩, hpending⟩ := huses
    subst hkey
    rw [hunbuilt'.unique hunbuilt] at hp
    exact ih p hp hpending (.tail' hback huses)

/-- What can be made needs nothing that is missing or leads back. -/
theorem Makeable.sound (h : g.Makeable key) : ¬ g.Unsound key := by
  rintro (hnone | ⟨needed, hneeds, hfaulty⟩)
  · cases h with
    | intro hunbuilt =>
      obtain ⟨_, _, hnode, _⟩ := hunbuilt
      cases hnone.symm.trans hnode
  have hneeded := h.of_needed hneeds.2
  cases hfaulty with
  | looping hloop => exact hneeded.not_looping hloop
  | lacking hinputs hp hrequired hnone =>
    cases hneeded with
    | intro hunbuilt hall =>
      rw [hinputs.unique hunbuilt] at hp
      exact hall _ hp hrequired hnone

/-! ## Later graphs -/

theorem Unbuilt.item? (h : g.Unbuilt key inputs) : g.item? key = none := by
  obtain ⟨construct, cache, hnode, hnone⟩ := h
  exact (item?_of_node? hnode).trans hnone

/-- A component that was made stays. -/
theorem Later.item? (h : g.Later g') {item : Instance ι} (hitem : g.item? key = some item) :
    g'.item? key = some item := by
  obtain ⟨node, hnode, hitem⟩ := Option.bind_eq_some_iff.1 hitem
  cases node with
  | value =>
    rw [item?_of_node? (h.value _ _ hnode)]
    exact hitem
  | recipe inputs construct cache =>
    obtain ⟨cache', hnode', hmade⟩ := h.recipe _ _ _ _ hnode
    rw [item?_of_node? hnode']
    exact hmade item hitem

/-- A constructor of the later graph was there before, with no more in its cache. -/
theorem Later.recipe_of (h : g.Later g') {construct : Args ι → Program σ ι} {cache' : Cache ι}
    (hnode : g'.node? key = some (.recipe inputs construct cache')) :
    ∃ cache, g.node? key = some (.recipe inputs construct cache) ∧
      ∀ item, cache.made = some item → cache'.made = some item := by
  cases hbefore : g.node? key with
  | none => cases hnode.symm.trans ((h.none key).2 hbefore)
  | some node =>
    cases node with
    | value item => cases hnode.symm.trans (h.value _ _ hbefore)
    | recipe inputs₀ construct₀ cache =>
      obtain ⟨cache₁, hsame, hmade⟩ := h.recipe _ _ _ _ hbefore
      cases hnode.symm.trans hsame
      exact ⟨cache, rfl, hmade⟩

theorem Later.detached (h : g.Later g') (hdetached : g.Detached) : g'.Detached := by
  intro key inputs construct cache' hnode args
  obtain ⟨cache, hbefore, -⟩ := h.recipe_of hnode
  exact hdetached key inputs construct cache hbefore args

/-- What is still to be made was to be made before. -/
theorem Later.unbuilt_of (h : g.Later g') (hunbuilt : g'.Unbuilt key inputs) :
    g.Unbuilt key inputs := by
  obtain ⟨construct, cache', hnode, hnone⟩ := hunbuilt
  obtain ⟨cache, hbefore, hmade⟩ := h.recipe_of hnode
  refine ⟨construct, cache, hbefore, ?_⟩
  cases hitem : cache.made with
  | none => rfl
  | some item => cases hnone.symm.trans (hmade item hitem)

/-- What was to be made is still to be made if it is not there. -/
theorem Later.unbuilt (h : g.Later g') (hunbuilt : g.Unbuilt key inputs)
    (hnone : g'.item? key = .none) : g'.Unbuilt key inputs := by
  obtain ⟨construct, cache, hnode, -⟩ := hunbuilt
  obtain ⟨cache', hnode', -⟩ := h.recipe _ _ _ _ hnode
  exact ⟨construct, cache', hnode', (item?_of_node? hnode').symm.trans hnone⟩

/-- A change of one cache that leaves the component in it. -/
theorem Later.mapCache {f : Cache ι → Cache ι}
    (hmade : ∀ inputs construct cache, g.node? key = some (.recipe inputs construct cache) →
      ∀ item, cache.made = some item → (f cache).made = some item) :
    g.Later (g.mapCache key f) := by
  refine ⟨fun k => ?_, fun k item hnode => ?_, fun k inputs construct cache hnode => ?_⟩
  · rw [node?_mapCache]
    split
    · exact Option.map_eq_none_iff
    · exact Iff.rfl
  · rw [node?_mapCache, hnode]
    split <;> rfl
  · rw [node?_mapCache, hnode]
    split
    · next hkey => exact ⟨f cache, rfl, hmade inputs construct cache (hkey ▸ hnode)⟩
    · exact ⟨cache, rfl, fun _ h => h⟩

/-- What is makeable later was makeable before, if what was made between was. -/
theorem Makeable.of_later (h : g'.Makeable key) (hlater : g.Later g')
    (hmade : ∀ k, g.Pending k → g'.item? k ≠ none → g.Makeable k) : g.Makeable key := by
  induction h with
  | @intro key inputs hunbuilt hrequired _ ih =>
    refine .intro (hlater.unbuilt_of hunbuilt) ?_ fun p hp hpending => ?_
    · exact fun p hp hoptional hnone => hrequired p hp hoptional ((hlater.none _).2 hnone)
    · obtain ⟨inputs', hunbuilt'⟩ := hpending
      by_cases hnone : g'.item? p.key = none
      · exact ih p hp ⟨inputs', hlater.unbuilt hunbuilt' hnone⟩
      · exact hmade p.key ⟨inputs', hunbuilt'⟩ hnone

/-! ## Advance -/

/-- The same nodes, with more made of them. -/
structure Advanced (g g' : Graph σ ι) : Prop where
  keys : g'.keys = g.keys
  later : g.Later g'
  /-- A component that was there is not marked any more. -/
  spared : ∀ key, g.item? key ≠ none → g'.Marked key → g.Marked key
  makeable : ∀ key, g.Pending key → g'.item? key ≠ none → g.Makeable key

namespace Advanced

variable {g'' : Graph σ ι}

theorem size (h : g.Advanced g') : g'.size = g.size := by
  rw [size_eq_keys, size_eq_keys, h.keys]

theorem refl (g : Graph σ ι) : g.Advanced g := by
  refine ⟨rfl, .refl g, fun _ _ h => h, ?_⟩
  rintro key ⟨inputs, hunbuilt⟩ hmade
  exact absurd hunbuilt.item? hmade

/-- Graphs advance step by step. -/
theorem trans (h : g.Advanced g') (h' : g'.Advanced g'') : g.Advanced g'' where
  keys := h'.keys.trans h.keys
  later := h.later.trans h'.later
  spared key hitem hmarked := by
    obtain ⟨item, hitem'⟩ := Option.ne_none_iff_exists'.1 hitem
    have hkept : g'.item? key ≠ none := Option.ne_none_iff_exists'.2 ⟨item, h.later.item? hitem'⟩
    exact h.spared key hitem (h'.spared key hkept hmarked)
  makeable key hpending hmade := by
    by_cases hnone : g'.item? key = none
    · obtain ⟨inputs, hunbuilt⟩ := hpending
      have hlast := h'.makeable key ⟨inputs, h.later.unbuilt hunbuilt hnone⟩ hmade
      exact hlast.of_later h.later h.makeable
    · exact h.makeable key hpending hnone

/-- A change of one cache that leaves the component in it, and a mark only if there is none. -/
theorem mapCache {f : Cache ι → Cache ι} (hmade : ∀ c, (f c).made = c.made)
    (hmark : (∀ c, (f c).poisoned = c.poisoned) ∨ g.item? key = none) :
    g.Advanced (g.mapCache key f) where
  keys := keys_mapCache ..
  later := .mapCache fun _ _ cache _ item hitem => (hmade cache).trans hitem
  spared k hitem hmarked := by
    rcases marked_mapCache hmarked with hbefore | ⟨rfl, c, hclean, hset⟩
    · exact hbefore
    rcases hmark with hsame | hnone
    · cases (hclean.symm.trans (hsame c).symm).trans hset
    · exact absurd hnone hitem
  makeable k hpending hitem := by
    obtain ⟨inputs, hunbuilt⟩ := hpending
    rw [item?_mapCache hmade] at hitem
    exact absurd hunbuilt.item? hitem

theorem lock (g : Graph σ ι) (key : Key) : g.Advanced (g.lock key) :=
  mapCache (fun _ => rfl) (.inl fun _ => rfl)

/-- A constructor under construction returns a component that could be made. -/
theorem store (h : g.Advanced g') (hbusy : g'.Busy key) (hmakeable : g.Makeable key)
    (item : Instance ι) : g.Advanced (g'.store key item) where
  keys := (keys_mapCache ..).trans h.keys
  later := by
    refine h.later.trans (.mapCache fun inputs construct cache hnode item' hitem => ?_)
    obtain ⟨_, _, _, hnode', -, hnone⟩ := hbusy
    cases hnode.symm.trans hnode'
    cases hnone.symm.trans hitem
  spared k hitem hmarked := by
    rcases marked_mapCache hmarked with hbefore | ⟨-, c, hclean, hset⟩
    · exact h.spared k hitem hbefore
    · cases hclean.symm.trans hset
  makeable k hpending hitem := by
    rw [item?_store hbusy] at hitem
    split at hitem
    · next hkey => exact hkey ▸ hmakeable
    · exact h.makeable k hpending hitem

/-! ### The check -/

/-- The check trusts no less of a graph that advanced from a calm one. -/
theorem surer (h : g.Advanced g') (hcalm : g.Calm) (hlocks : g'.LockedIn []) :
    g.Surer g'.trusted where
  calm := hcalm
  calm' := trusted_calm g'
  size := (size_trusted g').trans h.size
  none k := by
    rw [node?_trusted, Option.map_eq_none_iff]
    exact h.later.none k
  unbuilt k inputs hunbuilt := by
    obtain ⟨construct, cache', hnode', hcached⟩ := unbuilt_trusted.1 hunbuilt
    obtain ⟨cache, hnode, hkept⟩ := h.later.recipe_of hnode'
    refine ⟨construct, cache, hnode, ?_⟩
    cases hmade : cache.made with
    | none => rfl
    | some item =>
      -- it is made, and not trusted, so it would be marked; but it was made before
      have hmarked : g'.Marked k := by
        refine ⟨inputs, construct, cache', hnode', ?_⟩
        have hfree := hlocks.free hnode' List.not_mem_nil
        simpa [Node.isCached, hfree, hkept item hmade] using hcached
      have hitem : g.item? k ≠ none := by
        rw [item?_of_node? hnode, Node.item?, hmade]
        exact Option.some_ne_none item
      exact absurd (h.spared k hitem hmarked) (hcalm.unmarked k)

/-- The check judges a graph that advanced from a calm one as it judged that one. -/
theorem verify_same (h : g.Advanced g') (hcalm : g.Calm) (hlocks : g'.LockedIn [])
    {node node' : Node σ ι} (hnode : g.node? key = some node)
    (hnode' : g'.node? key = some node') : g'.verify key node' = g.verify key node := by
  have htrusted : g'.trusted.node? key = some node'.trusted := by
    rw [node?_trusted, hnode', Option.map_some]
  have hsound : g.SoundBetween g'.trusted key := by
    intro needed hneeds hthere
    obtain ⟨inputs, construct, cache, hneeded, hnone⟩ := hneeds.pending
    obtain ⟨cache', hneeded', -⟩ := h.later.recipe _ _ _ _ hneeded
    refine (h.makeable needed hneeds.pending fun hmissing => hthere ?_).sound
    refine ⟨inputs, unbuilt_trusted.2 ⟨construct, cache', hneeded', ?_⟩⟩
    have hunmade : cache'.made = none := (item?_of_node? hneeded').symm.trans hmissing
    simp [Node.isCached, hunmade]
  rw [← verify_trusted]
  exact (h.surer hcalm hlocks).verify_same hnode htrusted hsound

end Advanced

end

end Graph

/-! ## Constructions -/

variable {note : Notice → σ → σ} {w w' : Workshop σ ι} {key : Key} {inputs : Inputs}

/-- The end of a construction without a component. -/
theorem Graph.Advanced.giveUp (hbusy : w.graph.Busy key) (why : Option Interruption) :
    w.graph.Advanced (w.giveUp key why).graph := by
  match why with
  | none => exact .mapCache (fun _ => rfl) (.inl fun _ => rfl)
  | some (.panic _) => exact .mapCache (fun _ => rfl) (.inr hbusy.item?)
  | some (.deadlock _) => exact .refl _
  | some .tooDeep => exact .refl _

/-- When all inputs were found, those that are required are registered, and the components of those
that are registered are there. -/
theorem gather_found {owner : Key} {entries : Entries ι}
    {find : Key → Node σ ι → Workshop σ ι → Outcome GraphError (Instance ι) × Workshop σ ι}
    (hfind : ∀ key node (w : Workshop σ ι), w.graph.Detached → w.graph.node? key = some node →
      w.graph.Advanced (find key node w).2.graph ∧
        ∀ item, (find key node w).1 = .ok item → (find key node w).2.graph.item? key = some item)
    (hdetached : w.graph.Detached) (h : gather owner find inputs w = (.ok entries, w')) :
    w.graph.Advanced w'.graph ∧ ∀ p ∈ inputs, (p.optional = false → w.graph.node? p.key ≠ none) ∧
      (w.graph.node? p.key ≠ none → w'.graph.item? p.key ≠ none) := by
  induction inputs generalizing w entries with
  | nil =>
    cases h
    exact ⟨.refl _, fun _ hp => absurd hp List.not_mem_nil⟩
  | cons p rest ih =>
    rcases gather_cons_ok h with ⟨more, hnode, hoptional, hrest, rfl⟩ |
      ⟨node, item, w₁, more, hnode, hfirst, hrest, rfl⟩
    · obtain ⟨hadvanced, hall⟩ := ih hdetached hrest
      refine ⟨hadvanced, List.forall_mem_cons.2 ⟨⟨fun hrequired => ?_, absurd hnode⟩, hall⟩⟩
      cases hoptional.symm.trans hrequired
    · obtain ⟨hadvanced, hitem⟩ := hfind p.key node w hdetached hnode
      rw [hfirst] at hadvanced hitem
      obtain ⟨hmore, hall⟩ := ih (hadvanced.later.detached hdetached) hrest
      have hthere : w'.graph.item? p.key ≠ none :=
        Option.ne_none_iff_exists'.2 ⟨item, hmore.later.item? (hitem item rfl)⟩
      have hsome : w.graph.node? p.key ≠ none := Option.ne_none_iff_exists'.2 ⟨node, hnode⟩
      refine ⟨hadvanced.trans hmore, List.forall_mem_cons.2 ⟨⟨fun _ => hsome, fun _ => hthere⟩,
        fun q hq => ⟨fun hrequired hnone => ?_, fun hregistered => ?_⟩⟩⟩
      · exact (hall q hq).1 hrequired ((hadvanced.later.none _).2 hnone)
      · exact (hall q hq).2 fun hnone => hregistered ((hadvanced.later.none _).1 hnone)

/-- A construction makes components after those of their inputs. -/
theorem build_advanced (note : Notice → σ → σ) (depth : Nat) (path : List Key) (key : Key)
    (node : Node σ ι) (w : Workshop σ ι) (hdetached : w.graph.Detached)
    (hnode : w.graph.node? key = some node) :
    w.graph.Advanced (build note depth path key node w).2.graph := by
  induction depth generalizing path key node w with
  | zero => cases node <;> exact .refl _
  | succ depth ih =>
    cases node with
    | value item => exact .refl _
    | recipe inputs construct cache =>
    unfold build
    split
    · exact .refl _
    cases hlocked : cache.locked with
    | true => exact .refl _
    | false =>
    cases hmade : cache.made with
    | some item => exact .refl _
    | none =>
      have hlock := Graph.Advanced.lock w.graph key
      have hdetached' : (w.graph.lock key).Detached := hlock.later.detached hdetached
      have hgather := gather_induction (R := fun w _ w' => w.graph.Advanced w'.graph)
        (fun w => .refl w.graph) .trans key inputs (w := { w with graph := w.graph.lock key })
        fun k node w' hbefore hk =>
          ih (path ++ [key]) k node w' (hbefore.later.detached hdetached') hk
      have hbusy := (gather_told key (fun k node w' hk =>
        build_finds note depth (path ++ [key]) k node w' hk) inputs
        { w with graph := w.graph.lock key }).1.busy key (Workshop.Told.busy_lock hnode hmade)
      have hfound (entries : Entries ι) (w₁ : Workshop σ ι)
          (hok : gather key (build note depth (path ++ [key])) inputs
            { w with graph := w.graph.lock key } = (.ok entries, w₁)) :=
        gather_found (fun k node w' hdetached hk =>
          ⟨ih (path ++ [key]) k node w' hdetached hk,
            (build_finds note depth (path ++ [key]) k node w' hk).found⟩) hdetached' hok
      simp only [Bool.false_eq_true, if_false]
      generalize gather key (build note depth (path ++ [key])) inputs
        { w with graph := w.graph.lock key } = r at hgather hbusy hfound
      obtain ⟨outcome, w₁⟩ := r
      have hbefore : w.graph.Advanced w₁.graph := hlock.trans hgather
      cases outcome with
      | error e => exact hbefore.trans (.giveUp hbusy none)
      | interrupted why => exact hbefore.trans (.giveUp hbusy (some why))
      | ok entries =>
        obtain ⟨-, hall⟩ := hfound entries w₁ rfl
        have hmakeable : w.graph.Makeable key := by
          refine .intro ⟨construct, cache, hnode, hmade⟩ (fun p hp hoptional hnone => ?_)
            fun p hp hpending => ?_
          · exact (hall p hp).1 hoptional ((hlock.later.none _).2 hnone)
          · refine hbefore.makeable p.key hpending ((hall p hp).2 fun hnone => ?_)
            obtain ⟨_, _, _, hnode', _⟩ := hpending
            cases hnode'.symm.trans ((hlock.later.none _).1 hnone)
        obtain ⟨⟨world, hworld⟩, -⟩ := (hdetached key inputs construct cache hnode
          ⟨key, entries⟩).run (resolveWith (build note depth []))
            { w₁ with world := note (.constructing key) w₁.world }
        simp only
        generalize Program.run (resolveWith (build note depth [])) (construct ⟨key, entries⟩)
          { w₁ with world := note (.constructing key) w₁.world } = r at hworld
        obtain ⟨outcome, w₂⟩ := r
        obtain rfl : w₂ = { w₁ with world } := hworld
        cases outcome with
        | ok value => exact hbefore.store hbusy hmakeable _
        | error failure =>
          exact hbefore.trans (.giveUp (w := { w₁ with world }) hbusy none)
        | interrupted why =>
          exact hbefore.trans (.giveUp (w := { w₁ with world }) hbusy (some why))

/-! ## Requests -/

variable {depth : Nat}

/-- A resolution makes components and registers none. -/
theorem resolveWithin_advanced (note : Notice → σ → σ) (depth : Nat) (key : Key)
    (hdetached : w.graph.Detached) :
    w.graph.Advanced (resolveWithin note depth key w).2.graph := by
  unfold resolveWithin resolveWith
  cases hnode : w.graph.node? key with
  | none => exact .refl _
  | some node =>
    simp only
    cases node.available with
    | some item => exact .refl _
    | none =>
      simp only
      cases w.graph.verify key node with
      | error e => exact .refl _
      | ok => exact build_advanced note depth [] key node w hdetached hnode

/-- Finding an input of an invocation makes components and registers none. -/
theorem fetch_advanced (note : Notice → σ → σ) (depth : Nat) (owner key : Key) {node : Node σ ι}
    (hdetached : w.graph.Detached) (hnode : w.graph.node? key = some node) :
    w.graph.Advanced (fetch note depth owner key node w).2.graph := by
  unfold fetch
  cases w.graph.verify key node with
  | error e => exact .refl _
  | ok => exact build_advanced note depth [owner] key node w hdetached hnode

/-- A registration that does not add a node changes nothing. -/
theorem Workshop.register_same {node : Node σ ι}
    (hsize : (w.register key node).2.graph.size ≤ w.graph.size) :
    (w.register key node).2 = w := by
  unfold Workshop.register at hsize ⊢
  rcases w.graph.register_eq key node with ⟨-, hrefused⟩ | ⟨-, g, hok, hkeys⟩
  · rw [hrefused]
  · rw [hok] at hsize
    have hgrown : g.size = w.graph.size + 1 := by
      rw [Graph.size_eq_keys, Graph.size_eq_keys, hkeys, List.length_append, List.length_singleton]
    simp only at hsize
    omega

/-- What happens to a graph at work whenever a key is resolved, or found for an invocation, and the
surroundings change, as often as this is done. -/
structure Workshop.Steady (note : Notice → σ → σ) (R : Workshop σ ι → Workshop σ ι → Prop) :
    Prop where
  live (w : Workshop σ ι) (world : σ) : R w { w with world }
  trans {w₁ w₂ w₃ : Workshop σ ι} (h : R w₁ w₂) (h' : R w₂ w₃) : R w₁ w₃
  resolve (depth : Nat) (key : Key) {w : Workshop σ ι} (hdetached : w.graph.Detached) :
    R w (resolveWithin note depth key w).2
  fetch (depth : Nat) (owner key : Key) {node : Node σ ι} {w : Workshop σ ι}
    (hdetached : w.graph.Detached) (hnode : w.graph.node? key = some node) :
    R w (fetch note depth owner key node w).2

/-- The graph at work advances all the while. -/
theorem Graph.Advanced.steady (note : Notice → σ → σ) :
    Workshop.Steady note fun w w' : Workshop σ ι => w.graph.Advanced w'.graph where
  live w _ := .refl w.graph
  trans h h' := h.trans h'
  resolve depth key _ hdetached := resolveWithin_advanced note depth key hdetached
  fetch depth owner key _ _ hdetached hnode := fetch_advanced note depth owner key hdetached hnode

namespace Workshop.Steady

variable {R : Workshop σ ι → Workshop σ ι → Prop}

/-- It happens when the inputs of an invocation are found. -/
theorem gather (hR : Steady note R) (depth : Nat) (owner : Key) (inputs : Inputs)
    (hdetached : w.graph.Detached) :
    R w (ServiceHost.gather owner (ServiceHost.fetch note depth owner) inputs w).2 := by
  have hboth := gather_induction (R := fun w _ w' => R w w' ∧ w.graph.Later w'.graph)
    (fun w => ⟨hR.live w w.world, .refl w.graph⟩)
    (fun h h' => ⟨hR.trans h.1 h'.1, h.2.trans h'.2⟩) owner inputs (w := w)
    fun key node w' hbefore hk =>
      have hdetached' := hbefore.2.detached hdetached
      ⟨hR.fetch depth owner key hdetached' hk,
        (fetch_advanced note depth owner key hdetached' hk).later⟩
  exact hboth.1

/-- It happens while a program runs that registers nothing in the end. -/
theorem program (hR : Steady note R) {p : Program σ ι} (hp : p.Orderly) (h : w.Idle)
    (hdeep : (p.run (resolveWithin note depth) w).1.interruption? ≠ some .tooDeep)
    (hsize : (p.run (resolveWithin note depth) w).2.graph.size = w.graph.size) :
    R w (p.run (resolveWithin note depth) w).2 := by
  induction hp generalizing w with
  | finish result => cases result <;> exact hR.live w w.world
  | panic text => exact hR.live w w.world
  | read _ ih => exact ih w.world h hdeep hsize
  | write world _ ih => exact hR.trans (hR.live w world) (ih (h.still world).idle hdeep hsize)
  | isCached key _ ih => exact ih _ h hdeep hsize
  | resolve key _ ih =>
    have hfirst := hR.resolve depth key h.detached
    have hsame := (resolveWithin_advanced note depth key h.detached).size
    have hkept := @resolve_kept _ _ w note depth h key
    unfold Program.run Workshop.consult at hdeep hsize ⊢
    rw [h.beside] at hdeep hsize ⊢
    simp only at hdeep hsize ⊢
    generalize resolveWithin note depth key w = r at hdeep hsize hfirst hsame hkept
    obtain ⟨outcome, w₁⟩ := r
    cases outcome with
    | ok item =>
      have hidle : w₁.Idle := ((hkept nofun).rested h).idle
      exact hR.trans hfirst (ih _ hidle hdeep (hsize.trans hsame.symm))
    | error e =>
      have hidle : w₁.Idle := ((hkept nofun).rested h).idle
      exact hR.trans hfirst (ih _ hidle hdeep (hsize.trans hsame.symm))
    | interrupted why => exact hfirst
  | @supply key value next _ ih =>
    have hsame := @register_same _ _ w key (.ofValue key value)
    have hmore := fun result w' => (Program.evolves (resolveWithin_evolves note depth)
      (next result) w').size_le
    unfold Program.run Workshop.consult at hdeep hsize ⊢
    rw [h.beside] at hdeep hsize ⊢
    simp only at hdeep hsize ⊢
    generalize w.register key (.ofValue key value) = r at hdeep hsize hsame
    obtain ⟨result, w₁⟩ := r
    obtain rfl : w₁ = w := hsame (hsize ▸ hmore result w₁)
    exact ih result h hdeep hsize
  | @provide key inputs construct next hconstruct _ ih =>
    have hsame := @register_same _ _ w key (.ofRecipe inputs construct)
    have hmore := fun result w' => (Program.evolves (resolveWithin_evolves note depth)
      (next result) w').size_le
    unfold Program.run Workshop.consult at hdeep hsize ⊢
    rw [h.beside] at hdeep hsize ⊢
    simp only at hdeep hsize ⊢
    generalize w.register key (.ofRecipe inputs construct) = r at hdeep hsize hsame
    obtain ⟨result, w₁⟩ := r
    obtain rfl : w₁ = w := hsame (hsize ▸ hmore result w₁)
    exact ih result h hdeep hsize

/-- It happens while a function is invoked that registers nothing in the end. -/
theorem invoke (hR : Steady note R) (h : w.Idle) (name : String) (inputs : Inputs)
    {function : Args ι → Program σ ι} (hfunction : ∀ args, (function args).Orderly)
    (hdeep : (invokeWithin note depth name inputs function w).1.interruption? ≠ some .tooDeep)
    (hsize : (invokeWithin note depth name inputs function w).2.graph.size = w.graph.size) :
    R w (invokeWithin note depth name inputs function w).2 := by
  have hgather := hR.gather depth (invocationKey name) inputs h.detached
  have hsame := ((Graph.Advanced.steady note).gather depth (invocationKey name) inputs
    h.detached).size
  have hkept := @gather_kept _ _ (invocationKey name) (ServiceHost.fetch note depth
    (invocationKey name)) inputs w fun key node w' hgrown hnode =>
      fetch_kept (hgrown.lockedIn h.unlocked) (hgrown.detached h.detached) hnode
  rw [invokeWithin_eq] at hdeep hsize ⊢
  generalize ServiceHost.gather (invocationKey name)
    (ServiceHost.fetch note depth (invocationKey name)) inputs w = r
    at hdeep hsize hgather hsame hkept
  obtain ⟨outcome, w₁⟩ := r
  cases outcome with
  | error e => exact hgather
  | interrupted why => exact hgather
  | ok entries =>
    have hidle : w₁.Idle := ((hkept nofun).rested h).idle
    have hready := (hidle.still (note (.invoking (invocationKey name)) w₁.world)).idle
    have hrun := @program _ _ note _ depth _ hR _ (hfunction ⟨invocationKey name, entries⟩) hready
    simp only at hdeep hsize ⊢
    generalize (function ⟨invocationKey name, entries⟩).run (resolveWithin note depth)
      { w₁ with world := note (.invoking (invocationKey name)) w₁.world } = r
      at hdeep hsize hrun
    obtain ⟨outcome, w₂⟩ := r
    have hlast (hsize : w₂.graph.size = w₁.graph.size)
        (hdeep : outcome.interruption? ≠ some .tooDeep) : R w w₂ :=
      hR.trans hgather (hR.trans (hR.live w₁ _) (hrun hdeep hsize))
    cases outcome <;> exact hlast (hsize.trans hsame.symm) hdeep

end Workshop.Steady

theorem gather_fetch_advanced (note : Notice → σ → σ) (depth : Nat) (owner : Key)
    (inputs : Inputs) (hdetached : w.graph.Detached) :
    w.graph.Advanced (gather owner (fetch note depth owner) inputs w).2.graph :=
  (Graph.Advanced.steady note).gather depth owner inputs hdetached

/-- The constructors that a request registers make no requests. -/
def Request.Orderly : Request σ ι → Prop
  | .live _ => True
  | .supply _ _ => True
  | .provide _ _ construct => ∀ args, (construct args).Detached
  | .resolve _ _ => True
  | .invoke _ _ _ function => ∀ args, (function args).Orderly

/-- Why a request is not answered, if it is not. -/
def Reply.interruption? : Reply ι → Option Interruption
  | .none => Option.none
  | .registered _ => Option.none
  | .resolved outcome => outcome.interruption?
  | .invoked outcome => outcome.interruption?

namespace Request

variable {request : Request σ ι}

/-- An orderly request leaves an idle graph idle. -/
theorem Orderly.rested (hrequest : request.Orderly) (h : w.Idle)
    (hdeep : (request.reply note w).1.interruption? ≠ some .tooDeep) :
    w.Rested (request.reply note w).1.interruption? (request.reply note w).2 := by
  cases request with
  | live world => exact h.still world
  | supply key value => exact h.supply key value
  | provide key inputs construct => exact h.provide key inputs hrequest
  | resolve depth key => exact (resolve_kept h key hdeep).rested h
  | invoke depth name inputs function => exact invoke_rested h name inputs hrequest hdeep

/-- What happens whenever a key is resolved happens by every request that registers nothing. -/
theorem Orderly.steady {R : Workshop σ ι → Workshop σ ι → Prop} (hR : Workshop.Steady note R)
    (hrequest : request.Orderly) (h : w.Idle)
    (hdeep : (request.reply note w).1.interruption? ≠ some .tooDeep)
    (hsize : (request.reply note w).2.graph.size = w.graph.size) :
    R w (request.reply note w).2 := by
  have hsame (key : Key) (node : Node σ ι)
      (hsize : (w.register key node).2.graph.size = w.graph.size) :
      R w (w.register key node).2 := by
    rw [Workshop.register_same (Nat.le_of_eq hsize)]
    exact hR.live w w.world
  cases request with
  | live world => exact hR.live w world
  | supply key value => exact hsame key _ hsize
  | provide key inputs construct => exact hsame key _ hsize
  | resolve depth key => exact hR.resolve depth key h.detached
  | invoke depth name inputs function => exact hR.invoke h name inputs hrequest hdeep hsize

end Request

namespace Workshop

/-- The graph at work after more requests, none of which has registered anything: nodes are added
and never removed, so nothing was registered if there are as many as before. -/
inductive Sequel (note : Notice → σ → σ) (w : Workshop σ ι) : Workshop σ ι → Prop
  | refl : Sequel note w w
  | next {w' : Workshop σ ι} (h : Sequel note w w') {request : Request σ ι}
      (hrequest : request.Orderly)
      (hdeep : (request.reply note w').1.interruption? ≠ some .tooDeep)
      (hsize : (request.reply note w').2.graph.size = w'.graph.size) :
      Sequel note w (request.reply note w').2

theorem Sequel.idle (h : w.Sequel note w') (hidle : w.Idle) : w'.Idle := by
  induction h with
  | refl => exact hidle
  | next _ hrequest hdeep _ ih => exact (hrequest.rested ih hdeep).idle

/-- What happens whenever a key is resolved happens by any requests that register nothing. -/
theorem Sequel.steady {R : Workshop σ ι → Workshop σ ι → Prop} (hR : Steady note R)
    (h : w.Sequel note w') (hidle : w.Idle) : R w w' := by
  induction h with
  | refl => exact hR.live w w.world
  | next h hrequest hdeep hsize ih =>
    exact hR.trans ih (hrequest.steady hR (h.idle hidle) hdeep hsize)

/-- Requests that register nothing only make components. -/
theorem Sequel.advanced (h : w.Sequel note w') (hidle : w.Idle) : w.graph.Advanced w'.graph :=
  h.steady (Graph.Advanced.steady note) hidle

end Workshop

end ServiceHost
