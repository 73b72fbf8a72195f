import ServiceHost.Graph.Describe
import ServiceHost.Proofs.Graph.Agreement

/-!
# What is said to be cached

A key is said to be cached by a rule of its own: its cache is neither locked nor marked by a panic,
and there is something in it. Resolution hands out whatever is in a cache that is not locked, marked
or not, and a key that is not handed out is either refused or costs the call of a constructor
(`handsOut_iff`). So while nothing is under construction the two differ by the marks
(`isCached_iff`). A mark is put on a cache only by a panic that ends the request during which it
happened (`Chronicle.unmarked`), and it stays when a later construction fills the cache: such a key
is handed out, and said not to be cached (`panickedFirst_denied`).
-/

namespace ServiceHost

variable {σ ι : Type} {note : Notice → σ → σ} {depth : Nat} {w : Workshop σ ι} {key : Key}

/-! ## Handing out -/

/-- The key is resolved, and no constructor is called for it. -/
def Workshop.HandsOut (w : Workshop σ ι) (note : Notice → σ → σ) (depth : Nat) (key : Key) : Prop :=
  (∃ item, (resolveWithin note depth key w).1 = .ok item) ∧
    calls (resolveWithinDeeds note depth key w) = []

/-- A construction that returns a component which was not there has called a constructor. -/
theorem build_calls {path : List Key} {node : Node σ ι} {item : Instance ι}
    (hnone : node.available = none) (hok : (build note depth path key node w).1 = .ok item) :
    calls (buildTrace Deed.of note depth path key node w) ≠ [] := by
  cases node with
  | value => cases hnone
  | recipe inputs construct cache =>
    cases depth with
    | zero => cases hok
    | succ depth =>
      unfold build at hok
      unfold buildTrace
      by_cases hpath : key ∈ path
      · rw [if_pos hpath] at hok
        cases hok
      rw [if_neg hpath] at hok
      cases hlocked : cache.locked with
      | true =>
        rw [hlocked] at hok
        cases hok
      | false =>
      cases hmade : cache.made with
      | some item' =>
        rw [Node.available, hlocked, hmade] at hnone
        cases hnone
      | none =>
        rw [if_neg (by simp [hpath])]
        simp only [hlocked, hmade, Bool.false_eq_true, if_false] at hok ⊢
        generalize gather key (build note depth (path ++ [key])) inputs
          { w with graph := w.graph.lock key } = r at hok
        obtain ⟨outcome, w₁⟩ := r
        cases outcome with
        | error e => cases hok
        | interrupted why => cases hok
        | ok entries =>
          rw [calls_append]
          exact List.append_ne_nil_of_right_ne_nil _ (List.cons_ne_nil _ _)

/-- The key is handed out exactly if its component can be had at once. -/
theorem handsOut_iff :
    w.HandsOut note depth key ↔ ((w.graph.node? key).bind Node.available).isSome = true := by
  unfold Workshop.HandsOut resolveWithin resolveWith resolveWithinDeeds resolveWithinTrace
    resolveTrace
  cases w.graph.node? key with
  | none =>
    refine ⟨?_, fun hsome => absurd hsome Bool.false_ne_true⟩
    rintro ⟨⟨item, hok⟩, -⟩
    cases hok
  | some node =>
    simp only [Option.bind_some]
    cases havailable : node.available with
    | some item => exact ⟨fun _ => rfl, fun _ => ⟨⟨item, rfl⟩, rfl⟩⟩
    | none =>
      refine ⟨?_, fun hsome => absurd hsome Bool.false_ne_true⟩
      rintro ⟨⟨item, hok⟩, hcalls⟩
      cases hverify : w.graph.verify key node with
      | error e =>
        rw [hverify] at hok
        cases hok
      | ok =>
        simp only [hverify] at hok hcalls
        exact absurd hcalls (build_calls havailable hok)

/-- While nothing is under construction, a key is said to be cached exactly if it is handed out and
no panic has marked it. -/
theorem isCached_iff (hidle : w.graph.LockedIn []) :
    w.graph.isCached key = true ↔ w.HandsOut note depth key ∧ ¬ w.graph.Marked key := by
  rw [handsOut_iff, Graph.isCached]
  cases hnode : w.graph.node? key with
  | none => simp
  | some node =>
    cases node with
    | value item =>
      refine ⟨fun _ => ⟨rfl, ?_⟩, fun _ => rfl⟩
      rintro ⟨_, _, _, hrecipe, -⟩
      cases hnode.symm.trans hrecipe
    | recipe inputs construct cache =>
      have hfree : cache.locked = false := hidle.free hnode List.not_mem_nil
      have hmarked : w.graph.Marked key ↔ cache.poisoned = true := by
        constructor
        · rintro ⟨_, _, _, hrecipe, hmark⟩
          cases hnode.symm.trans hrecipe
          exact hmark
        · exact fun hmark => ⟨inputs, construct, cache, hnode, hmark⟩
      rw [hmarked]
      simp [Node.isCached, Node.available, hfree, and_comm]

/-! ## Marks -/

/-- A call marks nothing unless it ends in a panic. -/
theorem Graph.Marked.effect :
    Graph.Effect fun (g : Graph σ ι) why (g' : Graph σ ι) =>
      (∀ text, why ≠ some (.panic text)) → ∀ key, g'.Marked key → g.Marked key where
  refl _ _ _ _ hmark := hmark
  trans h h' hcalm key hmark := h nofun key (h' hcalm key hmark)
  cache h key f hf hcalm k hmarked := by
    rcases Graph.marked_mapCache hmarked with hbefore | ⟨-, c, hclean, hset⟩
    · exact h hcalm k hbefore
    · cases (hclean.symm.trans (hf c).symm).trans hset
  poison _ _ hcalm := absurd rfl (hcalm _)
  node hregister hnew _ k hmarked := by
    obtain ⟨inputs, construct, cache, hk, hmark⟩ := hmarked
    rcases Graph.register_ok hregister k with ⟨hsome, -⟩ | hsame
    · cases (hnew _ _ _ (Option.some.inj (hsome.symm.trans hk))).symm.trans hmark
    · exact ⟨inputs, construct, cache, hsame ▸ hk, hmark⟩

/-- A request marks nothing unless it ends in a panic. -/
theorem Request.marked (note : Notice → σ → σ) (request : Request σ ι) (w : Workshop σ ι)
    (hcalm : ∀ text, (request.reply note w).1.interruption? ≠ some (.panic text))
    (hmark : (request.reply note w).2.graph.Marked key) : w.graph.Marked key := by
  cases request with
  | live world => exact hmark
  | supply key' value => exact Graph.Marked.effect.supply w key' value nofun key hmark
  | provide key' inputs construct =>
    exact Graph.Marked.effect.provide w key' inputs construct nofun key hmark
  | resolve depth key' =>
    exact Graph.Marked.effect.resolveWithin note depth key' w hcalm key hmark
  | invoke depth name inputs function =>
    exact Graph.Marked.effect.invokeWithin note depth name inputs function w hcalm key hmark

/-- If no request of a history has ended in a panic, nothing is marked, whatever the constructors
request in their turn. -/
theorem Chronicle.unmarked (note : Notice → σ → σ) (world : σ) (requests : List (Request σ ι))
    (hcalm : ∀ reply ∈ (of note world requests).replies, ∀ text,
      reply.interruption? ≠ some (.panic text)) :
    (of note world requests).workshop.graph.Unmarked := by
  induction requests using List.reverseRecOn with
  | nil =>
    rintro key ⟨_, _, _, hnode, -⟩
    cases hnode
  | append_singleton requests request ih =>
    rw [of_concat] at hcalm ⊢
    obtain ⟨hbefore, hlast⟩ := List.forall_mem_append.1 hcalm
    intro key hmark
    exact ih hbefore key (request.marked note _ (hlast _ (List.mem_singleton_self _)) hmark)

/-! ## What is shown -/

/-- The line of a constructor in the description of a graph ends in what is said of its key. -/
theorem Graph.describe_recipe {g : Graph σ ι} {inputs : Inputs}
    {construct : Args ι → Program σ ι} {cache : Cache ι}
    (hnode : g.node? key = some (.recipe inputs construct cache)) :
    "(constructor) " ++ key.text ++ ", deps: [" ++
      Text.join ", " (inputs.map fun p => p.key.text) ++ "], cached: " ++
        toString (g.isCached key) ∈ g.describeNodes := by
  obtain ⟨before, after, hentries, -⟩ := List.lookup_eq_some_iff.1 hnode
  refine List.mem_map.2 ⟨(key, .recipe inputs construct cache), ?_, ?_⟩
  · rw [hentries]
    exact List.mem_append_right _ List.mem_cons_self
  · rw [Graph.isCached, hnode]
    rfl

/-! ## Histories -/

/-- After any requests, and while nothing is under construction, a key is said to be cached exactly
if it is handed out without a call of a constructor and no construction of it has ended in a panic.
The description of the graph says of a constructor what is said of its key. If no request has ended
in a panic, nothing is marked, so that what is said of a key is exactly that it is handed out. -/
theorem cached_unless_marked (note : Notice → σ → σ) (world : σ) (requests : List (Request σ ι))
    (hidle : (Chronicle.of note world requests).workshop.graph.LockedIn []) (depth : Nat)
    (key : Key) :
    let c := Chronicle.of note world requests
    let g := c.workshop.graph
    (g.isCached key = true ↔ c.workshop.HandsOut note depth key ∧ ¬ g.Marked key) ∧
      (∀ inputs construct cache, g.node? key = some (.recipe inputs construct cache) →
        "(constructor) " ++ key.text ++ ", deps: [" ++
          Text.join ", " (inputs.map fun p => p.key.text) ++ "], cached: " ++
            toString (g.isCached key) ∈ g.describeNodes) ∧
      ((∀ reply ∈ c.replies, ∀ text, reply.interruption? ≠ some (.panic text)) →
        (g.isCached key = true ↔ c.workshop.HandsOut note depth key)) := by
  intro c g
  have hcached : g.isCached key = true ↔ c.workshop.HandsOut note depth key ∧ ¬ g.Marked key :=
    isCached_iff hidle
  refine ⟨hcached, fun inputs construct cache hnode => Graph.describe_recipe hnode, fun hcalm => ?_⟩
  rw [hcached, and_iff_left (Chronicle.unmarked note world requests hcalm key)]

/-- A constructor whose first call takes a course of its own is registered and resolved twice. -/
def resolvedTwice (first : Program Nat Nat) : List (Request Nat Nat) :=
  [.provide (.of ⟨"Alpha"⟩) [] fun _ => .read fun count =>
      if count = 1 then first else .finish (.ok count),
    .resolve 2 (.of ⟨"Alpha"⟩), .resolve 2 (.of ⟨"Alpha"⟩)]

/-- In a graph of one constructor nothing is under construction if that one is not. -/
theorem Graph.LockedIn.of_entry {g : Graph σ ι} {inputs : Inputs}
    {construct : Args ι → Program σ ι} {cache : Cache ι}
    (h : g.entries = [(key, .recipe inputs construct cache)]) (hfree : cache.locked = false) :
    g.LockedIn [] := by
  intro k inputs' construct' cache' hnode hlocked
  obtain ⟨before, after, hentries, -⟩ := List.lookup_eq_some_iff.1 hnode
  have hmem : (k, .recipe inputs' construct' cache') ∈ g.entries := by
    rw [hentries]
    exact List.mem_append_right _ List.mem_cons_self
  rw [h] at hmem
  cases List.mem_singleton.1 hmem
  cases hfree.symm.trans hlocked

/-- When the first call has failed and the second one returned, the key is said to be cached. -/
theorem failedFirst_cached :
    let note : Notice → Nat → Nat := fun _ count => count + 1
    let alpha : Key := .of ⟨"Alpha"⟩
    let c := Chronicle.of note 0 (resolvedTwice (.finish (.error ⟨"no disk", []⟩)))
    c.workshop.graph.LockedIn [] ∧
      (c.workshop.graph.isCached alpha = true ↔ c.workshop.HandsOut note 2 alpha) ∧
      c.workshop.graph.isCached alpha = true := by
  intro note alpha c
  have hentries : c.workshop.graph.entries =
      [(alpha, .recipe [] _ ⟨some ⟨alpha.type, 2⟩, false, false⟩)] := rfl
  have hidle : c.workshop.graph.LockedIn [] := .of_entry hentries rfl
  have hreplies : c.replies = [.registered (.ok ()),
      .resolved (.error (.constructor alpha ⟨"no disk", []⟩)),
      .resolved (.ok ⟨alpha.type, 2⟩)] := rfl
  obtain ⟨-, -, htold⟩ := cached_unless_marked note 0 _ hidle 2 alpha
  refine ⟨hidle, htold ?_, rfl⟩
  rw [hreplies]
  simp [Reply.interruption?, Outcome.interruption?]

/-- When the first call has panicked, the key is said not to be cached although it is handed out. -/
theorem panickedFirst_denied :
    let note : Notice → Nat → Nat := fun _ count => count + 1
    let alpha : Key := .of ⟨"Alpha"⟩
    let c := Chronicle.of note 0 (resolvedTwice (.panic "boom"))
    c.workshop.graph.LockedIn [] ∧ c.workshop.graph.isCached alpha = false ∧
      c.workshop.HandsOut note 2 alpha := by
  intro note alpha c
  have hentries : c.workshop.graph.entries =
      [(alpha, .recipe [] _ ⟨some ⟨alpha.type, 2⟩, false, true⟩)] := rfl
  exact ⟨.of_entry hentries rfl, rfl, ⟨_, rfl⟩, rfl⟩

end ServiceHost
