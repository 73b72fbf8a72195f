import Mathlib.Data.List.Induction
import ServiceHost.Proofs.Graph.Origins

/-!
# One component for each key

Whatever is requested of a graph, in whatever order, and whatever the constructors do, fail, panic,
register more or resolve keys in their turn, each key has one component for good: what its
constructor returned, once, or the value that was registered. A construction is told by what is seen
of finding the inputs and of running the constructor (`build_finds`), and since its cache is locked
and empty all the while, the constructor that returns is the first to do so. The deeds of every
chronicle are therefore coherent (`Chronicle.accounted`), and what this says of each key is
`one_component_per_key`.
-/

namespace ServiceHost

variable {σ ι : Type}

/-- What is seen of a call that finds the component of a key is told, and it finds that one. -/
structure Workshop.Finds (w : Workshop σ ι) (key : Key) (seen : List (Deed σ ι))
    (r : Outcome GraphError (Instance ι) × Workshop σ ι) : Prop where
  told : w.Told seen r.2
  found : ∀ item, r.1 = .ok item → r.2.graph.item? key = some item

namespace Workshop.Finds

variable {w : Workshop σ ι} {key : Key}

/-- A call that fails finds no component. -/
theorem failed {seen : List (Deed σ ι)} {w' : Workshop σ ι} (h : w.Told seen w') (e : GraphError) :
    w.Finds key seen (.error e, w') :=
  ⟨h, nofun⟩

/-- Nor does a call that does not return. -/
theorem interrupted {seen : List (Deed σ ι)} {w' : Workshop σ ι} (h : w.Told seen w')
    (why : Interruption) : w.Finds key seen (.interrupted why, w') :=
  ⟨h, nofun⟩

/-- A component that is there is handed out. -/
theorem there {item : Instance ι} (h : w.graph.item? key = some item) :
    w.Finds key [] (.ok item, w) := by
  refine ⟨.same rfl, ?_⟩
  rintro _ ⟨⟩
  exact h

end Workshop.Finds

/-! ## Constructors -/

/-- A request that a constructor makes is told if it is to the graph at work, and does not concern
it otherwise. -/
theorem Workshop.Told.consult {α : Type} {f : Workshop σ ι → α × Workshop σ ι}
    {seen : List (Deed σ ι)} {w : Workshop σ ι} (h : w.Told seen (f w).2) :
    w.Told (w.own seen) (w.consult f).2 := by
  unfold Workshop.own Workshop.consult
  cases w.beside with
  | none => exact h
  | some graph => exact .same rfl

/-- A key that is resolved is handed out once its component is there. -/
theorem Workshop.Finds.resolved {w w' : Workshop σ ι} {key : Key} {item : Instance ι}
    {seen : List (Deed σ ι)} (h : w.Finds key seen (.ok item, w')) :
    w.Told (seen ++ [.resolved key item]) w' := by
  refine h.told.and_then (.deed w' w'.world rfl nofun ?_)
  intro pair hpair
  rw [List.mem_singleton.1 hpair]
  exact h.found item rfl

/-- What is seen of a constructor is told if what is seen of resolving each key is. -/
theorem Program.told {resolve : Resolver σ ι} {seen : Witness σ ι}
    (hresolve : ∀ key (w : Workshop σ ι), w.Finds key (seen key w) (resolve key w))
    (p : Program σ ι) (w : Workshop σ ι) :
    w.Told (p.trace Deed.of resolve seen w) (p.run resolve w).2 := by
  induction p generalizing w with
  | finish result => cases result <;> exact .same rfl
  | panic text => exact .same rfl
  | read next ih => exact ih w.world w
  | write world next ih =>
    have hwrite : w.Told [] { w with world } := .same rfl
    exact hwrite.and_then (ih _)
  | isCached key next ih => exact ih _ w
  | resolve key next ih =>
    have hfinds := hresolve key w
    unfold Program.trace Program.run Workshop.consult Workshop.own
    cases w.beside with
    | none =>
      simp only
      generalize resolve key w = r at hfinds
      obtain ⟨outcome, w₁⟩ := r
      cases outcome with
      | ok item => exact hfinds.resolved.and_then (ih _ w₁)
      | error e => exact hfinds.told.and_then (ih _ w₁)
      | interrupted why => exact hfinds.told
    | some graph =>
      simp only
      generalize resolve key ⟨graph, none, w.world⟩ = r
      obtain ⟨outcome, w₁⟩ := r
      have hother : w.Told [] ⟨w.graph, some w₁.graph, w₁.world⟩ := .same rfl
      cases outcome with
      | ok item => exact hother.and_then (ih _ _)
      | error e => exact hother.and_then (ih _ _)
      | interrupted why => exact hother
  | supply key value next ih =>
    have hfirst := (Workshop.Told.supply w key value).consult
      (f := fun w => w.register key (.ofValue key value))
    exact hfirst.and_then (ih _ _)
  | provide key inputs construct next _ ih =>
    have hfirst := (Workshop.Told.provide w key inputs construct).consult
      (f := fun w => w.register key (.ofRecipe inputs construct))
    exact hfirst.and_then (ih _ _)

/-! ## Constructions -/

section
variable {find : Key → Node σ ι → Workshop σ ι → Outcome GraphError (Instance ι) × Workshop σ ι}
  {seen : Key → Node σ ι → Workshop σ ι → List (Deed σ ι)}

/-- A check is told, and changes nothing. -/
theorem Workshop.Told.checked (w : Workshop σ ι) (key : Key) : w.Told [.checked key w.graph] w :=
  .deed w w.world rfl nofun nofun

/-- What is seen of finding the components of inputs is told, and all of them are found. -/
theorem gather_told (owner : Key)
    (hfind : ∀ key node (w : Workshop σ ι), w.graph.node? key = some node →
      w.Finds key (seen key node w) (find key node w)) (inputs : Inputs) (w : Workshop σ ι) :
    w.Told (gatherTrace find seen inputs w) (gather owner find inputs w).2 ∧
      ∀ entries : Entries ι, (gather owner find inputs w).1 = .ok entries →
        ∀ pair ∈ entries.items,
          (gather owner find inputs w).2.graph.item? pair.1 = some pair.2 := by
  induction inputs generalizing w with
  | nil =>
    refine ⟨.same rfl, ?_⟩
    rintro _ ⟨⟩ pair hpair
    cases hpair
  | cons p rest ih =>
    unfold gatherTrace gather
    cases hnode : w.graph.node? p.key with
    | none =>
      cases p.optional with
      | false => exact ⟨.same rfl, by rintro _ ⟨⟩⟩
      | true =>
        have hrest := ih w
        simp only [if_true]
        generalize gather owner find rest w = r at hrest
        obtain ⟨outcome, w₁⟩ := r
        cases outcome with
        | error => exact ⟨hrest.1, by rintro _ ⟨⟩⟩
        | interrupted => exact ⟨hrest.1, by rintro _ ⟨⟩⟩
        | ok entries =>
          refine ⟨hrest.1, ?_⟩
          rintro _ ⟨⟩
          exact hrest.2 entries rfl
    | some node =>
      have hfirst := hfind p.key node w hnode
      simp only
      generalize find p.key node w = r at hfirst
      obtain ⟨outcome, w₁⟩ := r
      cases outcome with
      | error => exact ⟨hfirst.told, by rintro _ ⟨⟩⟩
      | interrupted => exact ⟨hfirst.told, by rintro _ ⟨⟩⟩
      | ok item =>
        have hrest := ih w₁
        simp only
        generalize gather owner find rest w₁ = r at hrest
        obtain ⟨outcome, w₂⟩ := r
        have htold := hfirst.told.and_then hrest.1
        cases outcome with
        | error => exact ⟨htold, by rintro _ ⟨⟩⟩
        | interrupted => exact ⟨htold, by rintro _ ⟨⟩⟩
        | ok entries =>
          refine ⟨htold, ?_⟩
          rintro _ ⟨⟩ pair hpair
          rcases List.mem_cons.1 hpair with rfl | hpair
          · exact hrest.1.kept _ _ (hfirst.found item rfl)
          · exact hrest.2 entries rfl pair hpair

/-- A key that is resolved is handed out if it is there, and built otherwise. -/
theorem resolveWith_finds
    (hbuild : ∀ key node (w : Workshop σ ι), w.graph.node? key = some node →
      w.Finds key (seen key node w) (find key node w)) (key : Key) (w : Workshop σ ι) :
    w.Finds key (resolveTrace Deed.of seen key w) (resolveWith find key w) := by
  unfold resolveTrace resolveWith
  cases hnode : w.graph.node? key with
  | none => exact .failed (.same rfl) _
  | some node =>
    simp only
    cases havailable : node.available with
    | some item =>
      refine .there ?_
      rw [Graph.item?_of_node? hnode]
      exact Node.item?_of_available havailable
    | none =>
      have hchecked := Workshop.Told.checked w key
      simp only
      cases w.graph.verify key node with
      | error e => exact .failed hchecked e
      | ok =>
        have hfinds := hbuild key node w hnode
        exact ⟨hchecked.and_then hfinds.told, hfinds.found⟩

end

/-- A constructor has come to an end while the cache of its key was locked. -/
theorem Workshop.Told.construct {w : Workshop σ ι} {key : Key} {inputs : Inputs}
    {construct : Args ι → Program σ ι} {cache : Cache ι} {seen : List (Deed σ ι)}
    {r : Outcome Failure ι × Workshop σ ι}
    (h : Workshop.Told { w with graph := w.graph.lock key } seen r.2)
    (hnode : w.graph.node? key = some (.recipe inputs construct cache))
    (hlocked : cache.locked = false) (hmade : cache.made = none) :
    w.Finds key (seen ++ constructedDeeds key r) (constructed key r) := by
  obtain ⟨outcome, w'⟩ := r
  cases outcome with
  | error failure =>
    show w.Finds key (seen ++ []) _
    rw [List.append_nil]
    exact .failed (h.giveUp hnode hlocked none) _
  | interrupted why =>
    show w.Finds key (seen ++ []) _
    rw [List.append_nil]
    exact .interrupted (h.giveUp hnode hlocked (some why)) why
  | ok value =>
    refine ⟨h.store hnode hlocked hmade ⟨key.type, value⟩, ?_⟩
    rintro _ ⟨⟩
    have hbusy := h.busy key (Workshop.Told.busy_lock hnode hmade)
    exact (Graph.item?_store hbusy key).trans (if_pos rfl)

/-- A component is built while its cache is locked, and is the first its constructor returned. -/
theorem build_finds (note : Notice → σ → σ) (depth : Nat) (path : List Key) (key : Key)
    (node : Node σ ι) (w : Workshop σ ι) (hnode : w.graph.node? key = some node) :
    w.Finds key (buildTrace Deed.of note depth path key node w)
      (build note depth path key node w) := by
  induction depth generalizing path key node w with
  | zero =>
    cases node with
    | value item => exact .there (Graph.item?_of_node? hnode)
    | recipe => exact .interrupted (.same rfl) _
  | succ depth ih =>
    cases node with
    | value item => exact .there (Graph.item?_of_node? hnode)
    | recipe inputs construct cache =>
      unfold buildTrace build
      by_cases hpath : key ∈ path
      · rw [if_pos hpath, if_pos (.inl hpath)]
        exact .failed (.same rfl) _
      cases hlocked : cache.locked with
      | true =>
        rw [if_neg hpath, if_pos rfl, if_pos (.inr (.inl rfl))]
        exact .interrupted (.same rfl) _
      | false =>
      cases hmade : cache.made with
      | some item =>
        rw [if_neg hpath, if_neg Bool.false_ne_true, if_pos (.inr (.inr rfl))]
        exact .there ((Graph.item?_of_node? hnode).trans hmade)
      | none =>
        rw [if_neg hpath, if_neg Bool.false_ne_true, if_neg (by simp [hpath])]
        have hgather := gather_told key (fun k node w' hk => ih (path ++ [key]) k node w' hk) inputs
          { w with graph := w.graph.lock key }
        simp only
        generalize gather key (build note depth (path ++ [key])) inputs
          { w with graph := w.graph.lock key } = r at hgather
        obtain ⟨outcome, w₁⟩ := r
        cases outcome with
        | error e =>
          rw [List.append_nil]
          exact .failed (hgather.1.giveUp hnode hlocked none) e
        | interrupted why =>
          rw [List.append_nil]
          exact .interrupted (hgather.1.giveUp hnode hlocked (some why)) why
        | ok entries =>
          have hbusy := hgather.1.busy key (Workshop.Told.busy_lock hnode hmade)
          have hcall : w₁.Told [.called key entries]
              { w₁ with world := note (.constructing key) w₁.world } := by
            refine .deed w₁ _ rfl ?_ (hgather.2 entries rfl)
            rintro _ ⟨⟩
            exact hbusy.item?
          have hrun := Program.told (resolveWith_finds (ih [])) (construct ⟨key, entries⟩)
            { w₁ with world := note (.constructing key) w₁.world }
          have hdone := (hgather.1.and_then (hcall.and_then hrun)).construct hnode hlocked hmade
          simp only [List.append_assoc, List.singleton_append] at hdone
          exact hdone

/-! ## Requests -/

/-- An invocation finds the component of an input as it is resolved. -/
theorem fetch_finds (note : Notice → σ → σ) (depth : Nat) (owner key : Key) (node : Node σ ι)
    (w : Workshop σ ι) (hnode : w.graph.node? key = some node) :
    w.Finds key (fetchTrace Deed.of note depth owner key node w)
      (fetch note depth owner key node w) := by
  have hchecked := Workshop.Told.checked w key
  unfold fetchTrace fetch
  cases w.graph.verify key node with
  | error e => exact .failed hchecked e
  | ok =>
    have hfinds := build_finds note depth [owner] key node w hnode
    exact ⟨hchecked.and_then hfinds.told, hfinds.found⟩

/-- What is seen of resolving a key is told. -/
theorem resolveWithin_finds (note : Notice → σ → σ) (depth : Nat) (key : Key)
    (w : Workshop σ ι) :
    w.Finds key (resolveWithinDeeds note depth key w) (resolveWithin note depth key w) :=
  resolveWith_finds (build_finds note depth []) key w

/-- What is seen of an invocation is told. -/
theorem invoke_told (note : Notice → σ → σ) (depth : Nat) (name : String) (inputs : Inputs)
    (function : Args ι → Program σ ι) (w : Workshop σ ι) :
    w.Told (invokeDeeds note depth name inputs function w)
      (invokeWithin note depth name inputs function w).2 := by
  have hgather := gather_told (invocationKey name)
    (fetch_finds note depth (invocationKey name)) inputs w
  rw [invokeWithin_eq, invokeDeeds, invokeTrace]
  generalize gather (invocationKey name) (fetch note depth (invocationKey name)) inputs w = r
    at hgather
  obtain ⟨outcome, w₁⟩ := r
  cases outcome with
  | error e =>
    rw [List.append_nil]
    exact hgather.1
  | interrupted why =>
    rw [List.append_nil]
    exact hgather.1
  | ok entries =>
    have hcall : w₁.Told [.invoked (invocationKey name) entries]
        { w₁ with world := note (.invoking (invocationKey name)) w₁.world } :=
      .deed w₁ _ rfl nofun (hgather.2 entries rfl)
    have hrun := Program.told (resolveWithin_finds note depth)
      (function ⟨invocationKey name, entries⟩)
      { w₁ with world := note (.invoking (invocationKey name)) w₁.world }
    have htold := hgather.1.and_then (hcall.and_then hrun)
    simp only
    generalize (function ⟨invocationKey name, entries⟩).run (resolveWithin note depth)
      { w₁ with world := note (.invoking (invocationKey name)) w₁.world } = r at htold
    obtain ⟨outcome, w₂⟩ := r
    cases outcome <;> exact htold

/-- What is seen of a request is told. -/
theorem Request.told (note : Notice → σ → σ) (request : Request σ ι) (w : Workshop σ ι) :
    w.Told (request.deeds note w) (request.reply note w).2 := by
  cases request with
  | live world => exact .same rfl
  | supply key value => exact .supply w key value
  | provide key inputs construct => exact .provide w key inputs construct
  | resolve depth key =>
    have hfinds := resolveWithin_finds note depth key w
    simp only [Request.deeds, Request.trace, Request.reply]
    generalize resolveWithin note depth key w = r at hfinds
    obtain ⟨outcome, w₁⟩ := r
    cases outcome with
    | ok item => exact hfinds.resolved
    | error e =>
      rw [List.append_nil]
      exact hfinds.told
    | interrupted why =>
      rw [List.append_nil]
      exact hfinds.told
  | invoke depth name inputs function => exact invoke_told note depth name inputs function w

namespace Chronicle

variable (note : Notice → σ → σ) (world : σ)

theorem of_concat (requests : List (Request σ ι)) (request : Request σ ι) :
    of note world (requests ++ [request]) = (of note world requests).next note request := by
  unfold of
  rw [List.foldl_append]
  rfl

/-- What was seen of a graph accounts for all that is in it. -/
theorem accounted (requests : List (Request σ ι)) :
    (of note world requests).workshop.graph.AccountedBy (of note world requests).deeds := by
  induction requests using List.reverseRecOn with
  | nil =>
    refine ⟨.nil, fun key item => ?_⟩
    constructor
    · nofun
    · rintro ⟨⟩
  | append_singleton requests request ih =>
    rw [of_concat]
    exact (request.told note (of note world requests).workshop).account _ ih

/-- There is one answer to each request. -/
theorem replies_length (requests : List (Request σ ι)) :
    (of note world requests).replies.length = requests.length := by
  induction requests using List.reverseRecOn with
  | nil => rfl
  | append_singleton requests request ih =>
    rw [of_concat, List.length_append, ← ih]
    exact List.length_append

/-- The component that answers a request for its key is handed out. -/
theorem handed_of_reply {requests : List (Request σ ι)} {n depth : Nat} {key : Key}
    {item : Instance ι} (hrequest : requests[n]? = some (.resolve depth key))
    (hreply : (of note world requests).replies[n]? = some (.resolved (.ok item))) :
    .resolved key item ∈ (of note world requests).deeds := by
  induction requests using List.reverseRecOn with
  | nil => cases hrequest
  | append_singleton requests request ih =>
    have hlength := replies_length note world requests
    rw [of_concat] at hreply ⊢
    simp only [next, List.mem_append] at hreply ⊢
    by_cases hn : n < requests.length
    · rw [List.getElem?_append_left hn] at hrequest
      rw [List.getElem?_append_left (hlength ▸ hn)] at hreply
      exact .inl (ih hrequest hreply)
    · rw [List.getElem?_append_right (Nat.le_of_not_lt hn)] at hrequest
      rw [List.getElem?_append_right (hlength ▸ Nat.le_of_not_lt hn), hlength] at hreply
      rw [List.getElem?_singleton] at hrequest hreply
      split at hrequest
      · next hlast =>
        rw [if_pos hlast] at hreply
        cases hrequest
        have hok : (resolveWithin note depth key (of note world requests).workshop).1 = .ok item :=
          (Reply.resolved.inj (Option.some.inj hreply))
        refine .inr (List.mem_append_right _ ?_)
        rw [hok]
        exact List.mem_singleton.2 rfl
      · cases hrequest

end Chronicle

/-! ## The component of a key -/

/-- In all that is seen of a graph, the key has one component. -/
structure OneComponent (deeds : List (Deed σ ι)) (key : Key) : Prop where
  /-- Once its constructor has returned, it is neither called again nor does it return again. -/
  once : ∀ before item after, deeds = before ++ .made key item :: after →
    (∀ entries, .called key entries ∉ after) ∧ ∀ item', .made key item' ∉ before ++ after
  /-- What is handed out has been made or registered before. -/
  origin : ∀ before deed after item, deeds = before ++ deed :: after → (key, item) ∈ deed.handed →
    .made key item ∈ before ∨ .supplied key item ∈ before
  /-- What is handed out is always the same. -/
  same : ∀ deed ∈ deeds, ∀ deed' ∈ deeds, ∀ item item', (key, item) ∈ deed.handed →
    (key, item') ∈ deed'.handed → item = item'
  /-- It is the value that was registered, if one was. -/
  supplied : ∀ item, .supplied key item ∈ deeds → ∀ deed ∈ deeds, ∀ item',
    (key, item') ∈ deed.handed → item' = item

/-- Everything that comes about under a key is the component that is there in the end. -/
theorem Graph.AccountedBy.item?_of_mem {g : Graph σ ι} {deeds before after : List (Deed σ ι)}
    {pair : Key × Instance ι} (h : g.AccountedBy deeds) (hdeeds : deeds = before ++ after)
    (hpair : pair ∈ origins before) : g.item? pair.1 = some pair.2 := by
  refine (h.origin _ _).1 ?_
  rw [hdeeds, origins_append]
  exact List.mem_append_left _ hpair

theorem Graph.AccountedBy.item?_of_handed {g : Graph σ ι} {deeds : List (Deed σ ι)}
    {deed : Deed σ ι} {pair : Key × Instance ι} (h : g.AccountedBy deeds) (hdeed : deed ∈ deeds)
    (hpair : pair ∈ deed.handed) : g.item? pair.1 = some pair.2 := by
  obtain ⟨before, after, hdeeds⟩ := List.append_of_mem hdeed
  exact h.item?_of_mem hdeeds ((h.coherent.follows hdeeds).handed pair hpair)

/-- A component comes about by its constructor or as a value. -/
theorem mem_origins {deeds : List (Deed σ ι)} {key : Key} {item : Instance ι} :
    (key, item) ∈ origins deeds ↔ .made key item ∈ deeds ∨ .supplied key item ∈ deeds := by
  unfold origins
  rw [List.mem_filterMap]
  constructor
  · rintro ⟨deed, hdeed, horigin⟩
    cases deed <;> cases horigin
    · exact .inr hdeed
    · exact .inl hdeed
  · rintro (hdeed | hdeed) <;> exact ⟨_, hdeed, rfl⟩

/-- Deeds that account for a graph give each key one component. -/
theorem Graph.AccountedBy.oneComponent {g : Graph σ ι} {deeds : List (Deed σ ι)}
    (h : g.AccountedBy deeds) (key : Key) : OneComponent deeds key where
  once before item after hdeeds := by
    -- a claim of the key after it was made would follow deeds that brought it about
    have hlater : ∀ deed ∈ after, deed.claim? ≠ some key := by
      intro deed hdeed hclaim
      obtain ⟨mid, rest, rfl⟩ := List.append_of_mem hdeed
      have hsplit : deeds = (before ++ .made key item :: mid) ++ deed :: rest := by simpa
      exact (h.coherent.follows hsplit).fresh key hclaim item (mem_origins.2 (.inl (by simp)))
    refine ⟨fun entries hcalled => hlater _ hcalled rfl, fun item' hmade => ?_⟩
    rcases List.mem_append.1 hmade with hbefore | hafter
    · have hfollows := h.coherent.follows hdeeds
      exact hfollows.fresh key rfl item' (mem_origins.2 (.inl hbefore))
    · exact hlater _ hafter rfl
  origin before deed after item hdeeds hitem :=
    mem_origins.1 ((h.coherent.follows hdeeds).handed _ hitem)
  same deed hdeed deed' hdeed' item item' hitem hitem' :=
    Option.some.inj ((h.item?_of_handed hdeed hitem).symm.trans (h.item?_of_handed hdeed' hitem'))
  supplied item hsupplied deed hdeed item' hitem := by
    have hthere := (h.origin key item).1 (mem_origins.2 (.inr hsupplied))
    exact Option.some.inj ((h.item?_of_handed hdeed hitem).symm.trans hthere)

/-- A key resolved as a component of its type is resolved, and what is found is handed out. -/
theorem resolveTyped_handed (note : Notice → σ → σ) (depth : Nat) (key : Key) (w : Workshop σ ι) :
    (resolveTyped (resolveWithin note depth) key w).2 =
        ((Request.resolve depth key).reply note w).2 ∧
      ∀ value, (resolveTyped (resolveWithin note depth) key w).1 = .ok value →
        .resolved key ⟨key.type, value⟩ ∈ (Request.resolve depth key).deeds note w := by
  simp only [resolveTyped, Request.reply, Request.deeds, Request.trace]
  generalize resolveWithin note depth key w = r
  obtain ⟨outcome, w₁⟩ := r
  cases outcome with
  | error e => exact ⟨rfl, fun _ h => by cases h⟩
  | interrupted why => exact ⟨rfl, fun _ h => by cases h⟩
  | ok item =>
    simp only [Instance.as]
    split
    · next htype =>
      split at htype
      · next hsame =>
        cases htype
        refine ⟨rfl, ?_⟩
        rintro _ ⟨⟩
        rw [← hsame]
        exact List.mem_append_right _ (List.mem_singleton.2 rfl)
      · cases htype
    · exact ⟨rfl, fun _ h => by cases h⟩

/-- Whatever is requested of a graph, and whatever the constructors do, each key has one component.
Requests to resolve the key are answered with it, and so are those that ask for its type. -/
theorem one_component_per_key (note : Notice → σ → σ) (world : σ) (requests : List (Request σ ι))
    (key : Key) :
    let chronicle := Chronicle.of note world requests
    OneComponent chronicle.deeds key ∧
      (∀ (n depth : Nat) (item : Instance ι), requests[n]? = some (Request.resolve depth key) →
        chronicle.replies[n]? = some (Reply.resolved (.ok item)) →
          .resolved key item ∈ chronicle.deeds) ∧
      ∀ depth : Nat,
        let typed := resolveTyped (resolveWithin note depth) key chronicle.workshop
        let after := Chronicle.of note world (requests ++ [.resolve depth key])
        typed.2 = after.workshop ∧
          ∀ value, typed.1 = .ok value → .resolved key ⟨key.type, value⟩ ∈ after.deeds := by
  refine ⟨(Chronicle.accounted note world requests).oneComponent key, ?_, fun depth => ?_⟩
  · exact fun n depth item => Chronicle.handed_of_reply note world
  · have hhanded := resolveTyped_handed note depth key (Chronicle.of note world requests).workshop
    rw [Chronicle.of_concat]
    exact ⟨hhanded.1, fun value hok => List.mem_append_right _ (hhanded.2 value hok)⟩

/-- A server with a cache, both of which use one pool. The surroundings count the calls of
constructors. The pool panics at the first of them, and the cache, which asks for the clock while it
is made, fails at the third. -/
def retriedServer : List (Request Nat Nat) :=
  [ .supply (.of ⟨"Clock"⟩) 12,
    .provide (.of ⟨"Pool"⟩) [] fun _ =>
      .read fun calls => if calls = 1 then .panic "no connection" else .finish (.ok calls),
    .provide (.of ⟨"Cache"⟩) [.of "pool" ⟨"Pool"⟩] fun _ =>
      .resolve (.of ⟨"Clock"⟩) fun _ =>
        .read fun calls => .finish (if calls = 3 then .error ⟨"cold", []⟩ else .ok calls),
    .provide (.of ⟨"Server"⟩) [.of "pool" ⟨"Pool"⟩, .of "cache" ⟨"Cache"⟩] fun _ =>
      .read fun calls => .finish (.ok calls),
    .resolve 5 (.of ⟨"Server"⟩),
    .resolve 5 (.of ⟨"Server"⟩),
    .resolve 5 (.of ⟨"Server"⟩),
    .resolve 5 (.of ⟨"Pool"⟩) ]

/-- The pool is called twice and returns once, and what it returned is handed out, at last to the
request for it. -/
theorem retriedServer_pool :
    let deeds := (Chronicle.of (fun _ calls => calls + 1) 0 retriedServer).deeds
    origins deeds = [(.of ⟨"Clock"⟩, ⟨⟨"Clock"⟩, 12⟩), (.of ⟨"Pool"⟩, ⟨⟨"Pool"⟩, 2⟩),
        (.of ⟨"Cache"⟩, ⟨⟨"Cache"⟩, 4⟩), (.of ⟨"Server"⟩, ⟨⟨"Server"⟩, 5⟩)] ∧
      (deeds.filterMap Deed.claim?).count (.of ⟨"Pool"⟩) = 3 ∧
      .resolved (.of ⟨"Pool"⟩) ⟨⟨"Pool"⟩, 2⟩ ∈ deeds ∧
      OneComponent deeds (.of ⟨"Pool"⟩) := by
  obtain ⟨hone, hreplies, -⟩ := one_component_per_key (fun _ calls => calls + 1) 0 retriedServer
    (.of ⟨"Pool"⟩)
  exact ⟨by decide, by decide, hreplies 7 5 _ rfl rfl, hone⟩

end ServiceHost
