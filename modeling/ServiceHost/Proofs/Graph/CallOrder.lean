import ServiceHost.Proofs.Graph.Agreement
import ServiceHost.Proofs.Graph.Postorder
import ServiceHost.Proofs.Graph.Retry

/-!
# In which order constructors are called

A construction goes along the list of what is to be made (`Graph.Postorder`) and calls one
constructor after another. What it has made when it comes back is the whole list, or the part of it
before the constructor that failed or panicked (`Follows`): each of the calls below a component adds
its part of the list behind what was made before (`Follows.behind`), and one that fails leaves out
the rest (`Halted.ahead`). So the calls of a resolution, what they leave in the caches, the error
that comes out and what is called when it is tried again can be read off the list
(`called_in_postorder`).
-/

namespace ServiceHost

variable {σ ι : Type} {note : Notice → σ → σ} {depth : Nat} {w : Workshop σ ι}

/-- The keys whose constructors are called, in their order. -/
def called (seen : List (Deed σ ι)) : List Key :=
  (calls seen).map Prod.fst

theorem called_append (seen more : List (Deed σ ι)) :
    called (seen ++ more) = called seen ++ called more := by
  rw [called, calls_append, List.map_append, called, called]

/-- A program that makes no requests does nothing that is seen. -/
theorem Program.Detached.deeds {p : Program σ ι} (h : p.Detached) (resolve : Resolver σ ι)
    (seen : Witness σ ι) (w : Workshop σ ι) : p.trace Deed.of resolve seen w = [] := by
  induction h generalizing w with
  | finish => rfl
  | panic => rfl
  | read _ ih => exact ih w.world w
  | write world _ ih => exact ih { w with world }

/-- The constructor of the key, called with these inputs, comes to this end and leaves these
surroundings. -/
def Graph.Ended (g : Graph σ ι) (note : Notice → σ → σ) (key : Key) (entries : Entries ι)
    (outcome : Outcome Failure ι) (world : σ) : Prop :=
  ∃ inputs construct cache, g.node? key = some (.recipe inputs construct cache) ∧
    ∃ (resolve : Resolver σ ι) (w : Workshop σ ι),
      let r := (construct ⟨key, entries⟩).run resolve
        { w with world := note (.constructing key) w.world }
      r.1 = outcome ∧ r.2.world = world

/-- A constructor that was called has returned a component. -/
def Graph.Returned (g : Graph σ ι) (note : Notice → σ → σ) (call : Key × Entries ι) : Prop :=
  ∃ value world, g.Ended note call.1 call.2 (.ok value) world

/-- Of the components of `more`, which are to be made after those of `made`, the first ones are made
and no others, for the constructor of the next one is called and comes to this end. -/
structure Halted (note : Notice → σ → σ) (g : Graph σ ι) (made more : List Key) (last : Key)
    (outcome : Outcome Failure ι) (seen : List (Deed σ ι)) (w : Workshop σ ι) : Prop where
  split : ∃ before after, more = before ++ last :: after ∧ called seen = before ++ [last] ∧
    g.MadeSince (made ++ before) w.graph
  ended : ∃ earlier entries, calls seen = earlier ++ [(last, entries)] ∧
    (∀ call ∈ earlier, g.Returned note call) ∧ g.Ended note last entries outcome w.world

/-- A call that is to make the components of `more` after those of `made` calls their constructors
in that order, and comes to the end if none of them fails or panics. -/
inductive Follows (note : Notice → σ → σ) (g : Graph σ ι) (made more : List Key) {α : Type} :
    Outcome GraphError α → List (Deed σ ι) → Workshop σ ι → Prop
  | whole {value : α} {seen : List (Deed σ ι)} {w : Workshop σ ι} (hcalled : called seen = more)
      (hreturned : ∀ call ∈ calls seen, g.Returned note call)
      (hmade : g.MadeSince (made ++ more) w.graph) : Follows note g made more (.ok value) seen w
  | failed {last : Key} {failure : Failure} {seen : List (Deed σ ι)} {w : Workshop σ ι}
      (h : Halted note g made more last (.error failure) seen w) :
      Follows note g made more (.error (.constructor last failure)) seen w
  | panicked {last : Key} {text : String} {seen : List (Deed σ ι)} {w : Workshop σ ι}
      (h : Halted note g made more last (.interrupted (.panic text)) seen w) :
      Follows note g made more (.interrupted (.panic text)) seen w

section
variable {g : Graph σ ι} {made first more rest : List Key} {key last : Key}
  {outcome : Outcome Failure ι} {seen before : List (Deed σ ι)}

namespace Halted

/-- After other constructors were called. -/
theorem behind (h : Halted note g (made ++ first) more last outcome seen w)
    (hbefore : called before = first) (hreturned : ∀ call ∈ calls before, g.Returned note call) :
    Halted note g made (first ++ more) last outcome (before ++ seen) w where
  split := by
    obtain ⟨before, after, rfl, hcalled, hmade⟩ := h.split
    refine ⟨first ++ before, after, (List.append_assoc ..).symm, ?_, ?_⟩
    · rw [called_append, hbefore, hcalled, List.append_assoc]
    · rwa [← List.append_assoc]
  ended := by
    obtain ⟨earlier, entries, hcalls, hearlier, hended⟩ := h.ended
    refine ⟨calls before ++ earlier, entries, ?_, List.forall_mem_append.2 ⟨hreturned, hearlier⟩,
      hended⟩
    rw [calls_append, hcalls, List.append_assoc]

/-- Others were to be made afterwards. -/
theorem ahead (h : Halted note g made more last outcome seen w) (rest : List Key) :
    Halted note g made (more ++ rest) last outcome seen w where
  split := by
    obtain ⟨before, after, rfl, hcalled, hmade⟩ := h.split
    exact ⟨before, after ++ rest, by rw [List.append_assoc, List.cons_append], hcalled, hmade⟩
  ended := h.ended

/-- The lock of another component is given back. -/
theorem giveUp (h : Halted note g made more last outcome seen w) (key : Key)
    (why : Option Interruption) :
    Halted note g made more last outcome seen (w.giveUp key why) := by
  obtain ⟨before, after, hmore, hcalled, hmade⟩ := h.split
  match why with
  | none => exact ⟨⟨before, after, hmore, hcalled, hmade.mapCache fun _ => rfl⟩, h.ended⟩
  | some (.panic _) => exact ⟨⟨before, after, hmore, hcalled, hmade.mapCache fun _ => rfl⟩, h.ended⟩
  | some (.deadlock _) => exact h
  | some .tooDeep => exact h

end Halted

namespace Follows

variable {α β : Type} {e : GraphError} {why : Interruption}

/-- After other constructors were called. -/
theorem behind {outcome : Outcome GraphError α}
    (h : Follows note g (made ++ first) more outcome seen w) (hbefore : called before = first)
    (hreturned : ∀ call ∈ calls before, g.Returned note call) :
    Follows note g made (first ++ more) outcome (before ++ seen) w := by
  cases h with
  | whole hcalled hreturned' hmade =>
    refine .whole ?_ ?_ (by rwa [← List.append_assoc])
    · rw [called_append, hbefore, hcalled]
    · rw [calls_append]
      exact List.forall_mem_append.2 ⟨hreturned, hreturned'⟩
  | failed h => exact .failed (h.behind hbefore hreturned)
  | panicked h => exact .panicked (h.behind hbefore hreturned)

/-- A call that fails leaves out what was to be made afterwards. -/
theorem error (h : Follows note g made more (.error e : Outcome GraphError α) seen w)
    (rest : List Key) :
    Follows note g made (more ++ rest) (.error e : Outcome GraphError β) seen w := by
  cases h with
  | failed h => exact .failed (h.ahead rest)

/-- So does a call that does not return. -/
theorem interrupted
    (h : Follows note g made more (.interrupted why : Outcome GraphError α) seen w)
    (rest : List Key) :
    Follows note g made (more ++ rest) (.interrupted why : Outcome GraphError β) seen w := by
  cases h with
  | panicked h => exact .panicked (h.ahead rest)

/-- A component that is there is handed out. -/
theorem there {item : Instance ι} {value : α} (hmade : g.MadeSince made w.graph)
    (hitem : w.graph.item? key = some item) (hlisted : g.Listed made [key] (made ++ more)) :
    Follows note g made more (.ok value) [] w := by
  obtain rfl : more = [] := by
    refine hlisted.eq_nil_of_there fun hpending => Classical.not_not.1 fun hnew => ?_
    cases hitem.symm.trans ((hmade.made_iff key hpending).2 hnew)
  exact .whole rfl nofun (by rwa [List.append_nil])

end Follows

theorem Outcome.Clean.error {α β : Type} {e : GraphError}
    (h : (.error e : Outcome GraphError α).Clean) : (.error e : Outcome GraphError β).Clean := by
  cases h
  exact .failed _ _

theorem Outcome.Clean.interrupted {α β : Type} {why : Interruption}
    (h : (.interrupted why : Outcome GraphError α).Clean) :
    (.interrupted why : Outcome GraphError β).Clean := by
  cases h
  exact .panicked _

/-- Components of inputs are made one after another. -/
theorem gather_follows (owner : Key)
    {find : Key → Node σ ι → Workshop σ ι → Outcome GraphError (Instance ι) × Workshop σ ι}
    {seen : Key → Node σ ι → Workshop σ ι → List (Deed σ ι)}
    (hfind : ∀ key node made more w, g.MadeSince made w.graph → w.graph.node? key = some node →
      g.Listed made [key] (made ++ more) → (find key node w).1.Clean →
      Follows note g made more (find key node w).1 (seen key node w) (find key node w).2)
    {inputs : Inputs} (hmade : g.MadeSince made w.graph)
    (hlisted : g.Listed made (inputs.map (·.key)) (made ++ more))
    (hclean : (gather owner find inputs w).1.Clean) :
    Follows note g made more (gather owner find inputs w).1 (gatherTrace find seen inputs w)
      (gather owner find inputs w).2 := by
  induction inputs generalizing w made more with
  | nil =>
    obtain rfl : more = [] := List.append_right_eq_self.1 (hlisted.unique (.nil made))
    exact .whole rfl nofun (by rwa [List.append_nil])
  | cons p inputs ih =>
    obtain ⟨mid, hfirst, hrest⟩ := Graph.Listed.cons_iff.1 hlisted
    obtain ⟨first, rfl, -⟩ := hfirst.adds
    obtain ⟨rest, hmore, -⟩ := hrest.adds
    obtain rfl := List.append_cancel_left (hmore.trans (List.append_assoc ..))
    rw [← List.append_assoc] at hrest
    unfold gather at hclean ⊢
    unfold gatherTrace
    cases hnode : w.graph.node? p.key with
    | none =>
      -- nothing is registered under the key, so nothing is to be made for this input
      obtain rfl : first = [] := by
        refine hfirst.eq_nil_of_there ?_
        rintro ⟨_, _, _, hsome, _⟩
        cases hsome.symm.trans ((hmade.later.none _).1 hnode)
      rw [List.append_nil] at hrest
      simp only [hnode] at hclean ⊢
      cases hoptional : p.optional with
      | false =>
        rw [hoptional] at hclean
        cases hclean
      | true =>
        simp only [hoptional, if_true] at hclean ⊢
        have hrest := @ih w made rest hmade hrest
        generalize gather owner find inputs w = r at hclean hrest
        obtain ⟨outcome, w₁⟩ := r
        cases outcome with
        | ok entries =>
          cases hrest (.ok entries) with
          | whole hcalled hreturned hmade => exact .whole hcalled hreturned hmade
        | error e => simpa using (hrest hclean.error).error []
        | interrupted why => simpa using (hrest hclean.interrupted).interrupted []
    | some node =>
      have hfirst := hfind p.key node made first w hmade hnode hfirst
      simp only [hnode] at hclean ⊢
      generalize find p.key node w = r at hclean hfirst
      obtain ⟨outcome, w₁⟩ := r
      cases outcome with
      | error e => exact (hfirst hclean.error).error rest
      | interrupted why => exact (hfirst hclean.interrupted).interrupted rest
      | ok item =>
        cases hfirst (.ok item) with
        | whole hcalled hreturned hmade =>
        have hrest := @ih w₁ (made ++ first) rest hmade hrest
        simp only at hclean ⊢
        generalize gather owner find inputs w₁ = r at hclean hrest
        obtain ⟨outcome, w₂⟩ := r
        cases outcome with
        | ok entries =>
          cases (hrest (.ok entries)).behind hcalled hreturned with
          | whole hcalled hreturned hmade => exact .whole hcalled hreturned hmade
        | error e => simpa using ((hrest hclean.error).behind hcalled hreturned).error []
        | interrupted why =>
          simpa using ((hrest hclean.interrupted).behind hcalled hreturned).interrupted []

/-- When its inputs were made, the constructor of a component runs. -/
theorem constructed_follows {inputs : Inputs} {construct : Args ι → Program σ ι} {cache : Cache ι}
    {entries : Entries ι} {resolve : Resolver σ ι} (hdetached : (construct ⟨key, entries⟩).Detached)
    (hnode : g.node? key = some (.recipe inputs construct cache))
    (hmade : g.MadeSince (made ++ first) w.graph) (hbusy : w.graph.Busy key)
    (hcalled : called seen = first) (hreturned : ∀ call ∈ calls seen, g.Returned note call) :
    let r := (construct ⟨key, entries⟩).run resolve
      { w with world := note (.constructing key) w.world }
    Follows note g made (first ++ [key]) (constructed key r).1
      (seen ++ .called key entries :: constructedDeeds key r) (constructed key r).2 := by
  intro r
  have hended : g.Ended note key entries r.1 r.2.world :=
    ⟨inputs, construct, cache, hnode, resolve, w, rfl, rfl⟩
  obtain ⟨⟨world, hworld⟩, hwhy⟩ := hdetached.run resolve
    { w with world := note (.constructing key) w.world }
  change r.2 = { w with world } at hworld
  change r.1.interruption? = none ∨ ∃ text, r.1.interruption? = some (.panic text) at hwhy
  generalize r = r at hended hworld hwhy
  obtain ⟨outcome, w₁⟩ := r
  obtain rfl : w₁ = { w with world } := hworld
  have hcalls : called (seen ++ [.called key entries]) = first ++ [key] := by
    rw [called_append, hcalled]
    rfl
  have hhalted : Halted note g made (first ++ [key]) key outcome (seen ++ [.called key entries])
      { w with world } := by
    exact ⟨⟨first, [], rfl, hcalls, hmade⟩, calls seen, entries, calls_append .., hreturned, hended⟩
  cases outcome with
  | ok value =>
    refine .whole ?_ ?_ ?_
    · rw [← hcalls, called_append, called_append]
      rfl
    · rw [calls_append]
      exact List.forall_mem_append.2 ⟨hreturned, List.forall_mem_singleton.2 ⟨value, world, hended⟩⟩
    · rw [← List.append_assoc]
      exact hmade.store hbusy _
  | error failure => exact .failed (hhalted.giveUp key none)
  | interrupted why =>
    obtain hnone | ⟨text, hpanic⟩ := hwhy
    · cases hnone
    · cases hpanic
      exact .panicked (hhalted.giveUp key (some (.panic text)))

/-- A construction calls the constructors below it, and then its own. -/
theorem build_follows (hdetached : g.Detached) (depth : Nat) (path : List Key) {key : Key}
    {node : Node σ ι} (hmade : g.MadeSince made w.graph) (hnode : w.graph.node? key = some node)
    (hlisted : g.Listed made [key] (made ++ more))
    (hclean : (build note depth path key node w).1.Clean) :
    Follows note g made more (build note depth path key node w).1
      (buildTrace Deed.of note depth path key node w) (build note depth path key node w).2 := by
  induction depth generalizing path key node w made more with
  | zero =>
    cases node with
    | value item => exact .there hmade (Graph.item?_of_node? hnode) hlisted
    | recipe => cases hclean
  | succ depth ih =>
    cases node with
    | value item => exact .there hmade (Graph.item?_of_node? hnode) hlisted
    | recipe inputs construct cache =>
      unfold build at hclean ⊢
      unfold buildTrace
      by_cases hpath : key ∈ path
      · rw [if_pos hpath, circular] at hclean
        cases hclean
      rw [if_neg hpath] at hclean ⊢
      cases hlocked : cache.locked with
      | true =>
        rw [hlocked, if_pos rfl] at hclean
        cases hclean
      | false =>
      rw [hlocked] at hclean
      rw [if_neg Bool.false_ne_true] at hclean ⊢
      cases hitem : cache.made with
      | some item =>
        rw [if_pos (.inr (.inr rfl))]
        exact .there hmade ((Graph.item?_of_node? hnode).trans hitem) hlisted
      | none =>
      rw [if_neg (by simp [hpath])]
      have hunbuilt : w.graph.Unbuilt key inputs := ⟨construct, cache, hnode, hitem⟩
      obtain ⟨-, hnew⟩ := hmade.pending_iff.1 ⟨inputs, hunbuilt⟩
      obtain ⟨first, rfl, hinputs⟩ := hlisted.eq_concat (hmade.later.unbuilt_of hunbuilt) hnew
      obtain ⟨cache₀, hnode₀, -⟩ := hmade.later.recipe_of hnode
      have hgather := gather_follows key (w := { w with graph := w.graph.lock key })
        (fun k node made more w' hmade hk => ih (path ++ [key]) hmade hk)
        (hmade.mapCache fun _ => rfl) hinputs
      have hbusy := (gather_told key (fun k node w' hk =>
        build_finds note depth (path ++ [key]) k node w' hk) inputs
        { w with graph := w.graph.lock key }).1.busy key (Workshop.Told.busy_lock hnode hitem)
      simp only [hitem] at hclean ⊢
      generalize gather key (build note depth (path ++ [key])) inputs
        { w with graph := w.graph.lock key } = r at hclean hgather hbusy
      obtain ⟨outcome, w₁⟩ := r
      cases outcome with
      | error e =>
        rw [List.append_nil]
        cases hgather hclean.error with
        | failed h => exact .failed ((h.ahead [key]).giveUp key none)
      | interrupted why =>
        rw [List.append_nil]
        cases hgather hclean.interrupted with
        | @panicked _ text _ _ h =>
          exact .panicked ((h.ahead [key]).giveUp key (some (.panic text)))
      | ok entries =>
        cases hgather (.ok entries) with
        | whole hcalled hreturned hmade =>
        have hdetached' := hdetached key inputs construct cache₀ hnode₀ ⟨key, entries⟩
        simp only [hdetached'.deeds]
        exact constructed_follows hdetached' hnode₀ hmade hbusy hcalled hreturned

/-- The constructors that are called come first of those of the components that are to be made. -/
theorem Follows.called_prefix {α : Type} {outcome : Outcome GraphError α}
    (h : Follows note g made more outcome seen w) : called seen <+: more := by
  have hhalted {last : Key} {outcome : Outcome Failure ι}
      (h : Halted note g made more last outcome seen w) : called seen <+: more := by
    obtain ⟨before, after, rfl, hcalled, -⟩ := h.split
    exact ⟨after, by rw [hcalled, List.append_assoc, List.singleton_append]⟩
  cases h with
  | whole hcalled => exact hcalled ▸ List.prefix_refl _
  | failed h => exact hhalted h
  | panicked h => exact hhalted h

end

/-! ## Resolution -/

section
variable {key : Key} {node : Node σ ι} {order before after : List Key}

/-- A key that passes the check is resolved by making what it needs. -/
theorem resolve_follows (hidle : w.Idle) (hunmarked : w.graph.Unmarked)
    (hdepth : w.graph.size < depth) (hnode : w.graph.node? key = some node)
    (hverify : w.graph.verify key node = .ok ()) (horder : w.graph.Postorder key order) :
    Follows note w.graph [] order (resolveWithin note depth key w).1
      (resolveWithinDeeds note depth key w) (resolveWithin note depth key w).2 := by
  unfold resolveWithin resolveWith resolveWithinDeeds resolveWithinTrace resolveTrace
  have hmade := Graph.MadeSince.refl w.graph
  simp only [hnode]
  cases havailable : node.available with
  | some item =>
    have hitem : w.graph.item? key = some item := by
      rw [Graph.item?_of_node? hnode]
      exact Node.item?_of_available havailable
    exact .there hmade hitem horder
  | none =>
    simp only [hverify]
    have hclean : (build note depth [] key node w).1.Clean :=
      build_verified ⟨hidle.unlocked, hunmarked⟩ (.refl _) hidle hdepth hnode hverify hnode
    have hbuild : Follows note w.graph ([] ++ []) order _ _ _ :=
      build_follows hidle.detached depth [] hmade hnode horder hclean
    -- the check calls no constructor
    have hall : Follows note w.graph [] ([] ++ order) _ ([.checked key w.graph] ++ _) _ :=
      hbuild.behind rfl fun _ hcall => absurd hcall List.not_mem_nil
    exact hall

/-- A key that passed the check passes it again after a constructor has failed, and what was left of
the list is made then. -/
theorem resolve_again (hidle : w.Idle) (hunmarked : w.graph.Unmarked)
    (hnode : w.graph.node? key = some node)
    (hverify : w.graph.verify key node = .ok ()) (horder : w.graph.Postorder key (before ++ after))
    (hordered : w.graph.Ordered (before ++ after))
    (hmade : w.graph.MadeSince before (resolveWithin note depth key w).2.graph)
    (hidle' : (resolveWithin note depth key w).2.Idle)
    (hunmarked' : (resolveWithin note depth key w).2.graph.Unmarked) {depth' : Nat}
    (hdepth' : w.graph.size < depth') (world : σ) :
    let w' := { (resolveWithin note depth key w).2 with world }
    w'.graph.Postorder key after ∧ called (resolveWithinDeeds note depth' key w') <+: after := by
  intro w'
  have hadvanced := resolveWithin_advanced note depth key hidle.detached
  have hagain : w'.graph.Postorder key after := horder.remaining hordered hmade
  refine ⟨hagain, ?_⟩
  cases hnode' : w'.graph.node? key with
  | none => cases hnode.symm.trans ((hadvanced.later.none key).1 hnode')
  | some node' =>
    have hverify' : w'.graph.verify key node' = .ok () :=
      (hadvanced.verify_same ⟨hidle.unlocked, hunmarked⟩ hidle'.unlocked hnode hnode').trans hverify
    have hsize : w'.graph.size < depth' := hadvanced.size.trans_lt hdepth'
    have hfollows : Follows note w'.graph [] after _ (resolveWithinDeeds note depth' key w') _ :=
      resolve_follows (hidle'.still world).idle hunmarked' hsize hnode' hverify' hagain
    exact hfollows.called_prefix

/-- Of a graph that any requests have led to, none of which made a constructor panic, a key that
passes the check before a construction is resolved by calling constructors depth first: there is one
list of what the key needs, each component once and after its inputs, which come in the order in
which they are declared, and the constructors are called along it. What is there already is handed
out, and not gone through. If the key is had, all of the list is made. If not, a constructor has
panicked, or one has failed: then those before it in the list were called and what they made is
there, and neither its own component nor those after it are. The error is the one that it returned,
under its own key. To try again is to call along the rest of the list, from that constructor on. -/
theorem called_in_postorder {whys : List Interruption} (h : Workshop.Reached note whys w)
    (hdeep : .tooDeep ∉ whys) (hunmarked : w.graph.Unmarked) (hdepth : w.graph.size < depth)
    (hnode : w.graph.node? key = some node) (hverify : w.graph.verify key node = .ok ()) :
    let r := resolveWithin note depth key w
    let seen := resolveWithinDeeds note depth key w
    ∃ order, (∀ order', w.graph.Postorder key order' ↔ order' = order) ∧ order.Nodup ∧
      (∀ k, k ∈ order ↔ w.graph.Needs key k) ∧ r.1.Clean ∧ called seen <+: order ∧
      (∀ item, r.1 = .ok item → called seen = order ∧
        (∀ call ∈ calls seen, w.graph.Returned note call) ∧
        ∀ k ∈ order, r.2.graph.isCached k = true) ∧
      ∀ e, r.1 = .error e → ∃ f failure before after earlier entries,
        e = .constructor f failure ∧ order = before ++ f :: after ∧ called seen = before ++ [f] ∧
        calls seen = earlier ++ [(f, entries)] ∧ (∀ call ∈ earlier, w.graph.Returned note call) ∧
        w.graph.Ended note f entries (.error failure) r.2.world ∧
        (∀ k ∈ before, r.2.graph.isCached k = true) ∧
        (∀ k ∈ f :: after, r.2.graph.isCached k = false) ∧
        ∀ depth' world, w.graph.size < depth' →
          let w' := { r.2 with world }
          w'.graph.Postorder key (f :: after) ∧
            called (resolveWithinDeeds note depth' key w') <+: f :: after := by
  intro r seen
  obtain ⟨hidle, -⟩ := h.rested hdeep
  have hcalm : w.graph.Calm := ⟨hidle.unlocked, hunmarked⟩
  obtain ⟨order, horder, hordered, hneeded⟩ := Graph.exists_postorder hcalm hnode hverify
  have hclean : r.1.Clean :=
    resolveWithin_clean hcalm (.refl w.graph) hidle hdepth hnode hverify
  have hfollows : Follows note w.graph [] order r.1 seen r.2 :=
    resolve_follows hidle hunmarked hdepth hnode hverify horder
  have hrested := (resolve_kept hidle key hclean.not_tooDeep).rested hidle
  refine ⟨order, fun order' => ⟨fun h => h.unique horder, fun h => h ▸ horder⟩, hordered.nodup,
    hneeded, hclean, hfollows.called_prefix, fun item hok => ?had, fun e herror => ?failed⟩
  case had =>
    rw [hok] at hfollows hrested
    have hcalm' : r.2.graph.Calm := ⟨hrested.idle.unlocked, hrested.unmarked nofun hunmarked⟩
    cases hfollows with
    | whole hcalled hreturned hmade =>
      refine ⟨hcalled, hreturned, fun k hk => ?_⟩
      exact (hmade.isCached_iff hcalm' (hordered.pending k hk)).2 hk
  case failed =>
    rw [herror] at hfollows hrested
    have hunmarked' : r.2.graph.Unmarked := hrested.unmarked nofun hunmarked
    have hcalm' : r.2.graph.Calm := ⟨hrested.idle.unlocked, hunmarked'⟩
    cases hfollows with
    | @failed f failure _ _ hhalted =>
    obtain ⟨before, after, rfl, hcalled, hmade⟩ := hhalted.split
    obtain ⟨earlier, entries, hcalls, hearlier, hended⟩ := hhalted.ended
    have hcached (k : Key) (hk : k ∈ before ++ f :: after) :
        r.2.graph.isCached k = true ↔ k ∈ before :=
      hmade.isCached_iff hcalm' (hordered.pending k hk)
    have hdisjoint := (List.nodup_append'.1 hordered.nodup).2.2
    have hagain (depth' : Nat) (world : σ) (hdepth' : w.graph.size < depth') :=
      resolve_again hidle hunmarked hnode hverify horder hordered hmade hrested.idle hunmarked'
        hdepth' world
    refine ⟨f, failure, before, after, earlier, entries, rfl, rfl, hcalled, hcalls, hearlier,
      hended, fun k hk => ?_, fun k hk => ?_, hagain⟩
    · exact (hcached k (List.mem_append_left _ hk)).2 hk
    · rw [← Bool.not_eq_true, hcached k (List.mem_append_right _ hk)]
      exact fun hbefore => hdisjoint hbefore hk

end

/-- A server with a cache, a pool and a store, and with metrics if there are any. The cache and the
store use the pool, too. The store fails in surroundings that count less than ten. -/
def storeServer : Workshop Nat Nat :=
  let new : Workshop Nat Nat := ⟨.empty, none, 0⟩
  let server := (new.register (.of ⟨"Server"⟩)
    (.ofRecipe [.of "cache" ⟨"Cache"⟩, .of "pool" ⟨"Pool"⟩,
      (Param.of "metrics" ⟨"Metrics"⟩).asOptional, .of "store" ⟨"Store"⟩]
      fun _ => .finish (.ok 0))).2
  let store := (server.register (.of ⟨"Store"⟩) (.ofRecipe [.of "pool" ⟨"Pool"⟩] fun _ =>
    .read fun count => .finish (if count < 10 then .error ⟨"disk full", []⟩ else .ok count))).2
  let cache := (store.register (.of ⟨"Cache"⟩)
    (.ofRecipe [.of "pool" ⟨"Pool"⟩] fun _ => .finish (.ok 0))).2
  (cache.register (.of ⟨"Pool"⟩) (.ofRecipe [] fun _ => .finish (.ok 0))).2

theorem storeServer_reached : Workshop.Reached (fun _ count => count + 1) [] storeServer :=
  .provide (.provide (.provide (.provide (.new 0) _ _ fun _ => .finish _) _ _
    fun _ => .read fun _ => .finish _) _ _ fun _ => .finish _) _ _ fun _ => .finish _

/-- The pool is made once, before the cache, and the store is the third to be called. It fails, so
the server is not called, and when it is asked for again, the store is called first. -/
theorem storeServer_retried :
    let note : Notice → Nat → Nat := fun _ count => count + 1
    let pool : Key := .of ⟨"Pool"⟩
    let cache : Key := .of ⟨"Cache"⟩
    let store : Key := .of ⟨"Store"⟩
    let server : Key := .of ⟨"Server"⟩
    (resolveWithin note 5 server storeServer).1 = .error (.constructor store ⟨"disk full", []⟩) ∧
      ∃ after, storeServer.graph.Postorder server ([pool, cache] ++ store :: after) ∧
        (resolveWithin note 5 server storeServer).2.graph.isCached cache = true ∧
        (resolveWithin note 5 server storeServer).2.graph.isCached store = false ∧
        (resolveWithin note 5 server storeServer).2.graph.Postorder server (store :: after) := by
  intro note pool cache store server
  have hunmarked : storeServer.graph.Unmarked :=
    (storeServer_reached.rested List.not_mem_nil).2 fun _ => List.not_mem_nil
  have hdepth : storeServer.graph.size < 5 := by decide
  have hnode : storeServer.graph.node? server = some _ := rfl
  have hfailed : (resolveWithin note 5 server storeServer).1 =
      .error (.constructor store ⟨"disk full", []⟩) := rfl
  have hcalled : called (resolveWithinDeeds note 5 server storeServer) =
      [pool, cache] ++ [store] := by decide +kernel
  have hspec := called_in_postorder storeServer_reached List.not_mem_nil hunmarked hdepth hnode rfl
  generalize resolveWithin note 5 server storeServer = r at hspec hfailed ⊢
  obtain ⟨order, horder, -, -, -, -, -, hall⟩ := hspec
  obtain ⟨f, failure, before, after, earlier, entries, he, rfl, hbefore, -, -, -, hmade, hrest,
    hagain⟩ := hall _ hfailed
  cases he
  obtain rfl : before = [pool, cache] := List.append_cancel_right (hbefore.symm.trans hcalled)
  refine ⟨hfailed, after, (horder _).2 rfl, hmade cache ?_, hrest store ?_, ?_⟩
  · exact List.mem_cons_of_mem _ List.mem_cons_self
  · exact List.mem_cons_self
  · exact (hagain 5 0 hdepth).1

end ServiceHost
