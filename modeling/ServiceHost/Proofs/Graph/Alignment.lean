import ServiceHost.Proofs.Graph.Arguments
import ServiceHost.Proofs.Graph.Invocation
import ServiceHost.Proofs.Graph.Singleton

/-!
# What the arguments of a call are

The inputs of a constructor, and those of an invoked function, are looked up from left to right,
each in the graph as the ones before it have left it. This is a gathering. Each call that happens is
made with what a gathering came to, and so the gatherings that are drawn from a trace
(`Gathering.of`) are those of the calls that are seen, one for one and in their order (`Recounts`).

When all inputs of a gathering were found there is one entry for each of them, in the declared
order, and it is without a value exactly if the input is optional and nothing was registered under
its key when it was looked up (`gather_aligned`). Since a key has one component for good, the values
are the components that the graph has in the end, and the arguments give them by the names of the
inputs (`arguments_aligned`).
-/

namespace ServiceHost

variable {σ ι : Type}

/-! ## Gatherings -/

namespace Gathering

/-- The arguments of the call, if there is one. -/
def args? (G : Gathering σ ι) : Option (Args ι) :=
  match G.result with
  | .ok entries => some ⟨G.callee.owner, entries⟩
  | _ => none

/-- What is seen of the call, if there is one. -/
def deed? (G : Gathering σ ι) : Option (Deed σ ι) :=
  G.args?.map fun args => G.callee.call args.entries

theorem args?_eq {G : Gathering σ ι} {entries : Entries ι} (h : G.result = .ok entries) :
    G.args? = some ⟨G.callee.owner, entries⟩ := by
  rw [args?, h]

theorem deed?_eq {G : Gathering σ ι} {entries : Entries ι} (h : G.result = .ok entries) :
    G.deed? = some (G.callee.call entries) := by
  rw [deed?, args?_eq h, Option.map_some]

/-- A call that was made was made with what was found for its inputs. -/
theorem deed?_eq_some {G : Gathering σ ι} {deed : Deed σ ι} (h : G.deed? = some deed) :
    ∃ entries, G.result = .ok entries ∧ deed = G.callee.call entries := by
  unfold deed? args? at h
  cases hresult : G.result with
  | ok entries =>
    rw [hresult] at h
    cases h
    exact ⟨entries, rfl, rfl⟩
  | error e =>
    rw [hresult] at h
    cases h
  | interrupted why =>
    rw [hresult] at h
    cases h

/-- The graph in which an input is looked up, given how many come before it. -/
def stage (G : Gathering σ ι) (n : Nat) : Graph σ ι :=
  (gather G.callee.owner G.find (G.inputs.take n) G.start).2.graph

/-- The gathering for a call that happens. -/
def of : Happening σ ι → List (Gathering σ ι)
  | .called G _ => [G]
  | _ => []

end Gathering

/-- The gatherings of a request. -/
def Request.gatherings (note : Notice → σ → σ) (request : Request σ ι) (w : Workshop σ ι) :
    List (Gathering σ ι) :=
  request.trace Gathering.of note w

/-- The gatherings of requests one after another. -/
def Workshop.gatherings (note : Notice → σ → σ) : List (Request σ ι) → Workshop σ ι →
    List (Gathering σ ι)
  | [], _ => []
  | request :: rest, w =>
    request.gatherings note w ++ Workshop.gatherings note rest (request.reply note w).2

/-! ## Calls that are seen and their gatherings -/

/-- A constructor or a function is called. -/
def Deed.isCall : Deed σ ι → Bool
  | .called .. => true
  | .invoked .. => true
  | _ => false

/-- The gatherings come to the calls that are seen, each in its place, and have the inputs that were
declared. What comes about has the type of its key. -/
structure Recounts (requests : List (Request σ ι)) (told : List (Gathering σ ι))
    (seen : List (Deed σ ι)) : Prop where
  calls : told.map Gathering.deed? = (seen.filter Deed.isCall).map some
  declared : ∀ G ∈ told, G.Declared requests
  typed : ∀ pair ∈ origins seen, pair.2.type = pair.1.type

namespace Recounts

variable {requests more : List (Request σ ι)} {told told' : List (Gathering σ ι)}
  {seen seen' : List (Deed σ ι)}

theorem nil : Recounts requests ([] : List (Gathering σ ι)) [] :=
  ⟨rfl, by simp, by simp [origins]⟩

/-- What happens one after another is recounted so. -/
theorem append (h : Recounts requests told seen) (h' : Recounts requests told' seen') :
    Recounts requests (told ++ told') (seen ++ seen') where
  calls := by rw [List.map_append, List.filter_append, List.map_append, h.calls, h'.calls]
  declared G hG := (List.mem_append.1 hG).elim (h.declared G) (h'.declared G)
  typed pair hpair := by
    rw [origins_append] at hpair
    exact (List.mem_append.1 hpair).elim (h.typed pair) (h'.typed pair)

/-- A deed that is no call. -/
theorem quiet {d : Deed σ ι} (hcall : d.isCall = false)
    (htyped : ∀ key item, d.origin? = some (key, item) → item.type = key.type) :
    Recounts requests ([] : List (Gathering σ ι)) [d] where
  calls := by simp [hcall]
  declared := by simp
  typed pair hpair := by
    obtain ⟨d', hd', horigin⟩ := List.mem_filterMap.1 hpair
    rw [List.mem_singleton.1 hd'] at horigin
    exact htyped pair.1 pair.2 horigin

/-- The call of a gathering. -/
theorem call {G : Gathering σ ι} {entries : Entries ι} (hresult : G.result = .ok entries)
    (hdeclared : G.Declared requests) : Recounts requests [G] [G.callee.call entries] where
  calls := by
    have hdeed : G.deed? = some (G.callee.call entries) := Gathering.deed?_eq hresult
    have hcall : (G.callee.call entries : Deed σ ι).isCall = true := by
      cases G.callee <;> rfl
    simp [hdeed, hcall]
  declared := by simpa using hdeclared
  typed pair hpair := by
    obtain ⟨d, hd, horigin⟩ := List.mem_filterMap.1 hpair
    rw [List.mem_singleton.1 hd] at horigin
    cases hcallee : G.callee <;> rw [hcallee] at horigin <;> cases horigin

/-- What was declared stays declared when more is requested. -/
theorem mono (h : Recounts requests told seen) (hmore : requests ⊆ more) :
    Recounts more told seen where
  calls := h.calls
  declared G hG := by
    have hdeclared := h.declared G hG
    unfold Gathering.Declared at hdeclared ⊢
    cases hcallee : G.callee with
    | constructorOf key => rwa [hcallee] at hdeclared
    | function name =>
      rw [hcallee] at hdeclared
      obtain ⟨depth, function, hmem⟩ := hdeclared
      exact ⟨depth, function, hmore hmem⟩
  typed := h.typed

/-- What is seen of things that can happen, and their gatherings. -/
theorem flatMap {trace : List (Happening σ ι)}
    (h : ∀ x ∈ trace, Recounts requests (Gathering.of x) (Deed.of x)) :
    Recounts requests (trace.flatMap Gathering.of) (trace.flatMap Deed.of) := by
  induction trace with
  | nil => exact .nil
  | cons x rest ih =>
    exact (h x List.mem_cons_self).append (ih fun y hy => h y (List.mem_cons_of_mem x hy))

end Recounts

/-- Whatever can happen is seen as a call if it is one, with the inputs that were declared, and what
comes about by it has the type of its key. -/
theorem Happening.Sound.recounts {requests : List (Request σ ι)} {x : Happening σ ι}
    (h : x.Sound requests) : Recounts requests (Gathering.of x) (Deed.of x) := by
  cases h with
  | checked key graph => exact .quiet rfl (by rintro _ _ ⟨⟩)
  | resolved key item => exact .quiet rfl (by rintro _ _ ⟨⟩)
  | called hresult hdeclared => exact .call hresult hdeclared
  | made key value =>
    refine .quiet (d := .made key ⟨key.type, value⟩) rfl ?_
    rintro _ _ ⟨⟩
    rfl
  | @registering key node w htyped =>
    cases node with
    | recipe => exact .nil
    | value item =>
      dsimp only [Gathering.of, Deed.of]
      split
      · exact .nil
      · refine .quiet (d := .supplied key item) rfl ?_
        rintro _ _ ⟨⟩
        exact htyped item rfl

/-- The gatherings of a request come to the calls that are seen of it. -/
theorem Request.recounts (note : Notice → σ → σ) (request : Request σ ι) (w : Workshop σ ι) :
    Recounts [request] (request.gatherings note w) (request.deeds note w) := by
  rw [Request.gatherings, Request.deeds, Request.trace_eq Gathering.of, Request.trace_eq Deed.of]
  exact .flatMap fun x hx =>
    (Request.trace_sound note List.mem_cons_self w x hx).recounts

/-- The gatherings of requests come to the calls that are seen of them. -/
theorem Chronicle.recounts (note : Notice → σ → σ) (requests : List (Request σ ι))
    (c : Chronicle σ ι) :
    ∃ seen, (requests.foldl (next note) c).deeds = c.deeds ++ seen ∧
      Recounts requests (c.workshop.gatherings note requests) seen := by
  induction requests generalizing c with
  | nil => exact ⟨[], (List.append_nil _).symm, .nil⟩
  | cons request rest ih =>
    obtain ⟨seen, hdeeds, hrest⟩ := ih (c.next note request)
    refine ⟨request.deeds note c.workshop ++ seen, ?_, ?_⟩
    · rw [List.foldl_cons, hdeeds, ← List.append_assoc]
      rfl
    · have hfirst := request.recounts note c.workshop
      exact (hfirst.mono (List.cons_subset_cons request (List.nil_subset rest))).append
        (hrest.mono (List.subset_cons_self request rest))

/-! ## What is found for each input -/

section
variable {owner : Key} {inputs : Inputs} {p : Param} {w w' : Workshop σ ι}
  {find : Key → Node σ ι → Workshop σ ι → Outcome GraphError (Instance ι) × Workshop σ ι}
  {entries : Entries ι}

/-- Of inputs that were found, each has its value at its place. It has none exactly if it is
optional and nothing was registered under its key when it was looked up. -/
theorem gather_aligned (h : gather owner find inputs w = (.ok entries, w')) {n : Nat}
    (hparam : inputs[n]? = some p) :
    ∃ value, entries[n]? = some (p, value) ∧ (value = none ↔ p.optional = true ∧
      (gather owner find (inputs.take n) w).2.graph.node? p.key = none) := by
  induction inputs generalizing w entries n with
  | nil => cases hparam
  | cons q rest ih =>
    rcases gather_cons_ok h with ⟨more, hnode, hoptional, hrest, rfl⟩ |
      ⟨node, item, w₁, more, hnode, hfind, hrest, rfl⟩
    · cases n with
      | zero =>
        cases hparam
        exact ⟨none, rfl, iff_of_true rfl ⟨hoptional, hnode⟩⟩
      | succ n =>
        obtain ⟨value, hentry, hvalue⟩ := ih hrest hparam
        exact ⟨value, hentry, by rw [List.take_succ_cons, gather_absent hnode hoptional, hvalue]⟩
    · cases n with
      | zero =>
        cases hparam
        refine ⟨some item, rfl, iff_of_false (Option.some_ne_none item) fun habsent => ?_⟩
        cases hnode.symm.trans habsent.2
      | succ n =>
        obtain ⟨value, hentry, hvalue⟩ := ih hrest hparam
        exact ⟨value, hentry, by rw [List.take_succ_cons, gather_present hnode hfind, hvalue]⟩

end

/-! ## Arguments -/

/-- The arguments of a call are what its inputs ask for, and give it by name. -/
structure Gathering.Aligned (G : Gathering σ ι) (g : Graph σ ι) (args : Args ι) : Prop where
  owner : args.owner = G.callee.owner
  size : args.size = G.inputs.length
  /-- A name that no input has is unknown, and no other name is. -/
  unknown : ∀ field type,
    (args.optional field type = .error (.unknownField args.owner field) ↔
        ∀ p ∈ G.inputs, p.field ≠ field) ∧
      (args.get field type = .error (.unknownField args.owner field) ↔
        ∀ p ∈ G.inputs, p.field ≠ field)
  /-- An input has no value exactly if it is optional and nothing was registered under its key when
  it was looked up. Its value is the one component of the key. It is read by the name of the input,
  if no other input before it has the name. -/
  value : ∀ n p, G.inputs[n]? = some p → ∃ value, args.values[n]? = some value ∧
    (value = none ↔ p.optional = true ∧ (G.stage n).node? p.key = none) ∧
    (∀ item, value = some item → g.item? p.key = some item) ∧
    (G.inputs.FirstAt n p → args.Reads p value)

/-- The arguments of a call that was seen are what its inputs ask for. -/
theorem Gathering.aligned {G : Gathering σ ι} {g : Graph σ ι} {entries : Entries ι}
    (h : G.result = .ok entries)
    (hitems : ∀ pair ∈ entries.items, g.item? pair.1 = some pair.2 ∧ pair.2.type = pair.1.type) :
    G.Aligned g ⟨G.callee.owner, entries⟩ := by
  have hparams : (⟨G.callee.owner, entries⟩ : Args ι).params = G.inputs :=
    gather_inputs (Prod.ext h rfl)
  refine ⟨rfl, ?size, ?unknown, ?value⟩
  case size =>
    rw [← hparams, Args.params, List.length_map, Args.size]
  case unknown =>
    intro field type
    rw [← hparams]
    exact Args.unknownField_iff _ field type
  case value =>
    intro n p hparam
    obtain ⟨value, hentry, hvalue⟩ := gather_aligned (Prod.ext h rfl) hparam
    have hat : (⟨G.callee.owner, entries⟩ : Args ι).values[n]? = some value := by
      simp [Args.values, hentry]
    have hitem (item : Instance ι) (hsome : value = some item) : (p.key, item) ∈ entries.items := by
      subst hsome
      exact List.mem_filterMap.2 ⟨(p, some item), List.mem_of_getElem? hentry, rfl⟩
    refine ⟨value, hat, hvalue, fun item hsome => (hitems _ (hitem item hsome)).1, fun hfirst => ?_⟩
    rw [← hparams] at hfirst
    exact Args.reads hfirst hat fun item hsome => (hitems _ (hitem item hsome)).2

/-- Whatever is requested of a graph, and whatever the constructors do meanwhile, each call of a
constructor and of an invoked function is made with one value for each declared input, in the
declared order. An input that is required has a value. One that is optional has none exactly if
nothing was registered under its key when it was looked up. A value is the one component of the key,
which is given by the name of the first input that has the name, and as its type. -/
theorem arguments_aligned (note : Notice → σ → σ) (world : σ) (requests : List (Request σ ι)) :
    let chronicle := Chronicle.of note world requests
    let gatherings := (Chronicle.new world).workshop.gatherings note requests
    gatherings.map Gathering.deed? = (chronicle.deeds.filter Deed.isCall).map some ∧
      ∀ G ∈ gatherings, G.Declared requests ∧
        ∃ args, G.args? = some args ∧ G.Aligned chronicle.workshop.graph args := by
  intro chronicle gatherings
  obtain ⟨seen, hdeeds, hrecounts⟩ := Chronicle.recounts note requests (.new world)
  obtain rfl : chronicle.deeds = seen := hdeeds
  have haccounted : chronicle.workshop.graph.AccountedBy chronicle.deeds :=
    Chronicle.accounted note world requests
  refine ⟨hrecounts.calls, fun G hG => ⟨hrecounts.declared G hG, ?_⟩⟩
  obtain ⟨deed, hdeed, hcall⟩ : ∃ deed ∈ chronicle.deeds, G.deed? = some deed := by
    have hmem : G.deed? ∈ (chronicle.deeds.filter Deed.isCall).map some :=
      hrecounts.calls ▸ List.mem_map_of_mem hG
    obtain ⟨deed, hdeed, hcall⟩ := List.mem_map.1 hmem
    exact ⟨deed, List.mem_of_mem_filter hdeed, hcall.symm⟩
  obtain ⟨entries, hresult, rfl⟩ := Gathering.deed?_eq_some hcall
  refine ⟨_, Gathering.args?_eq hresult, Gathering.aligned hresult fun pair hpair => ?_⟩
  have hhanded : pair ∈ (G.callee.call entries : Deed σ ι).handed := by
    cases G.callee <;> exact hpair
  have hitem := haccounted.item?_of_handed hdeed hhanded
  exact ⟨hitem, hrecounts.typed pair ((haccounted.origin _ _).2 hitem)⟩

/-- Two parts of one name, and a cache if there is one. -/
def partedInputs : Inputs :=
  [.of "part" ⟨"Store"⟩, (Param.of "cache" ⟨"Cache"⟩).asOptional, .of "part" ⟨"Clock"⟩]

/-- A page of these, where nobody registers a cache. -/
def partedPage : List (Request Nat Nat) :=
  [ .supply (.of ⟨"Store"⟩) 7,
    .supply (.of ⟨"Clock"⟩) 12,
    .provide (.of ⟨"Page"⟩) partedInputs fun args => .finish (.ok args.size),
    .resolve 2 (.of ⟨"Page"⟩) ]

/-- The page is given the store for a part, and is told that the cache is missing if it needs it. -/
theorem partedPage_store :
    ∃ args, ((Chronicle.new 0).workshop.gatherings (fun _ calls => calls + 1) partedPage).map
        Gathering.args? = [some args] ∧ args.size = 3 ∧
      args.optional "part" ⟨"Store"⟩ = .ok (some 7) ∧ args.get "part" ⟨"Store"⟩ = .ok 7 ∧
      args.get "part" ⟨"Clock"⟩ = .error (.downcastFailed "Clock") ∧
      args.optional "cache" ⟨"Cache"⟩ = .ok none ∧
      args.get "cache" ⟨"Cache"⟩ =
        .error (.missingDependency (.of ⟨"Cache"⟩) (some (.of ⟨"Page"⟩))) := by
  obtain ⟨-, hall⟩ := arguments_aligned (fun _ calls => calls + 1) 0 partedPage
  obtain ⟨-, args, hargs, haligned⟩ := hall _ (List.mem_singleton.2 rfl)
  obtain ⟨store, -, hstore, hsingle, hread⟩ := haligned.value 0 (.of "part" ⟨"Store"⟩) rfl
  obtain ⟨cache, -, hcache, -, hread'⟩ :=
    haligned.value 1 ((Param.of "cache" ⟨"Cache"⟩).asOptional) rfl
  have hstore : store = some ⟨⟨"Store"⟩, 7⟩ := by
    cases store with
    | none => cases (hstore.1 rfl).1
    | some item => exact (hsingle item rfl).symm.trans rfl
  have hcache : cache = none := hcache.2 ⟨rfl, rfl⟩
  have hread := hread ⟨rfl, fun m hm => absurd hm (Nat.not_lt_zero m)⟩
  have hother : ∀ m < 1, ∀ q, partedInputs[m]? = some q → q.field ≠ "cache" := by
    intro m hm q hq
    obtain rfl : m = 0 := Nat.lt_one_iff.1 hm
    cases hq
    decide
  obtain ⟨hoptional, hget⟩ := hread.present _ hstore
  obtain ⟨hnone, hmissing⟩ := (hread' ⟨rfl, hother⟩).absent hcache ⟨"Cache"⟩
  refine ⟨args, ?_, haligned.size, hoptional, hget, ?_, hnone, ?_⟩
  · rw [← hargs]
    rfl
  · exact (hread.mistyped _ hstore ⟨"Clock"⟩ (by decide)).2
  · rw [haligned.owner] at hmissing
    exact hmissing

end ServiceHost
