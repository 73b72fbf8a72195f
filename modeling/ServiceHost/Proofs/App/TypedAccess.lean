import ServiceHost.Proofs.App.Chain
import ServiceHost.Proofs.Graph.Alignment
import ServiceHost.Proofs.Graph.Trust

/-!
# Components are of the type of their key

A component forgets its type when it is put into the graph, and whoever takes it out names a type
again. The two agree: a value is registered under a key of its own type, what a constructor returns
is stored under the key of the constructor, and nothing else is ever stored. This holds of all that
has come about in a chronicle (`Recounts.typed`), and since what is in the graph, and what is handed
out of it, has come about before (`Graph.AccountedBy`), it holds of these as well
(`Chronicle.typed`). It does not matter whether the constructors make their requests to the graph
that they belong to or to one beside it.

A resolution may fail all the same, but not at the type: it fails in the check before the
construction, or a constructor fails, whatever there is in the graph (`resolveWithin_error`). A
component is refused only among the arguments of a call, where the one who asks is free to name any
type for an input.

The graph of an application is one of these: putting it together and building it comes to a list of
requests to a new graph (`Builder.requests`).
-/

namespace ServiceHost

variable {σ ι : Type}

/-! ## How a resolution fails -/

/-- The error is that a component is not of the type that was asked for. -/
def GraphError.isMiscast : GraphError → Bool
  | .downcastFailed _ => true
  | _ => false

/-- The error is one of a resolution: the check fails, or a constructor does. -/
inductive GraphError.OfResolution : GraphError → Prop
  | check {e : GraphError} (h : e.ofCheck = true) : OfResolution e
  | constructor (key : Key) (source : Failure) : OfResolution (.constructor key source)

/-- No resolution fails for a type. -/
theorem GraphError.OfResolution.isMiscast {e : GraphError} (h : e.OfResolution) :
    e.isMiscast = false := by
  cases h with
  | check h =>
    cases e with
    | downcastFailed => cases h
    | _ => rfl
  | constructor => rfl

section
variable {note : Notice → σ → σ} {depth : Nat} {key owner : Key} {w : Workshop σ ι}
  {e : GraphError}

/-- Finding inputs fails as finding one of them does, or because one is missing. -/
theorem gather_error {P : GraphError → Prop}
    {find : Key → Node σ ι → Workshop σ ι → Outcome GraphError (Instance ι) × Workshop σ ι}
    (hmissing : ∀ key, P (.missingDependency key (some owner)))
    (hfind : ∀ key node (w : Workshop σ ι) e, w.graph.node? key = some node →
      (find key node w).1 = .error e → P e)
    {inputs : Inputs} (h : (gather owner find inputs w).1 = .error e) : P e := by
  induction inputs generalizing w with
  | nil => cases h
  | cons p rest ih =>
    have hlater {r : Outcome GraphError (Entries ι)} {entry : Param × Option (Instance ι)}
        (hr : r.map (entry :: ·) = .error e) : r = .error e := by
      cases r with
      | error e' => exact hr
      | ok entries => cases hr
      | interrupted why => cases hr
    cases hnode : w.graph.node? p.key with
    | none =>
      cases hoptional : p.optional with
      | false =>
        rw [gather_missing hnode hoptional] at h
        cases h
        exact hmissing p.key
      | true =>
        rw [gather_absent hnode hoptional] at h
        exact ih (hlater h)
    | some node =>
      cases hfound : find p.key node w with | mk outcome w₁ =>
      cases outcome with
      | ok item =>
        rw [gather_present hnode hfound] at h
        exact ih (hlater h)
      | error e' =>
        rw [gather_failed hnode hfound] at h
        cases h
        exact hfind p.key node w e hnode (congrArg Prod.fst hfound)
      | interrupted why =>
        rw [gather_interrupted hnode hfound] at h
        cases h

/-- A construction fails with an error of a resolution: that of the path, of an input, or of the
constructor. -/
theorem build_error {path : List Key} {node : Node σ ι}
    (h : (build note depth path key node w).1 = .error e) : e.OfResolution := by
  induction depth generalizing path key node w e with
  | zero => cases node <;> cases h
  | succ depth ih =>
    cases node with
    | value item => cases h
    | recipe inputs construct cache =>
    unfold build at h
    split at h
    · cases h
      exact .check rfl
    split at h
    · cases h
    cases hmade : cache.made with
    | some item =>
      rw [hmade] at h
      cases h
    | none =>
    simp only [hmade] at h
    cases hgather : gather key (build note depth (path ++ [key])) inputs
      { w with graph := w.graph.lock key } with | mk outcome w₁ =>
    simp only [hgather] at h
    cases outcome with
    | interrupted why => cases h
    | error e' =>
      cases h
      exact gather_error (fun _ => .check rfl) (fun _ _ _ _ _ => ih) (congrArg Prod.fst hgather)
    | ok entries =>
      cases hrun : (construct ⟨key, entries⟩).run (resolveWith (build note depth []))
        { w₁ with world := note (.constructing key) w₁.world } with | mk outcome w₂ =>
      simp only [hrun] at h
      cases outcome with
      | ok value => cases h
      | interrupted why => cases h
      | error failure =>
        cases h
        exact .constructor key failure

/-- Whatever there is in the graph, a resolution fails in the check or because a constructor
does. -/
theorem resolveWithin_error (h : (resolveWithin note depth key w).1 = .error e) :
    e.OfResolution := by
  unfold resolveWithin resolveWith at h
  cases hnode : w.graph.node? key with
  | none =>
    simp only [hnode] at h
    cases h
    exact .check rfl
  | some node =>
    simp only [hnode] at h
    cases havailable : node.available with
    | some item =>
      simp only [havailable] at h
      cases h
    | none =>
      simp only [havailable] at h
      cases hverify : w.graph.verify key node with
      | error e' =>
        simp only [hverify] at h
        cases h
        exact .check (Graph.verify_ofCheck hnode hverify)
      | ok =>
        simp only [hverify] at h
        exact build_error h

end

/-! ## What is in a graph and what is handed out -/

/-- The arguments with which something is called. -/
def Deed.args? : Deed σ ι → Option (Args ι)
  | called key entries => some ⟨key, entries⟩
  | invoked owner entries => some ⟨owner, entries⟩
  | supplied .. => none
  | checked .. => none
  | made .. => none
  | resolved .. => none

/-- A value is refused exactly as a type that is not the one of the key of its input, the input
being the first of its name. -/
def Args.Typed (args : Args ι) : Prop :=
  ∀ n p item, args.params.FirstAt n p → args.values[n]? = some (some item) → ∀ type,
    ((∃ name, args.get p.field type = .error (.downcastFailed name)) ↔ type ≠ p.key.type) ∧
      ((∃ name, args.optional p.field type = .error (.downcastFailed name)) ↔ type ≠ p.key.type)

/-- What is in the graph, and what was handed out of it, is of the type of its key. -/
structure Chronicle.Typed (c : Chronicle σ ι) : Prop where
  stored : ∀ key item, c.workshop.graph.item? key = some item → item.type = key.type
  handed : ∀ deed ∈ c.deeds, ∀ pair ∈ deed.handed, pair.2.as pair.1.type = .ok pair.2.value
  arguments : ∀ deed ∈ c.deeds, ∀ args, deed.args? = some args → args.Typed

theorem Instance.as_type {item : Instance ι} {type : ComponentType} (h : item.type = type) :
    item.as type = .ok item.value :=
  if_pos h

/-- Arguments whose values are of the types of their keys are refused as other types only. -/
theorem Args.typed_of_items {args : Args ι}
    (h : ∀ pair ∈ Entries.items args.entries, pair.2.type = pair.1.type) : args.Typed := by
  intro n p item hfirst hvalue type
  have hentry : (p, some item) ∈ args.entries :=
    List.mem_of_find?_eq_some (Args.entry?_eq hfirst hvalue)
  have htype : item.type = p.key.type :=
    h (p.key, item) (List.mem_filterMap.2 ⟨(p, some item), hentry, rfl⟩)
  have hreads : args.Reads p (some item) := by
    refine Args.reads hfirst hvalue ?_
    rintro _ ⟨⟩
    exact htype
  by_cases hsame : type = p.key.type
  · subst hsame
    obtain ⟨hoptional, hget⟩ := hreads.present item rfl
    simp [hoptional, hget]
  · obtain ⟨hoptional, hget⟩ := hreads.mistyped item rfl type hsame
    simp [hoptional, hget, hsame]

namespace Chronicle

/-- The chronicle of requests to a new graph, with another one beside it to which the constructors
make theirs, if there is one. -/
def among (note : Notice → σ → σ) (world : σ) (beside : Option (Graph σ ι))
    (requests : List (Request σ ι)) : Chronicle σ ι :=
  requests.foldl (next note) ⟨[], [], ⟨.empty, beside, world⟩⟩

theorem foldl_accounted (note : Notice → σ → σ) (requests : List (Request σ ι))
    {c : Chronicle σ ι} (h : c.workshop.graph.AccountedBy c.deeds) :
    (requests.foldl (next note) c).workshop.graph.AccountedBy
      (requests.foldl (next note) c).deeds := by
  induction requests generalizing c with
  | nil => exact h
  | cons request rest ih => exact ih ((request.told note c.workshop).account _ h)

theorem foldl_workshop (note : Notice → σ → σ) (requests : List (Request σ ι))
    (c : Chronicle σ ι) :
    (requests.foldl (next note) c).workshop = c.workshop.after note requests := by
  induction requests generalizing c with
  | nil => rfl
  | cons request rest ih => exact ih (c.next note request)

/-- Whatever is requested of a graph, all that is in it and all that is handed out of it is of the
type of its key. -/
theorem typed (note : Notice → σ → σ) (world : σ) (beside : Option (Graph σ ι))
    (requests : List (Request σ ι)) : (among note world beside requests).Typed := by
  have haccounted : (among note world beside requests).workshop.graph.AccountedBy
      (among note world beside requests).deeds := by
    refine foldl_accounted note requests ⟨.nil, fun key item => ?_⟩
    constructor
    · nofun
    · rintro ⟨⟩
  obtain ⟨seen, hdeeds, hrecounts⟩ :=
    Chronicle.recounts note requests ⟨[], [], ⟨.empty, beside, world⟩⟩
  obtain rfl : (among note world beside requests).deeds = seen := hdeeds
  have hstored (key : Key) (item : Instance ι)
      (hitem : (among note world beside requests).workshop.graph.item? key = some item) :
      item.type = key.type :=
    hrecounts.typed (key, item) ((haccounted.origin key item).2 hitem)
  have hhanded (deed : Deed σ ι) (hdeed : deed ∈ (among note world beside requests).deeds)
      (pair : Key × Instance ι) (hpair : pair ∈ deed.handed) : pair.2.type = pair.1.type :=
    hstored pair.1 pair.2 (haccounted.item?_of_handed hdeed hpair)
  refine ⟨hstored, fun deed hdeed pair hpair => Instance.as_type (hhanded deed hdeed pair hpair),
    fun deed hdeed args hargs => Args.typed_of_items fun pair hpair => ?_⟩
  refine hhanded deed hdeed pair ?_
  cases deed <;> cases hargs <;> exact hpair

/-- What a resolution hands out is of the type of the key. -/
theorem resolved_typed {note : Notice → σ → σ} {world : σ} {beside : Option (Graph σ ι)}
    {requests : List (Request σ ι)} {depth : Nat} {key : Key} {item : Instance ι}
    (h : (resolveWithin note depth key (among note world beside requests).workshop).1 = .ok item) :
    item.type = key.type := by
  have hafter : (among note world beside (requests ++ [.resolve depth key])).workshop =
      (resolveWithin note depth key (among note world beside requests).workshop).2 := by
    unfold among
    rw [List.foldl_append]
    rfl
  have hfinds := resolveWithin_finds note depth key (among note world beside requests).workshop
  refine (typed note world beside (requests ++ [.resolve depth key])).stored key item ?_
  rw [hafter]
  exact hfinds.found item h

end Chronicle

/-- Where a resolution hands out what is of the type of its key, the cast to it is for nothing. -/
theorem resolveTyped_eq {resolve : Resolver σ ι} {key : Key} {w : Workshop σ ι}
    (h : ∀ item, (resolve key w).1 = .ok item → item.type = key.type) :
    resolveTyped resolve key w = ((resolve key w).1.map Instance.value, (resolve key w).2) := by
  unfold resolveTyped
  cases hresolve : resolve key w with | mk outcome w₁ =>
  rw [hresolve] at h
  cases outcome with
  | ok item =>
    have hcast : item.as key.type = .ok item.value := Instance.as_type (h item rfl)
    simp only [hcast]
    rfl
  | error e => rfl
  | interrupted why => rfl

/-! ## The graph of an application -/

section
variable (note : Notice → σ → σ) (depth : Nat)

def Registration.request : Registration σ ι → Request σ ι
  | .supply key value => .supply key value
  | .provide key inputs construct => .provide key inputs construct

/-- What is requested of the graph by one step. -/
def BuildStep.requests : BuildStep σ ι → Workshop σ ι → List (Request σ ι)
  | .register m, w => (m.registrations w).map Registration.request
  | .invoke i, _ => [.invoke depth i.name i.inputs i.function]

/-- What is requested of the graph by steps in turn, up to the first that does not end well. -/
def stepRequests : List (BuildStep σ ι) → Workshop σ ι → List (Request σ ι)
  | [], _ => []
  | step :: rest, w =>
    step.requests depth w ++
      match step.run note depth w with
      | (.ok (), w) => stepRequests rest w
      | _ => []

/-- What is requested of a new graph when an application is put together by calls and built. -/
def Builder.requests (world : σ) (lifecycle shutdowner : ι) (beside : Option (Graph σ ι))
    (calls : List (ChainCall σ ι)) : List (Request σ ι) :=
  [.supply (Key.of lifecycleType) lifecycle, .supply (Key.of shutdownerType) shutdowner] ++
    stepRequests note depth (buildSteps calls)
      (beginning world lifecycle shutdowner beside).workshop

variable {note depth} {w : Workshop σ ι}

theorem Workshop.after_append (first more : List (Request σ ι)) :
    w.after note (first ++ more) = (w.after note first).after note more :=
  List.foldl_append

theorem Registration.after_request (r : Registration σ ι) :
    (r.request.reply note w).2 = (r.run w).2 := by
  cases r <;> rfl

/-- What a module does are its registrations, one request each. -/
theorem Module.after_registrations (m : Module σ ι) :
    w.after note ((m.registrations w).map Registration.request) = (m.run w).2 := by
  induction m generalizing w with
  | finish result => rfl
  | look next ih => exact ih w.graph
  | register r next ih =>
    have hfirst : (r.request.reply note w).2 = (r.run w).2 := r.after_request
    simp only [registrations, List.map_cons, Workshop.after, List.foldl_cons, hfirst, run] at ih ⊢
    exact ih _

theorem BuildStep.after_requests (step : BuildStep σ ι) :
    w.after note (step.requests depth w) = (step.run note depth w).2 := by
  cases step with
  | register m => exact m.after_registrations
  | invoke i => rfl

/-- Steps in turn do to a graph what is requested of it. -/
theorem after_stepRequests (steps : List (BuildStep σ ι)) :
    w.after note (stepRequests note depth steps w) =
      (inTurn (BuildStep.run note depth) steps w).2 := by
  induction steps generalizing w with
  | nil => rfl
  | cons step rest ih =>
    have hfirst : w.after note (step.requests depth w) = (step.run note depth w).2 :=
      step.after_requests
    unfold stepRequests
    cases hrun : step.run note depth w with | mk outcome w₁ =>
    rw [hrun] at hfirst
    by_cases hok : outcome = .ok ()
    · subst hok
      rw [inTurn_cons_ok hrun, Workshop.after_append, hfirst]
      exact ih
    · rw [inTurn_cons_stopped hrun hok]
      cases outcome with
      | ok value => exact absurd rfl hok
      | error e => rw [List.append_nil, hfirst]
      | interrupted why => rw [List.append_nil, hfirst]

/-- Building an application leaves the graph that its requests to a new one leave. -/
theorem Builder.buildWithin_chronicle (world : σ) (lifecycle shutdowner : ι)
    (beside : Option (Graph σ ι)) (calls : List (ChainCall σ ι)) :
    ((chain world lifecycle shutdowner beside calls).buildWithin note depth).2 =
      (Chronicle.among note world beside
        (requests note depth world lifecycle shutdowner beside calls)).workshop := by
  have hbeginning : (beginning world lifecycle shutdowner beside).workshop =
      Workshop.after note ⟨.empty, beside, world⟩
        [.supply (Key.of lifecycleType) lifecycle, .supply (Key.of shutdownerType) shutdowner] := by
    cases beside <;> rfl
  rw [buildWithin_chain, Chronicle.among, Chronicle.foldl_workshop, requests,
    Workshop.after_append, ← hbeginning, after_stepRequests]

end

/-- Whatever is registered, resolved and invoked, and by whatever calls an application is put
together and built, all components in the graph are of the types of their keys. So no resolution as
the type of its key is refused, neither from outside nor by a constructor, and an argument with a
value is refused exactly as a type that is not the one of the key of the first input of its name. -/
theorem typed_access_sound (note : Notice → σ → σ) (world : σ) (beside : Option (Graph σ ι)) :
    (∀ requests, (Chronicle.among note world beside requests).Typed ∧
      ∀ depth key name,
        (resolveTyped (resolveWithin note depth) key
          (Chronicle.among note world beside requests).workshop).1 ≠
            .error (.downcastFailed name)) ∧
    (∀ depth key (w : Workshop σ ι) e,
      (resolveWithin note depth key w).1 = .error e → e.isMiscast = false) ∧
    ∀ depth lifecycle shutdowner calls,
      ((Builder.chain world lifecycle shutdowner beside calls).buildWithin note depth).2 =
        (Chronicle.among note world beside
          (Builder.requests note depth world lifecycle shutdowner beside calls)).workshop := by
  refine ⟨fun requests => ⟨Chronicle.typed note world beside requests, fun depth key name => ?_⟩,
    fun depth key w e h => (resolveWithin_error h).isMiscast,
    fun depth lifecycle shutdowner calls => Builder.buildWithin_chronicle ..⟩
  rw [resolveTyped_eq fun item => Chronicle.resolved_typed]
  intro hcast
  generalize hresolve : (resolveWithin note depth key
    (Chronicle.among note world beside requests).workshop).1 = outcome at hcast
  cases outcome with
  | ok item => cases hcast
  | interrupted why => cases hcast
  | error e =>
    cases hcast
    cases (resolveWithin_error hresolve).isMiscast

/-- The page has the type of its key. The store among its parts is refused as a clock and not as a
store, and a cache that nobody registered is not refused as another type. -/
theorem partedPage_typed :
    let c := Chronicle.among (fun _ calls => calls + 1) 0 none partedPage
    c.workshop.graph.item? (.of ⟨"Page"⟩) = some ⟨⟨"Page"⟩, 3⟩ ∧
      (∃ args, c.deeds[3]?.bind Deed.args? = some args ∧
        (∃ name, args.get "part" ⟨"Clock"⟩ = .error (.downcastFailed name)) ∧
        ¬∃ name, args.optional "part" ⟨"Store"⟩ = .error (.downcastFailed name)) ∧
      ∃ e, (resolveWithin (fun _ calls => calls + 1) 2 (.of ⟨"Cache"⟩) c.workshop).1 = .error e ∧
        e.isMiscast = false := by
  intro c
  obtain ⟨hall, herror, -⟩ := typed_access_sound (fun _ calls => calls + 1) 0
    (none : Option (Graph Nat Nat))
  have htyped : c.Typed := (hall partedPage).1
  let args : Args Nat := ⟨.of ⟨"Page"⟩,
    [(.of "part" ⟨"Store"⟩, some ⟨⟨"Store"⟩, 7⟩),
      ((Param.of "cache" ⟨"Cache"⟩).asOptional, none),
      (.of "part" ⟨"Clock"⟩, some ⟨⟨"Clock"⟩, 12⟩)]⟩
  have hcalled : c.deeds[3]? = some (.called args.owner args.entries) := rfl
  have hargs : args.Typed :=
    htyped.arguments _ (List.mem_of_getElem? hcalled) args rfl
  have hfirst : args.params.FirstAt 0 (.of "part" ⟨"Store"⟩) :=
    ⟨rfl, fun m hm => absurd hm (Nat.not_lt_zero m)⟩
  have hstore (type : ComponentType) := hargs 0 _ ⟨⟨"Store"⟩, 7⟩ hfirst rfl type
  refine ⟨rfl, ⟨args, rfl, (hstore ⟨"Clock"⟩).1.2 (by decide), ?_⟩, _, rfl,
    herror 2 (.of ⟨"Cache"⟩) c.workshop _ rfl⟩
  exact fun hcast => (hstore ⟨"Store"⟩).2.1 hcast rfl

end ServiceHost
