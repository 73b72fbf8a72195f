import ServiceHost.Proofs.Graph.Agreement
import ServiceHost.Proofs.Graph.Retry

/-!
# What an invocation does for its inputs

An invocation finds the components of its inputs by a way of its own: it checks each of them, also
those that are there, and builds it with the owner of the arguments on the way. It might as well
resolve the inputs, one after another from left to right, as anybody else would (`Finding.of`). The
check passes what is there as long as no construction has ended in a panic (`fetch_eq_resolve`), and
the owner stands on no way to a component, for nothing is registered under its key
(`build_unregistered`, `buildTrace_unregistered`). So both call the same constructors and come to
the same components, errors and caches (`gather_finding`), and the function is called once if all
inputs were found, and not at all otherwise (`invocation_resolves_inputs`).
-/

namespace ServiceHost

variable {σ ι ε ε' α β : Type}

/-- What comes of a cause, if there is one. -/
def Outcome.mapError (f : ε → ε') : Outcome ε α → Outcome ε' α
  | .ok value => .ok value
  | .error cause => .error (f cause)
  | .interrupted why => .interrupted why

/-! ## Inputs from left to right -/

/-- How far inputs have been found: what was seen, what was found for them, in order, unless one of
them could not be had, and the graph at work. -/
structure Finding (σ ι : Type) where
  seen : List (Deed σ ι)
  found : Outcome GraphError (Entries ι)
  workshop : Workshop σ ι

namespace Finding

/-- The next input is resolved if something is registered under its key. It is left out if it is
optional and nothing is, and it is missing otherwise. Nothing is done after an input that could not
be had. -/
def next (note : Notice → σ → σ) (depth : Nat) (owner : Key) (f : Finding σ ι) (p : Param) :
    Finding σ ι :=
  match f.found with
  | .error _ => f
  | .interrupted _ => f
  | .ok entries =>
    if f.workshop.graph.contains p.key then
      ⟨f.seen ++ resolveWithinDeeds note depth p.key f.workshop,
        (resolveWithin note depth p.key f.workshop).1.map fun item => entries ++ [(p, some item)],
        (resolveWithin note depth p.key f.workshop).2⟩
    else if p.optional then { f with found := .ok (entries ++ [(p, none)]) }
    else { f with found := .error (.missingDependency p.key (some owner)) }

/-- The inputs are found from left to right. -/
def of (note : Notice → σ → σ) (depth : Nat) (owner : Key) (inputs : Inputs) (w : Workshop σ ι) :
    Finding σ ι :=
  inputs.foldl (next note depth owner) ⟨[], .ok [], w⟩

end Finding

section
variable {note : Notice → σ → σ} {depth : Nat} {w w' : Workshop σ ι} {owner key : Key}
  {node : Node σ ι} {inputs : Inputs}

/-! ## Under an owner that is not registered -/

/-- What is seen while inputs are found in two ways is the same if it is so of each of them, in
every state that is come to. -/
theorem gatherTrace_congr {P : Workshop σ ι → Prop}
    {find find' : Key → Node σ ι → Workshop σ ι → Outcome GraphError (Instance ι) × Workshop σ ι}
    {seen seen' : Key → Node σ ι → Workshop σ ι → List (Deed σ ι)}
    (hsame : ∀ key node w, P w → w.graph.node? key = some node →
      find key node w = find' key node w ∧ seen key node w = seen' key node w)
    (hkeep : ∀ key node w, P w → w.graph.node? key = some node → P (find key node w).2)
    (h : P w) : gatherTrace find seen inputs w = gatherTrace find' seen' inputs w := by
  induction inputs generalizing w with
  | nil => rfl
  | cons p rest ih =>
    unfold gatherTrace
    cases hnode : w.graph.node? p.key with
    | none => simp only [ih h]
    | some node =>
      have hnext := hkeep p.key node w h hnode
      obtain ⟨hfind, hseen⟩ := hsame p.key node w h hnode
      simp only [← hfind, ← hseen]
      generalize find p.key node w = r at hnext
      obtain ⟨outcome, w₁⟩ := r
      cases outcome with
      | ok item => simp only [ih hnext]
      | error e => rfl
      | interrupted why => rfl

/-- An owner that is not registered stands on no way to a component, and so what is seen of its
construction is the same. -/
theorem buildTrace_unregistered (note : Notice → σ → σ) (depth : Nat) (path : List Key)
    (hdetached : w.graph.Detached) (hnone : w.graph.node? owner = none)
    (hnode : w.graph.node? key = some node) :
    buildTrace Deed.of note depth (owner :: path) key node w =
      buildTrace Deed.of note depth path key node w := by
  induction depth generalizing path key node w with
  | zero => cases node <;> rfl
  | succ depth ih =>
    cases node with
    | value item => rfl
    | recipe inputs construct cache =>
    have hother : key ≠ owner := by
      rintro rfl
      cases hnone.symm.trans hnode
    have hmem : key ∈ owner :: path ↔ key ∈ path := by
      rw [List.mem_cons, or_iff_right hother]
    have hlock := Graph.Advanced.lock w.graph key
    have hsame (k : Key) (node : Node σ ι) (w' : Workshop σ ι)
        (hbefore : w.graph.Advanced w'.graph) (hk : w'.graph.node? k = some node) :
        build note depth (owner :: (path ++ [key])) k node w' =
            build note depth (path ++ [key]) k node w' ∧
          buildTrace Deed.of note depth (owner :: (path ++ [key])) k node w' =
            buildTrace Deed.of note depth (path ++ [key]) k node w' :=
      ⟨build_unregistered note depth _ (hbefore.later.detached hdetached)
          ((hbefore.later.none owner).2 hnone) hk,
        ih (path ++ [key]) (hbefore.later.detached hdetached)
          ((hbefore.later.none owner).2 hnone) hk⟩
    have hkeep (k : Key) (node : Node σ ι) (w' : Workshop σ ι)
        (hbefore : w.graph.Advanced w'.graph) (hk : w'.graph.node? k = some node) :
        w.graph.Advanced (build note depth (owner :: (path ++ [key])) k node w').2.graph :=
      hbefore.trans (build_advanced note depth _ k node w'
        (hbefore.later.detached hdetached) hk)
    have hgather : gather key (build note depth (owner :: (path ++ [key]))) inputs
        { w with graph := w.graph.lock key } = gather key (build note depth (path ++ [key])) inputs
          { w with graph := w.graph.lock key } :=
      gather_congr (P := fun w' => w.graph.Advanced w'.graph)
        (fun k node w' hbefore hk => (hsame k node w' hbefore hk).1) hkeep hlock
    have hdeeds : gatherTrace (build note depth (owner :: (path ++ [key])))
        (buildTrace Deed.of note depth (owner :: (path ++ [key]))) inputs
          { w with graph := w.graph.lock key } =
        gatherTrace (build note depth (path ++ [key]))
          (buildTrace Deed.of note depth (path ++ [key])) inputs
            { w with graph := w.graph.lock key } :=
      gatherTrace_congr (P := fun w' => w.graph.Advanced w'.graph) hsame hkeep hlock
    simp only [buildTrace, hmem, List.cons_append, hgather, hdeeds, Deed.of_called, Callee.call]

/-! ## One input -/

/-- An invocation finds an input as if it were resolved, and calls the same constructors for it. -/
theorem fetch_eq_resolve (hidle : w.Idle) (hunmarked : w.graph.Unmarked) (hdepth : 0 < depth)
    (howner : w.graph.node? owner = none) (hnode : w.graph.node? key = some node) :
    fetch note depth owner key node w = resolveWithin note depth key w ∧
      calls (fetchTrace Deed.of note depth owner key node w) =
        calls (resolveWithinDeeds note depth key w) := by
  have hbuild : build note depth [owner] key node w = build note depth [] key node w :=
    build_unregistered note depth [] hidle.detached howner hnode
  have hdeeds : buildTrace Deed.of note depth [owner] key node w =
      buildTrace Deed.of note depth [] key node w :=
    buildTrace_unregistered note depth [] hidle.detached howner hnode
  unfold fetch fetchTrace resolveWithin resolveWith resolveWithinDeeds resolveWithinTrace
    resolveTrace
  rw [hnode, hbuild, hdeeds]
  dsimp only
  cases havailable : node.available with
  | none => cases w.graph.verify key node <;> exact ⟨rfl, rfl⟩
  | some item =>
    -- the check passes what is there, and the construction hands it out
    have hitem : node.item? = some item := Node.item?_of_available havailable
    have hverify : w.graph.verify key node = .ok () := by
      refine (Graph.verify_ok_iff ⟨hidle.unlocked, hunmarked⟩ hnode).2 ?_
      rintro ⟨_, ⟨⟨inputs, hunbuilt⟩, _⟩, _⟩
      cases hunbuilt.item?.symm.trans ((Graph.item?_of_node? hnode).trans hitem)
    rw [hverify]
    cases node with
    | value =>
      cases hitem
      rw [build_value]
      cases depth <;> exact ⟨rfl, rfl⟩
    | recipe inputs construct cache =>
      have hfree := hidle.unlocked.free hnode List.not_mem_nil
      have hmade : cache.made = some item := hitem
      rw [build_made hdepth List.not_mem_nil hfree hmade]
      obtain ⟨depth, rfl⟩ := Nat.exists_eq_add_one_of_ne_zero (Nat.ne_zero_of_lt hdepth)
      refine ⟨rfl, ?_⟩
      rw [buildTrace, if_pos (.inr (.inr (by rw [hmade]; rfl)))]
      rfl

/-- A key that was resolved leaves the graph idle and unmarked. -/
theorem resolveWithin_rested {item : Instance ι} (hidle : w.Idle) (hunmarked : w.graph.Unmarked)
    (h : resolveWithin note depth key w = (.ok item, w')) : w'.Idle ∧ w'.graph.Unmarked := by
  have hkept := @resolve_kept _ _ w note depth hidle key
  rw [h] at hkept
  have hrested := (hkept (Option.some_ne_none _).symm).rested hidle
  exact ⟨hrested.idle, hrested.unmarked (fun _ => (Option.some_ne_none _).symm) hunmarked⟩

/-! ## All inputs -/

/-- Nothing more is found after an input that could not be had. -/
theorem Finding.foldl_stopped {f : Finding σ ι} (h : ∀ entries, f.found ≠ .ok entries) :
    inputs.foldl (Finding.next note depth owner) f = f := by
  induction inputs with
  | nil => rfl
  | cons p rest ih =>
    have hnext : f.next note depth owner p = f := by
      obtain ⟨seen, found, w⟩ := f
      cases found with
      | ok entries => exact absurd rfl (h entries)
      | error e => rfl
      | interrupted why => rfl
    rw [List.foldl_cons, hnext, ih]

theorem Finding.next_registered {p : Param} (hcontains : w.graph.contains p.key = true)
    (seen : List (Deed σ ι)) (entries : Entries ι) :
    Finding.next note depth owner ⟨seen, .ok entries, w⟩ p =
      ⟨seen ++ resolveWithinDeeds note depth p.key w,
        (resolveWithin note depth p.key w).1.map fun item => entries ++ [(p, some item)],
        (resolveWithin note depth p.key w).2⟩ :=
  if_pos hcontains

theorem Finding.next_unregistered {p : Param} (hcontains : w.graph.contains p.key = false)
    (seen : List (Deed σ ι)) (entries : Entries ι) :
    Finding.next note depth owner ⟨seen, .ok entries, w⟩ p =
      ⟨seen, if p.optional then .ok (entries ++ [(p, none)])
        else .error (.missingDependency p.key (some owner)), w⟩ := by
  unfold Finding.next
  simp only [hcontains, Bool.false_eq_true, if_false]
  cases p.optional <;> rfl

/-- Finding inputs as an invocation does comes to what resolving them from left to right comes to,
after whatever was found before. -/
theorem gather_finding (hidle : w.Idle) (hunmarked : w.graph.Unmarked) (hdepth : 0 < depth)
    (howner : w.graph.node? owner = none) (seen : List (Deed σ ι)) (entries : Entries ι) :
    let f := inputs.foldl (Finding.next note depth owner) ⟨seen, .ok entries, w⟩
    let r := gather owner (fetch note depth owner) inputs w
    f.found = r.1.map (entries ++ ·) ∧ f.workshop = r.2 ∧
      calls f.seen = calls seen ++
        calls (gatherTrace (fetch note depth owner) (fetchTrace Deed.of note depth owner)
          inputs w) := by
  induction inputs generalizing w seen entries with
  | nil => exact ⟨by simp [gather, Outcome.map], rfl, (List.append_nil _).symm⟩
  | cons p rest ih =>
    rw [List.foldl_cons]
    unfold gather gatherTrace
    cases hnode : w.graph.node? p.key with
    | none =>
      have hcontains : w.graph.contains p.key = false := by simp [Graph.contains, hnode]
      rw [Finding.next_unregistered hcontains]
      cases hoptional : p.optional with
      | false =>
        simp only [Bool.false_eq_true, if_false]
        rw [Finding.foldl_stopped fun _ h => by cases h]
        exact ⟨rfl, rfl, (List.append_nil _).symm⟩
      | true =>
        simp only [if_true]
        obtain ⟨hfound, hworkshop, hcalls⟩ :=
          ih hidle hunmarked howner seen (entries ++ [(p, none)])
        rw [hfound, hworkshop, hcalls]
        generalize gather owner (fetch note depth owner) rest w = r
        obtain ⟨outcome, w₁⟩ := r
        cases outcome <;> simp [Outcome.map]
    | some node =>
      have hcontains : w.graph.contains p.key = true := by simp [Graph.contains, hnode]
      obtain ⟨hfetch, hseen⟩ :=
        @fetch_eq_resolve _ _ note depth w owner p.key node hidle hunmarked hdepth howner hnode
      have hadvanced := @resolveWithin_advanced _ _ w note depth p.key hidle.detached
      rw [Finding.next_registered hcontains]
      simp only [hfetch]
      obtain ⟨outcome, w₁, hresolve⟩ :
          ∃ outcome w₁, resolveWithin note depth p.key w = (outcome, w₁) := ⟨_, _, rfl⟩
      rw [hresolve] at hadvanced ⊢
      cases outcome with
      | error e =>
        rw [Finding.foldl_stopped fun _ h => by cases h]
        exact ⟨rfl, rfl, by rw [calls_append, hseen]⟩
      | interrupted why =>
        rw [Finding.foldl_stopped fun _ h => by cases h]
        exact ⟨rfl, rfl, by rw [calls_append, hseen]⟩
      | ok item =>
        obtain ⟨hidle₁, hunmarked₁⟩ := resolveWithin_rested hidle hunmarked hresolve
        obtain ⟨hfound, hworkshop, hcalls⟩ := ih hidle₁ hunmarked₁
          ((hadvanced.later.none owner).2 howner) (seen ++ resolveWithinDeeds note depth p.key w)
          (entries ++ [(p, some item)])
        simp only [Outcome.map]
        rw [hfound, hworkshop, hcalls]
        simp only [calls_append, hseen, List.append_assoc]
        generalize gather owner (fetch note depth owner) rest w₁ = r
        obtain ⟨outcome, w₂⟩ := r
        cases outcome <;> simp [Outcome.map]

/-- What was found for inputs stands in their order. -/
theorem gather_inputs
    {find : Key → Node σ ι → Workshop σ ι → Outcome GraphError (Instance ι) × Workshop σ ι}
    {entries : Entries ι} (h : gather owner find inputs w = (.ok entries, w')) :
    entries.map Prod.fst = inputs := by
  induction inputs generalizing w entries with
  | nil =>
    cases h
    rfl
  | cons p rest ih =>
    rcases gather_cons_ok h with ⟨more, -, -, hrest, rfl⟩ | ⟨_, _, w₁, more, -, -, hrest, rfl⟩
    · rw [List.map_cons, ih hrest]
    · rw [List.map_cons, ih hrest]

end

/-! ## The function -/

/-- The call of a function, with its arguments. -/
def Deed.invocation? : Deed σ ι → Option (Key × Entries ι)
  | .invoked owner entries => some (owner, entries)
  | _ => none

/-- The functions that were called, with their arguments, in order. -/
def invocations (seen : List (Deed σ ι)) : List (Key × Entries ι) :=
  seen.filterMap Deed.invocation?

@[simp]
theorem invocations_append (seen more : List (Deed σ ι)) :
    invocations (seen ++ more) = invocations seen ++ invocations more :=
  List.filterMap_append

/-- No function is called if none is by any of the things that happen. -/
theorem invocations_flatMap {trace : List (Happening σ ι)}
    (h : ∀ x ∈ trace, invocations (Deed.of x) = []) : invocations (trace.flatMap Deed.of) = [] := by
  induction trace with
  | nil => rfl
  | cons x rest ih =>
    rw [List.flatMap_cons, invocations_append, h x List.mem_cons_self,
      ih fun y hy => h y (List.mem_cons_of_mem x hy), List.append_nil]

/-- What can happen when nothing is requested calls no function. -/
theorem Happening.Sound.uninvoked {x : Happening σ ι} (h : x.Sound []) :
    invocations (Deed.of x) = [] := by
  cases h with
  | @registering key node w =>
    cases node with
    | recipe => rfl
    | value item =>
      dsimp only [Deed.of]
      split <;> rfl
  | checked key graph => rfl
  | made key value => rfl
  | resolved key item => rfl
  | @called G entries hresult hdeclared =>
    rw [Deed.of_called]
    unfold Gathering.Declared at hdeclared
    cases hcallee : G.callee with
    | constructorOf key => rfl
    | function name =>
      rw [hcallee] at hdeclared
      obtain ⟨depth, function, hmem⟩ := hdeclared
      cases hmem

/-! ## The invocation -/

section
variable {note : Notice → σ → σ} {depth : Nat} {name : String} {inputs : Inputs}
  {w w' : Workshop σ ι}

/-- No function is called while an invocation finds its inputs. -/
theorem gatherTrace_uninvoked (owner : Key) (inputs : Inputs) (w : Workshop σ ι) :
    invocations (gatherTrace (fetch note depth owner) (fetchTrace Deed.of note depth owner)
      inputs w) = [] := by
  rw [gatherTrace_eq (fetchTrace_eq Deed.of note depth owner)]
  exact invocations_flatMap fun x hx =>
    (gatherTrace_sound (fetchTrace_sound note depth owner) inputs w x hx).uninvoked

/-- What runs calls no function. -/
theorem Program.trace_uninvoked (p : Program σ ι) (w : Workshop σ ι) :
    invocations (p.trace Deed.of (resolveWithin note depth) (resolveWithinDeeds note depth) w) =
      [] := by
  rw [Program.trace_eq (resolveWithinTrace_eq Deed.of note depth)]
  exact invocations_flatMap fun x hx =>
    (Program.trace_sound (resolveWithinTrace_sound note depth) p w x hx).uninvoked

/-- The function is not called if an input fails. -/
theorem invocation_failed {e : GraphError} (function : Args ι → Program σ ι)
    (h : gather (invocationKey name) (fetch note depth (invocationKey name)) inputs w =
      (.error e, w')) :
    invokeWithin note depth name inputs function w = (.error e, w') ∧
      invokeDeeds note depth name inputs function w =
        gatherTrace (fetch note depth (invocationKey name))
          (fetchTrace Deed.of note depth (invocationKey name)) inputs w := by
  unfold invokeDeeds invokeTrace
  rw [invokeWithin_eq]
  simp only [h, List.append_nil, and_self]

/-- The function is not called if an input never returns. -/
theorem invocation_interrupted {why : Interruption} (function : Args ι → Program σ ι)
    (h : gather (invocationKey name) (fetch note depth (invocationKey name)) inputs w =
      (.interrupted why, w')) :
    invokeWithin note depth name inputs function w = (.interrupted why, w') ∧
      invokeDeeds note depth name inputs function w =
        gatherTrace (fetch note depth (invocationKey name))
          (fetchTrace Deed.of note depth (invocationKey name)) inputs w := by
  unfold invokeDeeds invokeTrace
  rw [invokeWithin_eq]
  simp only [h, List.append_nil, and_self]

/-- The function is called with what was found for the inputs, and its failure is told. -/
theorem invocation_called {entries : Entries ι} (function : Args ι → Program σ ι)
    (h : gather (invocationKey name) (fetch note depth (invocationKey name)) inputs w =
      (.ok entries, w')) :
    let ready := { w' with world := note (.invoking (invocationKey name)) w'.world }
    let called := (function ⟨invocationKey name, entries⟩).run (resolveWithin note depth) ready
    invokeWithin note depth name inputs function w =
        (called.1.mapError (.invokeFailed name), called.2) ∧
      invokeDeeds note depth name inputs function w =
        gatherTrace (fetch note depth (invocationKey name))
            (fetchTrace Deed.of note depth (invocationKey name)) inputs w ++
          .invoked (invocationKey name) entries ::
            (function ⟨invocationKey name, entries⟩).trace Deed.of (resolveWithin note depth)
              (resolveWithinDeeds note depth) ready := by
  intro ready called
  unfold invokeDeeds invokeTrace
  rw [invokeWithin_eq]
  simp only [h]
  refine ⟨?_, rfl⟩
  obtain ⟨outcome, w₂, hcalled⟩ : ∃ outcome w₂, called = (outcome, w₂) := ⟨_, _, rfl⟩
  rw [show (function ⟨invocationKey name, entries⟩).run (resolveWithin note depth) ready =
    (outcome, w₂) from hcalled, hcalled]
  cases outcome <;> rfl

/-- An invocation does what resolving its inputs from left to right does, whatever the graph has
come to without a panic. It ends like the first of them that could not be had, and then no function
is called. Otherwise the function is called once, with what was found for the inputs in their order,
and its failure is told as the failure of the invocation. Nothing is registered under the key that
stands for the invoked function. -/
theorem invocation_resolves_inputs {whys : List Interruption}
    (h : Workshop.Reached note whys w) (hdeep : .tooDeep ∉ whys)
    (hcalm : ∀ text, .panic text ∉ whys) (hdepth : 0 < depth)
    (howner : w.graph.node? (invocationKey name) = none) (function : Args ι → Program σ ι) :
    let owner := invocationKey name
    let finding := Finding.of note depth owner inputs w
    let result := invokeWithin note depth name inputs function w
    let seen := invokeDeeds note depth name inputs function w
    (∀ e, finding.found = .error e → result = (.error e, finding.workshop) ∧
      invocations seen = [] ∧ calls seen = calls finding.seen) ∧
    (∀ why, finding.found = .interrupted why → result = (.interrupted why, finding.workshop) ∧
      invocations seen = [] ∧ calls seen = calls finding.seen) ∧
    ∀ entries, finding.found = .ok entries →
      let ready := { finding.workshop with
        world := note (.invoking owner) finding.workshop.world }
      let called := (function ⟨owner, entries⟩).run (resolveWithin note depth) ready
      entries.map Prod.fst = inputs ∧
      result = (called.1.mapError (.invokeFailed name), called.2) ∧
      invocations seen = [(owner, entries)] ∧
      calls seen = calls finding.seen ++ calls ((function ⟨owner, entries⟩).trace Deed.of
        (resolveWithin note depth) (resolveWithinDeeds note depth) ready) := by
  intro owner finding result seen
  obtain ⟨hidle, hclean⟩ := h.rested hdeep
  obtain ⟨hfound, hworkshop, hcalls⟩ :=
    @gather_finding _ _ note depth w owner inputs hidle (hclean hcalm) hdepth howner [] []
  have hquiet := @gatherTrace_uninvoked _ _ note depth owner inputs w
  obtain ⟨outcome, w₁, hgather⟩ : ∃ outcome w₁,
    gather owner (fetch note depth owner) inputs w = (outcome, w₁) := ⟨_, _, rfl⟩
  rw [hgather] at hfound hworkshop
  obtain rfl : finding.workshop = w₁ := hworkshop
  have hcalls : calls finding.seen = calls (gatherTrace (fetch note depth owner)
    (fetchTrace Deed.of note depth owner) inputs w) := hcalls
  have hfound : finding.found = outcome := by
    refine Eq.trans hfound ?_
    cases outcome <;> rfl
  rw [hfound]
  refine ⟨?failed, ?stopped, ?called⟩
  case failed =>
    rintro e rfl
    obtain ⟨hresult, hseen⟩ := invocation_failed function hgather
    refine ⟨hresult, ?_, ?_⟩
    · rw [show seen = _ from hseen, hquiet]
    · rw [show seen = _ from hseen, hcalls]
  case stopped =>
    rintro why rfl
    obtain ⟨hresult, hseen⟩ := invocation_interrupted function hgather
    refine ⟨hresult, ?_, ?_⟩
    · rw [show seen = _ from hseen, hquiet]
    · rw [show seen = _ from hseen, hcalls]
  case called =>
    rintro entries rfl ready called
    obtain ⟨hresult, hseen⟩ := invocation_called function hgather
    have hafter := @Program.trace_uninvoked _ _ note depth (function ⟨owner, entries⟩) ready
    refine ⟨gather_inputs hgather, hresult, ?_, ?_⟩
    · rw [show seen = _ from hseen, invocations_append, hquiet, List.nil_append]
      exact congrArg ((owner, entries) :: ·) hafter
    · rw [show seen = _ from hseen, calls_append, ← hcalls]
      rfl

end

/-- A page that shows what is in a store. -/
def storedPage : Workshop Nat Nat :=
  let new : Workshop Nat Nat := ⟨.empty, none, 0⟩
  let store := (new.register (.of ⟨"Store"⟩)
    (.ofRecipe [] fun _ => .read fun calls => .finish (.ok calls))).2
  (store.register (.of ⟨"Page"⟩)
    (.ofRecipe [.of "store" ⟨"Store"⟩] fun _ => .read fun calls => .finish (.ok calls))).2

theorem storedPage_reached : Workshop.Reached (fun _ calls => calls + 1) [] storedPage :=
  .provide (.provide (.new 0) _ _ fun _ => .read fun _ => .finish _) _ _ fun _ =>
    .read fun _ => .finish _

/-- A function that asks for the store twice, for a cache if there is one and for the page is called
with one store and one page, and without a cache. It is told to have failed. -/
theorem storedPage_reported :
    let store : Param := .of "store" ⟨"Store"⟩
    let cache : Param := (Param.of "cache" ⟨"Cache"⟩).asOptional
    let page : Param := .of "page" ⟨"Page"⟩
    let inputs : Inputs := [store, { store with field := "again" }, cache, page]
    let report : Args Nat → Program Nat Nat := fun _ => .finish (.error ⟨"no printer", []⟩)
    let result := invokeWithin (fun _ calls => calls + 1) 3 "report" inputs report storedPage
    let seen := invokeDeeds (fun _ calls => calls + 1) 3 "report" inputs report storedPage
    result.1 = .error (.invokeFailed "report" ⟨"no printer", []⟩) ∧
      invocations seen = [(invocationKey "report",
        [(store, some ⟨⟨"Store"⟩, 1⟩), ({ store with field := "again" }, some ⟨⟨"Store"⟩, 1⟩),
          (cache, none), (page, some ⟨⟨"Page"⟩, 2⟩)])] ∧
      calls seen = [(.of ⟨"Store"⟩, []), (.of ⟨"Page"⟩, [(store, some ⟨⟨"Store"⟩, 1⟩)])] := by
  intro store cache page inputs report result seen
  obtain ⟨-, -, hcalled⟩ := @invocation_resolves_inputs _ _ _ 3 "report" inputs _ []
    storedPage_reached List.not_mem_nil (fun _ => List.not_mem_nil) (by decide) rfl report
  obtain ⟨-, hresult, hinvocations, hcalls⟩ := hcalled _ rfl
  refine ⟨?_, hinvocations, ?_⟩
  · rw [show result = _ from hresult]
    rfl
  · rw [show calls seen = _ from hcalls]
    decide

end ServiceHost
