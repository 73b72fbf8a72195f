import ServiceHost.Proofs.Graph.Advance

/-!
# Trying again

An error in how a graph was put together does not go away by trying again. A key that is refused by
the check stays refused, with the same error, whatever else is made meanwhile, for the check judges
every key as it did before (`resolveWithin_refused`). What passes the check can only fail in a
constructor, so every other error of this kind comes from the check or from a key that is not
registered. An invocation finds its inputs one by one; those before the one that is refused were
made, and are found again (`gather_refused`). `configuration_errors_persist` says so of each way to
make a request, and of registrations.
-/

namespace ServiceHost

variable {σ ι : Type} {note : Notice → σ → σ} {depth : Nat} {w w' w₁ : Workshop σ ι}
  {owner key : Key} {node : Node σ ι} {e : GraphError}

/-! ## Under an owner that is not registered -/

/-- Finding inputs in two ways is the same if finding each of them is, in every state that is come
to. -/
theorem gather_congr {P : Workshop σ ι → Prop} {inputs : Inputs}
    {find find' : Key → Node σ ι → Workshop σ ι → Outcome GraphError (Instance ι) × Workshop σ ι}
    (hsame : ∀ key node w, P w → w.graph.node? key = some node →
      find key node w = find' key node w)
    (hkeep : ∀ key node w, P w → w.graph.node? key = some node → P (find key node w).2)
    (h : P w) : gather owner find inputs w = gather owner find' inputs w := by
  induction inputs generalizing w with
  | nil => rfl
  | cons p rest ih =>
    unfold gather
    cases hnode : w.graph.node? p.key with
    | none => simp only [ih h]
    | some node =>
      have hnext := hkeep p.key node w h hnode
      simp only [← hsame p.key node w h hnode]
      generalize find p.key node w = r at hnext
      obtain ⟨outcome, w₁⟩ := r
      cases outcome with
      | ok item => simp only [ih hnext]
      | error e => rfl
      | interrupted why => rfl

/-- An owner that is not registered stands on no way to a component, and so it does not matter that
its inputs are being built. -/
theorem build_unregistered (note : Notice → σ → σ) (depth : Nat) (path : List Key)
    (hdetached : w.graph.Detached) (hnone : w.graph.node? owner = none)
    (hnode : w.graph.node? key = some node) :
    build note depth (owner :: path) key node w = build note depth path key node w := by
  induction depth generalizing path key node w with
  | zero => cases node <;> rfl
  | succ depth ih =>
    cases node with
    | value item => rfl
    | recipe inputs construct cache =>
    have hother : owner ≠ key := by
      rintro rfl
      cases hnone.symm.trans hnode
    have hmem : key ∈ owner :: path ↔ key ∈ path := by
      rw [List.mem_cons, or_iff_right hother.symm]
    have hcycle : circular (owner :: path) key = circular path key := by
      have hskip : (owner != key) = true := bne_iff_ne.2 hother
      rw [circular, circular, List.dropWhile_cons, if_pos hskip]
    have hlock := Graph.Advanced.lock w.graph key
    have hgather : gather key (build note depth (owner :: (path ++ [key]))) inputs
          { w with graph := w.graph.lock key } =
        gather key (build note depth (path ++ [key])) inputs
          { w with graph := w.graph.lock key } := by
      refine gather_congr (P := fun w' => w.graph.Advanced w'.graph)
        (fun k node w' hbefore hk => ?_) (fun k node w' hbefore hk => ?_) hlock
      · exact ih (path ++ [key]) (hbefore.later.detached hdetached)
          ((hbefore.later.none owner).2 hnone) hk
      · exact hbefore.trans (build_advanced note depth _ k node w'
          (hbefore.later.detached hdetached) hk)
    simp only [build, hmem, hcycle, List.cons_append, hgather]

/-! ## What passes the check -/

/-- What passes the check is there, or only its constructor or one below it can fail, also if more
was made since. -/
theorem build_verified {node' : Node σ ι} (hcalm : w.graph.Calm)
    (hadvanced : w.graph.Advanced w'.graph) (hidle : w'.Idle) (hdepth : w.graph.size < depth)
    (hnode : w.graph.node? key = some node) (hverify : w.graph.verify key node = .ok ())
    (hnode' : w'.graph.node? key = some node') : (build note depth [] key node' w').1.Clean := by
  by_cases hpending : w.graph.Pending key
  · obtain ⟨done, hdone, hmem⟩ := Graph.ordered_of_verify hcalm hnode hverify hpending
    exact build_clean hdone hmem (Nat.lt_of_le_of_lt hdone.length_le hdepth)
      (fun _ ha => absurd ha List.not_mem_nil) hadvanced.later hidle.unlocked hidle.detached hnode'
  cases node with
  | value item =>
    cases hnode'.symm.trans (hadvanced.later.value _ _ hnode)
    rw [build_value]
    exact .ok item
  | recipe inputs construct cache =>
    cases hmade : cache.made with
    | none => exact absurd ⟨inputs, construct, cache, hnode, hmade⟩ hpending
    | some item =>
      obtain ⟨cache', hsame, hkept⟩ := hadvanced.later.recipe _ _ _ _ hnode
      cases hnode'.symm.trans hsame
      rw [build_made (Nat.zero_lt_of_lt hdepth) List.not_mem_nil
        (hidle.unlocked.free hnode' List.not_mem_nil) (hkept item hmade)]
      exact .ok item

theorem Outcome.Clean.not_configuration {α : Type} {outcome : Outcome GraphError α}
    (h : outcome.Clean) (herror : outcome = .error e) : e.isConfiguration = false := by
  subst herror
  cases h
  rfl

/-! ## Resolution -/

/-- A key that the check refuses is refused for good, and nothing is done for it. -/
theorem resolveWithin_refused (hcalm : w.graph.Calm) (hadvanced : w.graph.Advanced w'.graph)
    (hlocks : w'.graph.LockedIn []) (hnode : w.graph.node? key = some node)
    (hverify : w.graph.verify key node = .error e) :
    resolveWithin note depth key w' = (.error e, w') := by
  have hbroken : ∃ needed, w.graph.Needs key needed ∧ w.graph.Faulty needed := by
    refine Classical.not_not.1 fun hsound => ?_
    cases hverify.symm.trans ((Graph.verify_ok_iff hcalm hnode).2 hsound)
  have hpending : w.graph.Pending key := by
    obtain ⟨needed, hneeds, -⟩ := hbroken
    exact hneeds.1
  unfold resolveWithin resolveWith
  cases hnode' : w'.graph.node? key with
  | none => cases hnode.symm.trans ((hadvanced.later.none key).1 hnode')
  | some node' =>
    cases havailable : node'.available with
    | some item =>
      -- it would have been made since, although it could not be made
      have hmade : w'.graph.item? key ≠ none := by
        rw [Graph.item?_of_node? hnode', Node.item?_of_available havailable]
        exact Option.some_ne_none item
      exact absurd (.inr hbroken) (hadvanced.makeable key hpending hmade).sound
    | none =>
      simp only [havailable, hadvanced.verify_same hcalm hlocks hnode hnode', hverify]

/-- A key that passes the check is had for good, unless a constructor fails. -/
theorem resolveWithin_clean (hcalm : w.graph.Calm) (hadvanced : w.graph.Advanced w'.graph)
    (hidle : w'.Idle) (hdepth : w.graph.size < depth) (hnode : w.graph.node? key = some node)
    (hverify : w.graph.verify key node = .ok ()) : (resolveWithin note depth key w').1.Clean := by
  unfold resolveWithin resolveWith
  cases hnode' : w'.graph.node? key with
  | none => cases hnode.symm.trans ((hadvanced.later.none key).1 hnode')
  | some node' =>
    simp only
    cases node'.available with
    | some item => exact .ok item
    | none =>
      simp only [hadvanced.verify_same hcalm hidle.unlocked hnode hnode', hverify]
      exact build_verified hcalm hadvanced hidle hdepth hnode hverify hnode'

/-- An error in how the graph was put together comes from a key that is not registered, or from the
check. -/
theorem configuration_of_resolveWithin (hidle : w.Idle) (hunmarked : w.graph.Unmarked)
    (hdepth : w.graph.size < depth) (h : (resolveWithin note depth key w).1 = .error e)
    (hkind : e.isConfiguration = true) :
    w.graph.node? key = none ∧ e = .missingDependency key none ∨
      ∃ node, w.graph.node? key = some node ∧ w.graph.verify key node = .error e := by
  unfold resolveWithin resolveWith at h
  cases hnode : w.graph.node? key with
  | none =>
    rw [hnode] at h
    cases h
    exact .inl ⟨rfl, rfl⟩
  | some node =>
    refine .inr ⟨node, rfl, ?_⟩
    simp only [hnode] at h
    cases havailable : node.available with
    | some item =>
      rw [havailable] at h
      cases h
    | none =>
      simp only [havailable] at h
      cases hverify : w.graph.verify key node with
      | error e' =>
        rw [hverify] at h
        cases h
        rfl
      | ok =>
        rw [hverify] at h
        have hclean : (build note depth [] key node w).1.Clean :=
          build_verified ⟨hidle.unlocked, hunmarked⟩ (.refl _) hidle hdepth hnode hverify hnode
        cases hkind.symm.trans (hclean.not_configuration h)

/-- A key that was resolved in vain because of how the graph was put together is so again. -/
theorem resolveWithin_again {depth' : Nat} (hidle : w.Idle) (hunmarked : w.graph.Unmarked)
    (hdepth : w.graph.size < depth) (h : (resolveWithin note depth key w).1 = .error e)
    (hkind : e.isConfiguration = true)
    (hsequel : (resolveWithin note depth key w).2.Sequel note w') :
    (resolveWithin note depth' key w').1 = .error e := by
  have hfirst := resolveWithin_advanced note depth key hidle.detached
  have hnext : (resolveWithin note depth key w).2.Idle := by
    refine ((resolve_kept hidle key ?_).rested hidle).idle
    rw [h]
    exact (Option.some_ne_none _).symm
  have hadvanced := hfirst.trans (hsequel.advanced hnext)
  rcases configuration_of_resolveWithin hidle hunmarked hdepth h hkind with
    ⟨hnone, rfl⟩ | ⟨node, hnode, hverify⟩
  · unfold resolveWithin resolveWith
    rw [(hadvanced.later.none key).2 hnone]
  · rw [resolveWithin_refused ⟨hidle.unlocked, hunmarked⟩ hadvanced (hsequel.idle hnext).unlocked
      hnode hverify]

/-! ## Invocation -/

/-- An input that is not found because of how the graph was put together is refused by the check. -/
theorem configuration_of_fetch (hidle : w.Idle) (hunmarked : w.graph.Unmarked)
    (hdepth : w.graph.size < depth) (howner : w.graph.node? owner = none)
    (hnode : w.graph.node? key = some node)
    (h : fetch note depth owner key node w = (.error e, w₁)) (hkind : e.isConfiguration = true) :
    w.graph.verify key node = .error e ∧ w₁ = w := by
  unfold fetch at h
  cases hverify : w.graph.verify key node with
  | error e' =>
    rw [hverify] at h
    cases h
    exact ⟨rfl, rfl⟩
  | ok =>
    simp only [hverify, build_unregistered note depth [] hidle.detached howner hnode] at h
    have hclean : (build note depth [] key node w).1.Clean :=
      build_verified ⟨hidle.unlocked, hunmarked⟩ (.refl _) hidle hdepth hnode hverify hnode
    rw [h] at hclean
    cases hkind.symm.trans (hclean.not_configuration rfl)

/-- An input that was found is found again. -/
theorem fetch_again {item : Instance ι} {node' : Node σ ι} {depth' : Nat} (hidle : w.Idle)
    (hunmarked : w.graph.Unmarked) (howner : w.graph.node? owner = none)
    (hnode : w.graph.node? key = some node)
    (h : fetch note depth owner key node w = (.ok item, w₁))
    (hadvanced : w₁.graph.Advanced w'.graph) (hidle' : w'.Idle)
    (hnode' : w'.graph.node? key = some node') (hdepth' : 0 < depth') :
    fetch note depth' owner key node' w' = (.ok item, w') := by
  have hfirst := fetch_advanced note depth owner key hidle.detached hnode
  have hfound := (fetch_finds note depth owner key node w hnode).found
  rw [h] at hfirst hfound
  have hitem : node'.item? = some item :=
    (Graph.item?_of_node? hnode').symm.trans (hadvanced.later.item? (hfound item rfl))
  have hverify : w'.graph.verify key node' = .ok () := by
    rw [(hfirst.trans hadvanced).verify_same ⟨hidle.unlocked, hunmarked⟩ hidle'.unlocked hnode
      hnode']
    cases hverify : w.graph.verify key node with
    | ok => rfl
    | error e =>
      rw [fetch, hverify] at h
      cases h
  have hoff : key ∉ [owner] := by
    intro hmem
    rw [List.mem_singleton.1 hmem, howner] at hnode
    cases hnode
  rw [fetch, hverify]
  cases node' with
  | value =>
    cases hitem
    exact build_value ..
  | recipe inputs construct cache =>
    exact build_made hdepth' hoff (hidle'.unlocked.free hnode' List.not_mem_nil) hitem

/-- Inputs that could not be found because of how the graph was put together are not found later
either, and nothing is done for them. -/
theorem gather_refused {inputs : Inputs} {depth' : Nat} (hidle : w.Idle)
    (hunmarked : w.graph.Unmarked) (hdepth : w.graph.size < depth)
    (howner : w.graph.node? owner = none)
    (h : gather owner (fetch note depth owner) inputs w = (.error e, w₁))
    (hkind : e.isConfiguration = true) (hadvanced : w₁.graph.Advanced w'.graph)
    (hidle' : w'.Idle) (hdepth' : 0 < depth') :
    gather owner (fetch note depth' owner) inputs w' = (.error e, w') := by
  induction inputs generalizing w with
  | nil => cases h
  | cons p rest ih =>
    have hgather := gather_fetch_advanced note depth owner (p :: rest) hidle.detached
    rw [h] at hgather
    have hfrom : w.graph.Advanced w'.graph := hgather.trans hadvanced
    unfold gather at h ⊢
    cases hnode : w.graph.node? p.key with
    | none =>
      simp only [hnode] at h
      simp only [(hfrom.later.none p.key).2 hnode]
      cases hoptional : p.optional with
      | false =>
        rw [hoptional] at h
        cases h
        rfl
      | true =>
        simp only [hoptional, if_true] at h ⊢
        split at h
        · cases h
        · next hrest =>
          cases h
          rw [ih hidle hunmarked hdepth howner hrest]
        · cases h
    | some node =>
      simp only [hnode] at h
      obtain ⟨node', hnode'⟩ : ∃ node', w'.graph.node? p.key = some node' := by
        refine Option.ne_none_iff_exists'.1 fun hnone => ?_
        cases hnode.symm.trans ((hfrom.later.none p.key).1 hnone)
      simp only [hnode']
      obtain ⟨outcome, w₂, hfetch⟩ : ∃ outcome w₂,
          fetch note depth owner p.key node w = (outcome, w₂) := ⟨_, _, rfl⟩
      rw [hfetch] at h
      cases outcome with
      | interrupted why => cases h
      | error e' =>
        cases h
        obtain ⟨hverify, -⟩ :=
          configuration_of_fetch hidle hunmarked hdepth howner hnode hfetch hkind
        rw [← hfrom.verify_same ⟨hidle.unlocked, hunmarked⟩ hidle'.unlocked hnode hnode'] at hverify
        simp only [fetch, hverify]
      | ok item =>
        have hfirst := fetch_advanced note depth owner p.key hidle.detached hnode
        have hkept := @fetch_kept _ _ w note depth owner p.key node hidle.unlocked hidle.detached
          hnode
        rw [hfetch] at hfirst hkept
        have hrested : w.Rested none w₂ := (hkept (Option.some_ne_none _).symm).rested hidle
        have hmore := gather_fetch_advanced note depth owner rest hrested.idle.detached
        simp only at h
        split at h
        · cases h
        · next hrest =>
          cases h
          rw [hrest] at hmore
          have hclean : w₂.graph.Unmarked :=
            hrested.unmarked (fun _ => (Option.some_ne_none _).symm) hunmarked
          rw [fetch_again hidle hunmarked howner hnode hfetch (hmore.trans hadvanced) hidle' hnode'
            hdepth']
          simp only [ih hrested.idle hclean (hfirst.size ▸ hdepth)
            ((hfirst.later.none owner).2 howner) hrest]
        · cases h

/-- An invocation that fails because of how the graph was put together has not found its inputs. -/
theorem configuration_of_invokeWithin {inputs : Inputs} {name : String}
    {function : Args ι → Program σ ι}
    (h : (invokeWithin note depth name inputs function w).1 = .error e)
    (hkind : e.isConfiguration = true) :
    gather (invocationKey name) (fetch note depth (invocationKey name)) inputs w =
      (.error e, (invokeWithin note depth name inputs function w).2) := by
  rw [invokeWithin_eq] at h ⊢
  generalize gather (invocationKey name) (fetch note depth (invocationKey name)) inputs w = r at h
  obtain ⟨outcome, w₁⟩ := r
  cases outcome with
  | error e' =>
    cases h
    rfl
  | interrupted why => cases h
  | ok entries =>
    simp only at h
    split at h
    · cases h
    · cases h
      cases hkind
    · cases h

/-- An invocation that failed because of how the graph was put together does so again. -/
theorem invokeWithin_again {inputs : Inputs} {name : String} {function : Args ι → Program σ ι}
    {depth' : Nat} (hidle : w.Idle) (hunmarked : w.graph.Unmarked) (hdepth : w.graph.size < depth)
    (howner : w.graph.node? (invocationKey name) = none)
    (h : (invokeWithin note depth name inputs function w).1 = .error e)
    (hkind : e.isConfiguration = true)
    (hsequel : (invokeWithin note depth name inputs function w).2.Sequel note w')
    (hdepth' : 0 < depth') : (invokeWithin note depth' name inputs function w').1 = .error e := by
  have hgather := configuration_of_invokeWithin h hkind
  have hkept := @gather_kept _ _ (invocationKey name) (fetch note depth (invocationKey name))
    inputs w fun key node w' hgrown hnode =>
      fetch_kept (hgrown.lockedIn hidle.unlocked) (hgrown.detached hidle.detached) hnode
  rw [hgather] at hkept
  have hnext := ((hkept (Option.some_ne_none _).symm).rested hidle).idle
  rw [invokeWithin_eq, gather_refused hidle hunmarked hdepth howner hgather hkind
    (hsequel.advanced hnext) (hsequel.idle hnext) hdepth']

/-! ## Errors that persist -/

/-- An error of the configuration is passed on by whoever asks for a type. -/
theorem configuration_of_resolveTyped {resolve : Resolver σ ι}
    (h : (resolveTyped resolve key w).1 = .error e) (hkind : e.isConfiguration = true) :
    (resolve key w).1 = .error e ∧ (resolveTyped resolve key w).2 = (resolve key w).2 := by
  unfold resolveTyped at h ⊢
  generalize resolve key w = r at h
  obtain ⟨outcome, w₁⟩ := r
  cases outcome with
  | ok item =>
    simp only [Instance.as] at h
    split at h
    · cases h
    · next herror =>
      cases h
      split at herror
      · cases herror
      · cases herror
        cases hkind
  | error e' =>
    cases h
    exact ⟨rfl, rfl⟩
  | interrupted why => cases h

/-- An error of the resolution is passed on by whoever asks for a type. -/
theorem resolveTyped_error {resolve : Resolver σ ι} (h : (resolve key w).1 = .error e) :
    (resolveTyped resolve key w).1 = .error e := by
  unfold resolveTyped
  generalize resolve key w = r at h
  obtain ⟨outcome, w₁⟩ := r
  cases h
  rfl

/-- An error in how a graph was put together is final, whether a key is resolved, as a component of
its type or without, or a function is invoked: after any further requests that register nothing the
same request fails with the same error. No component is registered under the key that stands for the
invoked function. A registration that was refused is refused for good, whatever happens. -/
theorem configuration_errors_persist {whys : List Interruption} (h : Workshop.Reached note whys w)
    (hdeep : .tooDeep ∉ whys) (hunmarked : w.graph.Unmarked) (hdepth : w.graph.size < depth) :
    (∀ key e, (resolveWithin note depth key w).1 = .error e → e.isConfiguration = true →
      ∀ w', (resolveWithin note depth key w).2.Sequel note w' →
        (resolveWithin note depth key w').1 = .error e) ∧
    (∀ key e, (resolveTyped (resolveWithin note depth) key w).1 = .error e →
      e.isConfiguration = true →
        ∀ w', (resolveTyped (resolveWithin note depth) key w).2.Sequel note w' →
          (resolveTyped (resolveWithin note depth) key w').1 = .error e) ∧
    (∀ name inputs (function : Args ι → Program σ ι) e,
      w.graph.node? (invocationKey name) = none →
        (invokeWithin note depth name inputs function w).1 = .error e → e.isConfiguration = true →
          ∀ w', (invokeWithin note depth name inputs function w).2.Sequel note w' →
            (invokeWithin note depth name inputs function w').1 = .error e) ∧
    ∀ (w₀ : Workshop σ ι) key node e requests, (w₀.register key node).1 = .error e →
      (((w₀.register key node).2.after note requests).register key node).1 = .error e := by
  obtain ⟨hidle, -⟩ := h.rested hdeep
  refine ⟨?resolved, ?typed, ?invoked, ?registered⟩
  case resolved =>
    intro key e herror hkind w' hsequel
    exact resolveWithin_again hidle hunmarked hdepth herror hkind hsequel
  case typed =>
    intro key e herror hkind w' hsequel
    obtain ⟨hresolve, hsame⟩ := configuration_of_resolveTyped herror hkind
    rw [hsame] at hsequel
    exact resolveTyped_error
      (resolveWithin_again hidle hunmarked hdepth hresolve hkind hsequel)
  case invoked =>
    intro name inputs function e howner herror hkind w' hsequel
    exact invokeWithin_again hidle hunmarked hdepth howner herror hkind hsequel
      (Nat.zero_lt_of_lt hdepth)
  case registered =>
    intro w₀ key node e requests hrefused
    have hevolves := (w₀.register_evolves key node).trans
      ((w₀.register key node).2.after_evolves note requests)
    exact Graph.Evolves.register_refused hevolves hrefused

/-- A server that uses a cache and a pool which nobody has registered. -/
def poollessServer : Workshop Nat Nat :=
  let new : Workshop Nat Nat := ⟨.empty, none, 0⟩
  let cache := (new.register (.of ⟨"Cache"⟩)
    (.ofRecipe [] fun _ => .read fun calls => .finish (.ok calls))).2
  (cache.register (.of ⟨"Server"⟩)
    (.ofRecipe [.of "cache" ⟨"Cache"⟩, .of "pool" ⟨"Pool"⟩] fun _ => .finish (.ok 0))).2

theorem poollessServer_reached :
    Workshop.Reached (fun _ calls => calls + 1) [] poollessServer :=
  .provide (.provide (.new 0) _ _ fun _ => .read fun _ => .finish _) _ _ fun _ => .finish _

/-- The server cannot be had without the pool, nor can a function that asks for a server be called,
also when the cache was made meanwhile for another function, which panicked then. The name of the
server stays taken. -/
theorem poollessServer_refused :
    let note : Notice → Nat → Nat := fun _ calls => calls + 1
    let server : Key := .of ⟨"Server"⟩
    let poolless : GraphError := .missingDependency (.of ⟨"Pool"⟩) (some server)
    let report : Request Nat Nat :=
      .invoke 3 "report" [.of "cache" ⟨"Cache"⟩] fun _ => .panic "no printer"
    let drain (w : Workshop Nat Nat) :=
      invokeWithin note 3 "drain" [.of "cache" ⟨"Cache"⟩, .of "server" ⟨"Server"⟩]
        (fun _ => .finish (.ok 0)) w
    let w₁ := (report.reply note (resolveWithin note 3 server poollessServer).2).2
    let w₂ := (report.reply note (drain poollessServer).2).2
    ((resolveWithin note 3 server poollessServer).1 = .error poolless ∧
        w₁.graph.isCached (.of ⟨"Cache"⟩) = true ∧
        (resolveWithin note 3 server w₁).1 = .error poolless ∧
        (resolveTyped (resolveWithin note 3) server w₁).1 = .error poolless) ∧
      ((drain poollessServer).1 = .error poolless ∧ (drain w₂).1 = .error poolless) ∧
      (((poollessServer.register server (.ofValue server 1)).2.after note [report]).register server
        (.ofValue server 1)).1 = .error (.duplicateRegistration server) := by
  have hunmarked : poollessServer.graph.Unmarked :=
    (poollessServer_reached.rested List.not_mem_nil).2 fun _ => List.not_mem_nil
  have hdepth : poollessServer.graph.size < 3 := by decide
  obtain ⟨hresolve, htyped, hinvoke, hregister⟩ := configuration_errors_persist
    poollessServer_reached List.not_mem_nil hunmarked hdepth
  have hfunction : ∀ args : Args Nat, (Program.panic "no printer" : Program Nat Nat).Orderly :=
    fun _ => .panic _
  refine ⟨⟨rfl, rfl, ?_, ?_⟩, ⟨rfl, ?_⟩, ?_⟩
  · exact hresolve _ _ rfl rfl _ (.next .refl hfunction (by decide) rfl)
  · exact htyped _ _ rfl rfl _ (.next .refl hfunction (by decide) rfl)
  · exact hinvoke _ _ _ _ rfl rfl rfl _ (.next .refl hfunction (by decide) rfl)
  · exact hregister poollessServer _ _ _ _ rfl

end ServiceHost
