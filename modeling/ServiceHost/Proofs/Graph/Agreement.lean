import Mathlib.Data.Set.Card
import ServiceHost.Proofs.Graph.Advance
import ServiceHost.Proofs.Graph.Recovery

/-!
# Graphs that agree on a set of keys

A set of keys is closed in a graph if it contains the inputs that its constructors declare, and if
these make no other requests than for keys of the set (`Graph.Closed`). A call for a key of such a
set goes the same way in two graphs at work that agree on the set (`Workshop.Agree`): the check sees
nothing else (`verify_agree`), and neither does a construction (`build_agree`). Both call the same
constructors with the same arguments and come to the same end, the graphs agree again, and what is
registered under other keys is left alone (`Workshop.Passage`). Every call that is nested within
another holds the lock of one more key of the set, so the depths to which calls may be nested do not
matter, as long as there is room for all the keys (`Workshop.Room`).
-/

namespace ServiceHost

variable {σ ι ε α : Type}

/-- The program makes no other requests than for keys of the set. What it registers does so, too. -/
inductive Program.Within (S : Set Key) : Program σ ι → Prop
  | finish (result : Except Failure ι) : Within S (.finish result)
  | panic (text : String) : Within S (.panic text)
  | read {next : σ → Program σ ι} (h : ∀ world, Within S (next world)) : Within S (.read next)
  | write (world : σ) {next : Program σ ι} (h : Within S next) : Within S (.write world next)
  | isCached {key : Key} (hkey : key ∈ S) {next : Bool → Program σ ι}
      (h : ∀ answer, Within S (next answer)) : Within S (.isCached key next)
  | resolve {key : Key} (hkey : key ∈ S) {next : Except GraphError (Instance ι) → Program σ ι}
      (h : ∀ answer, Within S (next answer)) : Within S (.resolve key next)
  | supply {key : Key} (hkey : key ∈ S) (value : ι) {next : Except GraphError Unit → Program σ ι}
      (h : ∀ answer, Within S (next answer)) : Within S (.supply key value next)
  | provide {key : Key} (hkey : key ∈ S) {inputs : Inputs} (hinputs : ∀ p ∈ inputs, p.key ∈ S)
      {construct : Args ι → Program σ ι} (hconstruct : ∀ args, Within S (construct args))
      {next : Except GraphError Unit → Program σ ι} (h : ∀ answer, Within S (next answer)) :
      Within S (.provide key inputs construct next)

/-- A constructor declares keys of the set only, and makes no requests for others. -/
inductive Node.Within (S : Set Key) : Node σ ι → Prop
  | value (item : Instance ι) : Within S (.value item)
  | recipe {inputs : Inputs} (hinputs : ∀ p ∈ inputs, p.key ∈ S)
      {construct : Args ι → Program σ ι} (hconstruct : ∀ args, (construct args).Within S)
      (cache : Cache ι) : Within S (.recipe inputs construct cache)

theorem Node.Within.mapCache {S : Set Key} {node : Node σ ι} (h : node.Within S)
    (f : Cache ι → Cache ι) : (node.mapCache f).Within S := by
  cases h with
  | value item => exact .value item
  | recipe hinputs hconstruct cache => exact .recipe hinputs hconstruct (f cache)

namespace Graph

/-- The nodes of the set stay within it. -/
def Closed (g : Graph σ ι) (S : Set Key) : Prop :=
  ∀ key ∈ S, ∀ node, g.node? key = some node → node.Within S

/-- A new node at the end. -/
theorem node?_snoc {g : Graph σ ι} {key : Key} (hnew : g.contains key = false) (node : Node σ ι)
    (k : Key) : (⟨g.entries ++ [(key, node)]⟩ : Graph σ ι).node? k =
      if k = key then some node else g.node? k := by
  have hnone : g.node? key = none := by simpa [contains] using hnew
  unfold node? at hnone ⊢
  rw [List.lookup_append]
  split
  · next hkey =>
    subst hkey
    rw [hnone]
    simp
  · next hkey =>
    have hbeq : (k == key) = false := by simpa using hkey
    simp [List.lookup_cons, hbeq]

/-! ## The check -/

section
variable {g g' : Graph σ ι} {S : Set Key} {path done : List Key} {key : Key} {node : Node σ ι}

theorem contains_agree (hsame : ∀ k ∈ S, g'.node? k = g.node? k) (hkey : key ∈ S) :
    g'.contains key = g.contains key := by
  rw [contains, contains, hsame key hkey]

/-- Inputs within the set lack the same in both graphs. -/
theorem firstMissing_agree (hsame : ∀ k ∈ S, g'.node? k = g.node? k) {inputs : Inputs}
    (hinputs : ∀ p ∈ inputs, p.key ∈ S) : g'.firstMissing inputs = g.firstMissing inputs := by
  induction inputs with
  | nil => rfl
  | cons p rest ih =>
    obtain ⟨hp, hrest⟩ := List.forall_mem_cons.1 hinputs
    have hrest := ih hrest
    unfold firstMissing at hrest ⊢
    rw [List.find?_cons, List.find?_cons, contains_agree hsame hp, hrest]

/-- Inputs within the set are gone through alike, if each of them is visited alike. -/
theorem visitInputs_agree (hsame : ∀ k ∈ S, g'.node? k = g.node? k)
    {visit visit' : Key → Node σ ι → List Key → Except GraphError (List Key)} {inputs : Inputs}
    (hinputs : ∀ p ∈ inputs, p.key ∈ S)
    (hvisit : ∀ key ∈ S, key ∉ path → ∀ node done, g.node? key = some node →
      visit' key node done = visit key node done) :
    g'.visitInputs path visit' inputs done = g.visitInputs path visit inputs done := by
  induction inputs generalizing done with
  | nil => rfl
  | cons p rest ih =>
    obtain ⟨hp, hrest⟩ := List.forall_mem_cons.1 hinputs
    unfold visitInputs
    by_cases hback : p.key ∈ path
    · rw [if_pos hback, if_pos hback]
    rw [if_neg hback, if_neg hback, hsame p.key hp]
    cases hnode : g.node? p.key with
    | none => exact ih hrest
    | some node =>
      simp only [hvisit p.key hp hback node done hnode]
      cases visit p.key node done with
      | ok done => exact ih hrest
      | error e => rfl

/-- Walks through graphs that agree on what they come to end alike. Neither is deep enough to be cut
short. -/
theorem visit_agree (hclosed : g.Closed S) (hsame : ∀ k ∈ S, g'.node? k = g.node? k)
    (depth depth' : Nat) (hkey : key ∈ S) (hnode : g.node? key = some node) (hpath : path.Nodup)
    (hkeys : path ⊆ g.keys) (hkeys' : path ⊆ g'.keys) (hoff : key ∉ path)
    (hdepth : g.size ≤ path.length + depth) (hdepth' : g'.size ≤ path.length + depth') :
    g'.visit depth' path key node done = g.visit depth path key node done := by
  have hnode' : g'.node? key = some node := (hsame key hkey).trans hnode
  induction depth generalizing depth' path key node done with
  | zero => exact absurd hdepth (Nat.not_le_of_lt (path_length_lt hnode hpath hkeys hoff))
  | succ depth ih =>
    cases depth' with
    | zero => exact absurd hdepth' (Nat.not_le_of_lt (path_length_lt hnode' hpath hkeys' hoff))
    | succ depth' =>
    cases node with
    | value item => rfl
    | recipe inputs construct cache =>
      have hinputs : ∀ p ∈ inputs, p.key ∈ S := by
        cases hclosed key hkey _ hnode with
        | recipe hinputs => exact hinputs
      have hpath' : (path ++ [key]).Nodup := by
        refine List.nodup_append.2 ⟨hpath, List.pairwise_singleton .., ?_⟩
        rintro a ha b hb rfl
        exact hoff (List.mem_singleton.1 hb ▸ ha)
      have hlength : (path ++ [key]).length = path.length + 1 := by
        rw [List.length_append, List.length_singleton]
      have hlast : [key] ⊆ g.keys := List.cons_subset.2 ⟨mem_keys_of_node? hnode, List.nil_subset _⟩
      have hlast' : [key] ⊆ g'.keys :=
        List.cons_subset.2 ⟨mem_keys_of_node? hnode', List.nil_subset _⟩
      have hrest : ∀ done, g'.visitInputs (path ++ [key]) (g'.visit depth' (path ++ [key])) inputs
          done = g.visitInputs (path ++ [key]) (g.visit depth (path ++ [key])) inputs done := by
        intro done
        refine visitInputs_agree hsame hinputs fun k hk hoff node done hnode => ?_
        exact ih depth' hk hnode hpath' (List.append_subset.2 ⟨hkeys, hlast⟩)
          (List.append_subset.2 ⟨hkeys', hlast'⟩) hoff (by omega) (by omega)
          ((hsame k hk).trans hnode)
      simp only [visit, firstMissing_agree hsame hinputs, hrest]

/-- The check of a key of a closed set sees nothing else. -/
theorem verify_agree (hclosed : g.Closed S) (hsame : ∀ k ∈ S, g'.node? k = g.node? k)
    (hkey : key ∈ S) (hnode : g.node? key = some node) :
    g'.verify key node = g.verify key node := by
  unfold verify
  rw [visit_agree hclosed hsame g.size g'.size hkey hnode List.nodup_nil (List.nil_subset _)
    (List.nil_subset _) List.not_mem_nil (Nat.le_add_left ..) (Nat.le_add_left ..)]

end

/-- A change of a cache leaves a closed set closed. -/
theorem Closed.mapCache {g : Graph σ ι} {S : Set Key} (h : g.Closed S) (key : Key)
    (f : Cache ι → Cache ι) : (g.mapCache key f).Closed S := by
  intro k hk node hnode
  rw [node?_mapCache] at hnode
  split at hnode
  · obtain ⟨node₀, hnode₀, rfl⟩ := Option.map_eq_some_iff.1 hnode
    exact (h k hk node₀ hnode₀).mapCache f
  · exact h k hk node hnode

end Graph

/-! ## Two calls -/

/-- The constructor that is called, and with which arguments. -/
def Deed.call? : Deed σ ι → Option (Key × Entries ι)
  | .called key entries => some (key, entries)
  | .supplied .. => none
  | .checked .. => none
  | .made .. => none
  | .resolved .. => none
  | .invoked .. => none

/-- The constructors that are called, in their order. -/
def calls (seen : List (Deed σ ι)) : List (Key × Entries ι) :=
  seen.filterMap Deed.call?

theorem calls_append (seen more : List (Deed σ ι)) :
    calls (seen ++ more) = calls seen ++ calls more :=
  List.filterMap_append

namespace Workshop

/-- The graphs at work agree on a set of keys that is closed in them. -/
structure Agree (S : Set Key) (w w' : Workshop σ ι) : Prop where
  beside : w.beside = none
  beside' : w'.beside = none
  world : w'.world = w.world
  closed : w.graph.Closed S
  node : ∀ key ∈ S, w'.graph.node? key = w.graph.node? key

/-- What two calls leave of graphs at work that agreed on a set of keys. The same constructors of
the set were called, and nothing else was touched. -/
structure Passage (S : Set Key) (w w' : Workshop σ ι) (seen seen' : List (Deed σ ι))
    (after after' : Workshop σ ι) : Prop where
  agree : after.Agree S after'
  calls : calls seen' = calls seen
  within : ∀ call ∈ ServiceHost.calls seen, call.1 ∈ S
  apart : ∀ key ∉ S, after.graph.node? key = w.graph.node? key
  apart' : ∀ key ∉ S, after'.graph.node? key = w'.graph.node? key

/-- Two calls have come to the same end, and were not nested too deep. -/
structure Paired (S : Set Key) (w w' : Workshop σ ι) (seen seen' : List (Deed σ ι))
    (r r' : Outcome ε α × Workshop σ ι) : Prop where
  outcome : r'.1 = r.1
  passage : w.Passage S w' seen seen' r.2 r'.2
  deep : r.1.interruption? ≠ some .tooDeep

variable {S : Set Key} {w w' w₁ w₁' w₂ w₂' : Workshop σ ι} {seen seen' more more' : List (Deed σ ι)}
  {key : Key}

theorem Agree.isCached (h : w.Agree S w') (hkey : key ∈ S) :
    w'.consulted.isCached key = w.consulted.isCached key := by
  rw [consulted, consulted, h.beside, h.beside', Option.getD_none, Option.getD_none,
    Graph.isCached, Graph.isCached, h.node key hkey]

namespace Passage

/-- Nothing has happened on either side. -/
theorem refl (h : w.Agree S w') : w.Passage S w' [] [] w w' where
  agree := h
  calls := rfl
  within _ hcall := absurd hcall List.not_mem_nil
  apart _ _ := rfl
  apart' _ _ := rfl

/-- Passages one after another. -/
theorem trans (h : w.Passage S w' seen seen' w₁ w₁') (h' : w₁.Passage S w₁' more more' w₂ w₂') :
    w.Passage S w' (seen ++ more) (seen' ++ more') w₂ w₂' where
  agree := h'.agree
  calls := by rw [calls_append, calls_append, h.calls, h'.calls]
  within call hcall := by
    rw [calls_append, List.mem_append] at hcall
    exact hcall.elim (h.within call) (h'.within call)
  apart k hk := (h'.apart k hk).trans (h.apart k hk)
  apart' k hk := (h'.apart' k hk).trans (h.apart' k hk)

/-- The surroundings change alike. -/
theorem live (h : w.Agree S w') (world : σ) :
    w.Passage S w' [] [] { w with world } { w' with world } where
  agree := ⟨h.beside, h.beside', rfl, h.closed, h.node⟩
  calls := rfl
  within _ hcall := absurd hcall List.not_mem_nil
  apart _ _ := rfl
  apart' _ _ := rfl

/-- The cache of a key of the set changes alike. -/
theorem mapCache (h : w.Agree S w') (hkey : key ∈ S) (f : Cache ι → Cache ι) :
    w.Passage S w' [] [] { w with graph := w.graph.mapCache key f }
      { w' with graph := w'.graph.mapCache key f } where
  agree := by
    refine ⟨h.beside, h.beside', h.world, h.closed.mapCache key f, fun k hk => ?_⟩
    simp only [Graph.node?_mapCache, h.node k hk]
  calls := rfl
  within _ hcall := absurd hcall List.not_mem_nil
  apart k hk := by
    have hother : k ≠ key := fun heq => hk (heq ▸ hkey)
    exact (Graph.node?_mapCache ..).trans (if_neg hother)
  apart' k hk := by
    have hother : k ≠ key := fun heq => hk (heq ▸ hkey)
    exact (Graph.node?_mapCache ..).trans (if_neg hother)

/-- Both constructions give up in the same way. -/
theorem giveUp (h : w.Agree S w') (hkey : key ∈ S) (why : Option Interruption) :
    w.Passage S w' [] [] (w.giveUp key why) (w'.giveUp key why) := by
  match why with
  | none => exact mapCache h hkey _
  | some (.panic _) => exact mapCache h hkey _
  | some (.deadlock _) => exact refl h
  | some .tooDeep => exact refl h

/-- Deeds that are no calls of constructors do not matter. -/
theorem silent (h : w.Agree S w') (hseen : ServiceHost.calls seen = [])
    (hseen' : ServiceHost.calls seen' = []) : w.Passage S w' seen seen' w w' where
  __ := refl h
  calls := hseen'.trans hseen.symm
  within call hcall := by
    rw [hseen] at hcall
    cases hcall

/-- The same constructor of the set is called, with the same arguments. -/
theorem called (h : w.Agree S w') (hkey : key ∈ S) (entries : Entries ι) :
    w.Passage S w' [.called key entries] [.called key entries] w w' where
  __ := refl h
  calls := rfl
  within call hcall := by
    rw [List.mem_singleton.1 hcall]
    exact hkey

/-- The same registration ends alike. -/
theorem register (h : w.Agree S w') (hkey : key ∈ S) {node : Node σ ι} (hnode : node.Within S) :
    (w'.register key node).1 = (w.register key node).1 ∧
      w.Passage S w' [] [] (w.register key node).2 (w'.register key node).2 := by
  have hcontains := Graph.contains_agree h.node hkey
  unfold Workshop.register Graph.register
  rw [hcontains]
  cases hnew : w.graph.contains key with
  | true => exact ⟨rfl, refl h⟩
  | false =>
    rw [hnew] at hcontains
    simp only [Bool.false_eq_true, if_false]
    refine ⟨trivial, ⟨h.beside, h.beside', h.world, ?_, ?_⟩, rfl, ?_, ?_, ?_⟩
    · intro k hk node' hnode'
      rw [Graph.node?_snoc hnew] at hnode'
      split at hnode'
      · cases hnode'
        exact hnode
      · exact h.closed k hk node' hnode'
    · intro k hk
      rw [Graph.node?_snoc hnew, Graph.node?_snoc hcontains, h.node k hk]
    · exact fun _ hcall => absurd hcall List.not_mem_nil
    · intro k hk
      have hother : k ≠ key := fun heq => hk (heq ▸ hkey)
      exact (Graph.node?_snoc hnew ..).trans (if_neg hother)
    · intro k hk
      have hother : k ≠ key := fun heq => hk (heq ▸ hkey)
      exact (Graph.node?_snoc hcontains ..).trans (if_neg hother)

end Passage

/-- One pair of calls after another. -/
theorem Paired.follow {r r' : Outcome ε α × Workshop σ ι}
    (hbefore : w.Passage S w' seen seen' w₁ w₁') (h : w₁.Paired S w₁' more more' r r') :
    w.Paired S w' (seen ++ more) (seen' ++ more') r r' :=
  ⟨h.outcome, hbefore.trans h.passage, h.deep⟩

/-- Nothing is done. -/
theorem Paired.still (h : w.Agree S w') {outcome : Outcome ε α}
    (hdeep : outcome.interruption? ≠ some .tooDeep) :
    w.Paired S w' [] [] (outcome, w) (outcome, w') :=
  ⟨rfl, .refl h, hdeep⟩

/-- Two constructions end alike if their constructors did. -/
theorem Paired.construct {r r' : Outcome Failure ι × Workshop σ ι}
    (h : w.Paired S w' seen seen' r r') (hkey : key ∈ S) :
    w.Paired S w' (seen ++ constructedDeeds key r) (seen' ++ constructedDeeds key r')
      (constructed key r) (constructed key r') := by
  obtain ⟨outcome, w₁⟩ := r
  obtain ⟨outcome', w₁'⟩ := r'
  obtain ⟨houtcome, hpassage, hdeep⟩ := h
  obtain rfl : outcome' = outcome := houtcome
  have hagree := hpassage.agree
  cases outcome' with
  | error failure => exact .follow hpassage ⟨rfl, .giveUp hagree hkey none, nofun⟩
  | interrupted why => exact .follow hpassage ⟨rfl, .giveUp hagree hkey (some why), hdeep⟩
  | ok value =>
    have hmade : w₁.Passage S w₁' [.made key ⟨key.type, value⟩] [.made key ⟨key.type, value⟩] w₁
        w₁' := .silent hagree rfl rfl
    exact .follow hpassage ⟨rfl, hmade.trans (.mapCache hagree hkey _), nofun⟩

/-! ## Room -/

/-- Graphs at work that agree on a set, in which the locks of some keys are held. There is room for
those of all other keys of the set in the depths to which calls may still be nested. -/
structure Room (S : Set Key) (w w' : Workshop σ ι) (held : List Key) (depth depth' : Nat) : Prop
    extends w.Agree S w' where
  finite : S.Finite
  nodup : held.Nodup
  busy : ∀ key ∈ held, key ∈ S ∧ w.graph.Busy key
  room : S.ncard < held.length + depth
  room' : S.ncard < held.length + depth'

namespace Room

variable {held : List Key} {depth depth' : Nat}

/-- The keys whose locks are held are keys of the set. -/
theorem length_le (h : w.Room S w' held depth depth') : held.length ≤ S.ncard := by
  rw [← List.toFinset_card_of_nodup h.nodup, ← Set.ncard_coe_finset]
  refine Set.ncard_le_ncard (fun key hkey => ?_) h.finite
  exact (h.busy key (List.mem_toFinset.1 hkey)).1

/-- There is room as before if no lock was given back. -/
theorem after (h : w.Room S w' held depth depth') (hagree : w₁.Agree S w₁')
    (hbusy : ∀ k, w.graph.Busy k → w₁.graph.Busy k) : w₁.Room S w₁' held depth depth' where
  toAgree := hagree
  finite := h.finite
  nodup := h.nodup
  busy k hk := ⟨(h.busy k hk).1, hbusy k (h.busy k hk).2⟩
  room := h.room
  room' := h.room'

/-- One more lock is taken. -/
theorem lock (h : w.Room S w' held (depth + 1) (depth' + 1)) (hkey : key ∈ S) {inputs : Inputs}
    {construct : Args ι → Program σ ι} {cache : Cache ι}
    (hnode : w.graph.node? key = some (.recipe inputs construct cache))
    (hfree : cache.locked = false) (hnone : cache.made = none) :
    Room S { w with graph := w.graph.lock key } { w' with graph := w'.graph.lock key }
      (key :: held) depth depth' where
  toAgree := (Passage.mapCache h.toAgree hkey _).agree
  finite := h.finite
  nodup := List.nodup_cons.2
    ⟨fun hmem => Told.busy_other hnode hfree (h.busy key hmem).2 rfl, h.nodup⟩
  busy := by
    refine List.forall_mem_cons.2 ⟨⟨hkey, Told.busy_lock hnode hnone⟩, fun k hk => ?_⟩
    obtain ⟨hmem, hbusy⟩ := h.busy k hk
    exact ⟨hmem, hbusy.mapCache (Told.busy_other hnode hfree hbusy)⟩
  room := by
    have hroom := h.room
    rw [List.length_cons]
    omega
  room' := by
    have hroom := h.room'
    rw [List.length_cons]
    omega

end Room

end Workshop

/-! ## Programs -/

section
variable {S : Set Key} {w w' : Workshop σ ι} {held : List Key} {depth depth' : Nat}

/-- A program that stays within the set goes the same way, if resolving each key of the set does. -/
theorem Program.Within.agree {resolve resolve' : Resolver σ ι} {seen seen' : Witness σ ι}
    (hresolve : ∀ key ∈ S, ∀ w w' : Workshop σ ι, w.Room S w' held depth depth' →
      w.Paired S w' (seen key w) (seen' key w') (resolve key w) (resolve' key w'))
    (htold : ∀ key (w : Workshop σ ι), w.Finds key (seen key w) (resolve key w))
    {p : Program σ ι} (hp : p.Within S) (h : w.Room S w' held depth depth') :
    w.Paired S w' (p.trace Deed.of resolve seen w) (p.trace Deed.of resolve' seen' w')
      (p.run resolve w) (p.run resolve' w') := by
  induction hp generalizing w w' with
  | finish result => cases result <;> exact .still h.toAgree nofun
  | panic text => exact .still h.toAgree nofun
  | read _ ih =>
    unfold Program.trace Program.run
    rw [h.world]
    exact ih w.world h
  | write world _ ih =>
    have hlive := Workshop.Passage.live h.toAgree world
    exact .follow hlive (ih (h.after hlive.agree fun _ hbusy => hbusy))
  | isCached hkey _ ih =>
    unfold Program.trace Program.run
    rw [h.isCached hkey]
    exact ih _ h
  | @resolve key hkey _ _ ih =>
    have hfirst := hresolve key hkey w w' h
    have hbusy := (htold key w).told.busy
    unfold Program.trace Program.run
    simp only [Workshop.consult_of_beside h.beside, Workshop.consult_of_beside h.beside',
      Workshop.own_of_beside h.beside, Workshop.own_of_beside h.beside']
    generalize resolve key w = r, resolve' key w' = r' at hfirst hbusy
    obtain ⟨outcome, w₁⟩ := r
    obtain ⟨outcome', w₁'⟩ := r'
    obtain ⟨houtcome, hpassage, hdeep⟩ := hfirst
    obtain rfl : outcome' = outcome := houtcome
    have hafter := h.after hpassage.agree hbusy
    cases outcome' with
    | ok item => exact .follow (hpassage.trans (.silent hafter.toAgree rfl rfl)) (ih _ hafter)
    | error e => exact .follow hpassage (ih _ hafter)
    | interrupted why => exact ⟨rfl, hpassage, hdeep⟩
  | @supply key hkey value _ _ ih =>
    have hnode : (Node.ofValue key value : Node σ ι).Within S := .value _
    obtain ⟨hanswer, hpassage⟩ := Workshop.Passage.register h.toAgree hkey hnode
    have hafter := h.after hpassage.agree (Workshop.Told.supply w key value).busy
    unfold Program.trace Program.run
    simp only [Workshop.consult_of_beside h.beside, Workshop.consult_of_beside h.beside',
      Workshop.own_of_beside h.beside, Workshop.own_of_beside h.beside', hanswer]
    have hsilent (w : Workshop σ ι) : calls (w.supplyDeeds key value) = [] := by
      unfold Workshop.supplyDeeds
      split <;> rfl
    have hseen := Workshop.Passage.silent hafter.toAgree (hsilent w) (hsilent w')
    exact .follow (hpassage.trans hseen) (ih _ hafter)
  | @provide key hkey inputs hinputs construct hconstruct _ _ _ ih =>
    have hnode : (Node.ofRecipe inputs construct).Within S := .recipe hinputs hconstruct _
    obtain ⟨hanswer, hpassage⟩ := Workshop.Passage.register h.toAgree hkey hnode
    have hafter := h.after hpassage.agree (Workshop.Told.provide w key inputs construct).busy
    unfold Program.trace Program.run
    simp only [Workshop.consult_of_beside h.beside, Workshop.consult_of_beside h.beside', hanswer,
      Deed.of_provide, Workshop.own_nil, List.nil_append]
    exact .follow hpassage (ih _ hafter)

/-! ## Constructions -/

section
variable {find find' : Key → Node σ ι → Workshop σ ι →
    Outcome GraphError (Instance ι) × Workshop σ ι}
  {seen seen' : Key → Node σ ι → Workshop σ ι → List (Deed σ ι)}

/-- Finding inputs of the set goes the same way, if finding each of them does. -/
theorem gather_agree (owner : Key)
    (hfind : ∀ key ∈ S, ∀ node (w w' : Workshop σ ι), w.Room S w' held depth depth' →
      w.graph.node? key = some node →
        w.Paired S w' (seen key node w) (seen' key node w') (find key node w) (find' key node w'))
    (htold : ∀ key node (w : Workshop σ ι), w.graph.node? key = some node →
      w.Finds key (seen key node w) (find key node w))
    {inputs : Inputs} (hinputs : ∀ p ∈ inputs, p.key ∈ S) (h : w.Room S w' held depth depth') :
    w.Paired S w' (gatherTrace find seen inputs w) (gatherTrace find' seen' inputs w')
      (gather owner find inputs w) (gather owner find' inputs w') := by
  induction inputs generalizing w w' with
  | nil => exact .still h.toAgree (by rintro ⟨⟩)
  | cons p rest ih =>
    obtain ⟨hp, hrest⟩ := List.forall_mem_cons.1 hinputs
    unfold gatherTrace gather
    rw [h.node p.key hp]
    cases hnode : w.graph.node? p.key with
    | none =>
      cases p.optional with
      | false => exact .still h.toAgree (by rintro ⟨⟩)
      | true =>
        obtain ⟨houtcome, hpassage, hdeep⟩ := ih hrest h
        simp only [if_true]
        generalize gather owner find rest w = r, gather owner find' rest w' = r'
          at houtcome hpassage hdeep
        obtain ⟨outcome, w₁⟩ := r
        obtain ⟨outcome', w₁'⟩ := r'
        obtain rfl : outcome' = outcome := houtcome
        cases outcome' <;> exact ⟨rfl, hpassage, hdeep⟩
    | some node =>
      have hfirst := hfind p.key hp node w w' h hnode
      have hbusy := (htold p.key node w hnode).told.busy
      simp only
      generalize find p.key node w = r, find' p.key node w' = r' at hfirst hbusy
      obtain ⟨outcome, w₁⟩ := r
      obtain ⟨outcome', w₁'⟩ := r'
      obtain ⟨houtcome, hpassage, hdeep⟩ := hfirst
      obtain rfl : outcome' = outcome := houtcome
      cases outcome' with
      | error e => exact ⟨rfl, hpassage, hdeep⟩
      | interrupted why => exact ⟨rfl, hpassage, hdeep⟩
      | ok item =>
        obtain ⟨houtcome, hmore, hdeep⟩ := ih hrest (h.after hpassage.agree hbusy)
        have hall := hpassage.trans hmore
        simp only
        generalize gather owner find rest w₁ = r, gather owner find' rest w₁' = r'
          at houtcome hall hdeep
        obtain ⟨outcome, w₂⟩ := r
        obtain ⟨outcome', w₂'⟩ := r'
        obtain rfl : outcome' = outcome := houtcome
        cases outcome' <;> exact ⟨rfl, hall, hdeep⟩

/-- Resolving a key of the set goes the same way, if building its component does. -/
theorem resolveWith_agree
    (hbuild : ∀ key ∈ S, ∀ node (w w' : Workshop σ ι), w.Room S w' held depth depth' →
      w.graph.node? key = some node →
        w.Paired S w' (seen key node w) (seen' key node w') (find key node w) (find' key node w'))
    {key : Key} (hkey : key ∈ S) (h : w.Room S w' held depth depth') :
    w.Paired S w' (resolveTrace Deed.of seen key w) (resolveTrace Deed.of seen' key w')
      (resolveWith find key w) (resolveWith find' key w') := by
  unfold resolveTrace resolveWith
  rw [h.node key hkey]
  cases hnode : w.graph.node? key with
  | none => exact .still h.toAgree (by rintro ⟨⟩)
  | some node =>
    simp only
    cases node.available with
    | some item => exact .still h.toAgree (by rintro ⟨⟩)
    | none =>
      have hchecked : w.Passage S w' [.checked key w.graph] [.checked key w'.graph] w w' :=
        .silent h.toAgree rfl rfl
      simp only [Graph.verify_agree h.closed h.node hkey hnode]
      cases w.graph.verify key node with
      | error e => exact ⟨rfl, hchecked, by rintro ⟨⟩⟩
      | ok => exact .follow hchecked (hbuild key hkey node w w' h hnode)

end

/-- The construction of a component of the set goes the same way. -/
theorem build_agree (note : Notice → σ → σ) (path : List Key) {key : Key} (hkey : key ∈ S)
    (node : Node σ ι) (h : w.Room S w' held depth depth')
    (hnode : w.graph.node? key = some node) :
    w.Paired S w' (buildTrace Deed.of note depth path key node w)
      (buildTrace Deed.of note depth' path key node w')
      (build note depth path key node w) (build note depth' path key node w') := by
  induction depth generalizing depth' path key node w w' held with
  | zero => exact absurd h.length_le (Nat.not_le_of_lt h.room)
  | succ depth ih =>
    cases depth' with
    | zero => exact absurd h.length_le (Nat.not_le_of_lt h.room')
    | succ depth' =>
    cases node with
    | value item => exact .still h.toAgree (by rintro ⟨⟩)
    | recipe inputs construct cache =>
      unfold buildTrace build
      by_cases hpath : key ∈ path
      · simp only [if_pos hpath, if_pos (Or.inl hpath)]
        exact .still h.toAgree (by rintro ⟨⟩)
      cases hlocked : cache.locked with
      | true =>
        rw [if_pos (.inr (.inl rfl)), if_pos (.inr (.inl rfl)), if_neg hpath, if_neg hpath]
        exact .still h.toAgree (by rintro ⟨⟩)
      | false =>
      cases hmade : cache.made with
      | some item =>
        rw [if_pos (.inr (.inr rfl)), if_pos (.inr (.inr rfl)), if_neg hpath, if_neg hpath]
        exact .still h.toAgree (by rintro ⟨⟩)
      | none =>
        have hfree : ¬ (key ∈ path ∨ false = true ∨
            (none : Option (Instance ι)).isSome = true) := by
          simp [hpath]
        rw [if_neg hfree, if_neg hfree, if_neg hpath, if_neg hpath]
        simp only [Bool.false_eq_true, if_false]
        obtain ⟨hinputs, hconstruct⟩ : (∀ p ∈ inputs, p.key ∈ S) ∧
            ∀ args, (construct args).Within S := by
          cases h.closed key hkey _ hnode with
          | recipe hinputs hconstruct => exact ⟨hinputs, hconstruct⟩
        have hlock := h.lock hkey hnode hlocked hmade
        have htaken := Workshop.Passage.mapCache h.toAgree hkey fun c => { c with locked := true }
        have hgather := gather_agree key
          (fun k hk node w w' h hnode => ih (path ++ [key]) hk node h hnode)
          (build_finds note depth (path ++ [key])) hinputs hlock
        have hbusy := (gather_told key (build_finds note depth (path ++ [key])) inputs
          { w with graph := w.graph.lock key }).1.busy
        generalize gather key (build note depth (path ++ [key])) inputs
            { w with graph := w.graph.lock key } = r,
          gather key (build note depth' (path ++ [key])) inputs
            { w' with graph := w'.graph.lock key } = r' at hgather hbusy
        obtain ⟨outcome, w₁⟩ := r
        obtain ⟨outcome', w₁'⟩ := r'
        obtain ⟨houtcome, hpassage, hdeep⟩ := hgather
        obtain rfl : outcome' = outcome := houtcome
        have hbefore := htaken.trans hpassage
        cases outcome' with
        | error e => exact ⟨rfl, hbefore.trans (.giveUp hpassage.agree hkey none), by rintro ⟨⟩⟩
        | interrupted why =>
          exact ⟨rfl, hbefore.trans (.giveUp hpassage.agree hkey (some why)), hdeep⟩
        | ok entries =>
          have hready : w₁.Passage S w₁' [.called key entries] [.called key entries]
              { w₁ with world := note (.constructing key) w₁.world }
              { w₁' with world := note (.constructing key) w₁'.world } := by
            rw [hpassage.agree.world]
            exact (Workshop.Passage.called hpassage.agree hkey entries).trans
              (.live hpassage.agree _)
          have hroom := (hlock.after hpassage.agree hbusy).after hready.agree fun _ hbusy => hbusy
          have hresolve (k : Key) (hk : k ∈ S) (w w' : Workshop σ ι)
              (h : w.Room S w' (key :: held) depth depth') :
              w.Paired S w' (resolveTrace Deed.of (buildTrace Deed.of note depth []) k w)
                (resolveTrace Deed.of (buildTrace Deed.of note depth' []) k w')
                (resolveWith (build note depth []) k w)
                (resolveWith (build note depth' []) k w') :=
            resolveWith_agree (fun _ hk node _ _ h hnode => ih [] hk node h hnode) hk h
          have hrun := (hconstruct ⟨key, entries⟩).agree hresolve
            (resolveWith_finds (build_finds note depth [])) hroom
          have hall := (Workshop.Paired.follow (hbefore.trans hready) hrun).construct hkey
          simp only [List.append_assoc, List.nil_append, List.singleton_append] at hall
          exact hall

/-- A key of the set is resolved in the same way, if calls may be nested as deep as there are keys
in the set. -/
theorem resolveWithin_agree (note : Notice → σ → σ) {key : Key} (hkey : key ∈ S)
    (h : w.Room S w' [] depth depth') :
    w.Paired S w' (resolveWithinDeeds note depth key w) (resolveWithinDeeds note depth' key w')
      (resolveWithin note depth key w) (resolveWithin note depth' key w') :=
  resolveWith_agree (fun _ hk node _ _ h hnode => build_agree note [] hk node h hnode) hkey h

end

end ServiceHost
