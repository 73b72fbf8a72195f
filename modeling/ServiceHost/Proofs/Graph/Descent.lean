import Mathlib.Data.List.Chain
import ServiceHost.Proofs.Graph.Confined
import ServiceHost.Proofs.Graph.Walks

/-!
# Constructions come to an end

A construction goes down from a component to its inputs, from one site to another (`Site`,
`Site.Below`). What is said of sites is said of all of them that a construction comes to, whatever
is in the caches and whoever holds which locks, whether or not the check came before, and whatever
constructors request and register meanwhile.

Beside what stood on the path at the beginning, distinct keys stand there each of which declares the
next one, and the construction holds the locks of all of them (`Site.Stands`). Since calls that
return give back the locks that they took, it holds no others. So it never waits for a lock of its
own: a key that stands on the path is reported, before its lock is asked for, and this is how the
construction ends (`Site.Reaches.ends`). What is left are the ways in which a construction stops for
some other reason (`Site.Halts`). Together with what is known of the check and of the depth, this is
`walks_end`.
-/

namespace ServiceHost

open Relation

variable {σ ι : Type} {note : Notice → σ → σ} {w w' w₁ : Workshop σ ι}

/-! ## Inputs one after another -/

namespace Outcome

theorem map_map {ε α β γ : Type} (f : α → β) (f' : β → γ) (outcome : Outcome ε α) :
    (outcome.map f).map f' = outcome.map (f' ∘ f) := by
  cases outcome <;> rfl

/-- What would have been done with a value does not matter then. -/
theorem Stopped.map_eq {ε α β : Type} {outcome : Outcome ε α} (h : outcome.Stopped)
    (f f' : α → β) : outcome.map f = outcome.map f' := by
  cases outcome with
  | ok a => exact absurd rfl (h a)
  | error e => rfl
  | interrupted why => rfl

end Outcome

/-- Finding the component of an input stops, for it is missing, or for another reason. -/
inductive StopsAt (owner : Key)
    (find : Key → Node σ ι → Workshop σ ι → Outcome GraphError (Instance ι) × Workshop σ ι)
    (p : Param) (w : Workshop σ ι) : Outcome GraphError (Entries ι) → Workshop σ ι → Prop
  | missing (hnone : w.graph.node? p.key = none) (hrequired : p.optional = false) :
      StopsAt owner find p w (.error (.missingDependency p.key (some owner))) w
  | found {node : Node σ ι} {outcome : Outcome GraphError (Instance ι)} {w' : Workshop σ ι}
      (hnode : w.graph.node? p.key = some node) (hfind : find p.key node w = (outcome, w'))
      (hstopped : outcome.Stopped) : StopsAt owner find p w (outcome.map fun _ => []) w'

section
variable {owner : Key} {entries : Entries ι} {inputs before : Inputs}
  {find : Key → Node σ ι → Workshop σ ι → Outcome GraphError (Instance ι) × Workshop σ ι}
  {outcome : Outcome GraphError (Entries ι)} {p : Param}

/-- What would have been done with the entries does not matter where finding them stops. -/
theorem StopsAt.map (h : StopsAt owner find p w outcome w') (f : Entries ι → Entries ι) :
    StopsAt owner find p w (outcome.map f) w' := by
  cases h with
  | missing hnone hrequired => exact .missing hnone hrequired
  | found hnode hfind hstopped =>
    rw [Outcome.map_map, hstopped.map_eq _ fun _ => []]
    exact .found hnode hfind hstopped

/-- After the first inputs were found, the others are. -/
theorem gather_append (h : gather owner find before w = (.ok entries, w₁)) (rest : Inputs) :
    gather owner find (before ++ rest) w =
      ((gather owner find rest w₁).1.map (entries ++ ·), (gather owner find rest w₁).2) := by
  induction before generalizing w entries with
  | nil =>
    cases h
    rw [List.nil_append]
    cases hrest : gather owner find rest w₁ with | mk outcome w₂ =>
    cases outcome <;> rfl
  | cons p before ih =>
    obtain ⟨more, hnode, hoptional, hbefore, rfl⟩ | ⟨node, item, w₂, more, hnode, hfind, hbefore,
      rfl⟩ := gather_cons_ok h
    · rw [List.cons_append, gather_absent hnode hoptional, ih hbefore, Outcome.map_map]
      rfl
    · rw [List.cons_append, gather_present hnode hfind, ih hbefore, Outcome.map_map]
      rfl

/-- Finding inputs stops at one of them, after those before it were found. -/
theorem gather_stopped (h : gather owner find inputs w = (outcome, w'))
    (hstopped : outcome.Stopped) :
    ∃ before p rest entries w₁, inputs = before ++ p :: rest ∧
      gather owner find before w = (.ok entries, w₁) ∧ StopsAt owner find p w₁ outcome w' := by
  have hmap {f : Entries ι → Entries ι} {outcome : Outcome GraphError (Entries ι)}
      (h : (outcome.map f).Stopped) : outcome.Stopped := fun entries hok =>
    h (f entries) (congrArg (Outcome.map f) hok)
  induction inputs generalizing w outcome with
  | nil =>
    cases h
    exact absurd rfl (hstopped [])
  | cons p rest ih =>
    cases hnode : w.graph.node? p.key with
    | none =>
      cases hoptional : p.optional with
      | false =>
        rw [gather_missing hnode hoptional] at h
        cases h
        exact ⟨[], p, rest, [], _, rfl, rfl, .missing hnode hoptional⟩
      | true =>
        rw [gather_absent hnode hoptional] at h
        cases h
        obtain ⟨before, p', rest', entries, w₁, rfl, hbefore, hlast⟩ := ih rfl (hmap hstopped)
        refine ⟨p :: before, p', rest', (p, none) :: entries, w₁, rfl, ?_, hlast.map _⟩
        rw [gather_absent hnode hoptional, hbefore]
        rfl
    | some node =>
      obtain ⟨found, w₁, hfind⟩ : ∃ found w₁, find p.key node w = (found, w₁) := ⟨_, _, rfl⟩
      cases found with
      | error e =>
        rw [gather_failed hnode hfind] at h
        cases h
        exact ⟨[], p, rest, [], w, rfl, rfl, .found hnode hfind (by rintro _ ⟨⟩)⟩
      | interrupted why =>
        rw [gather_interrupted hnode hfind] at h
        cases h
        exact ⟨[], p, rest, [], w, rfl, rfl, .found hnode hfind (by rintro _ ⟨⟩)⟩
      | ok item =>
        rw [gather_present hnode hfind] at h
        cases h
        obtain ⟨before, p', rest', entries, w₂, rfl, hbefore, hlast⟩ := ih rfl (hmap hstopped)
        refine ⟨p :: before, p', rest', (p, some item) :: entries, w₂, rfl, ?_, hlast.map _⟩
        rw [gather_present hnode hfind, hbefore]
        rfl

end

/-! ## Sites -/

/-- Where a construction stands that has gone down to some input: the depth that is left, the keys
on the path, the key whose component is to be built, and the graph at work. -/
structure Site (σ ι : Type) where
  depth : Nat
  path : List Key
  key : Key
  workshop : Workshop σ ι

/-- The graph at work once the lock of the key is taken. -/
def Site.locked (s : Site σ ι) : Workshop σ ι :=
  { s.workshop with graph := s.workshop.graph.lock s.key }

/-- How the construction at a site ends. -/
def Site.Ends (note : Notice → σ → σ) (s : Site σ ι)
    (r : Outcome GraphError (Instance ι) × Workshop σ ι) : Prop :=
  ∃ node, s.workshop.graph.node? s.key = some node ∧
    build note s.depth s.path s.key node s.workshop = r

/-- The construction at a site gets past the path and the lock, and finds the components of the
first inputs. The others are left. -/
structure Site.Finds (note : Notice → σ → σ) (s : Site σ ι) (below : Nat)
    (construct : Args ι → Program σ ι) (before left : Inputs) (entries : Entries ι)
    (w : Workshop σ ι) : Prop where
  depth : s.depth = below + 1
  off : s.key ∉ s.path
  node : ∃ cache, s.workshop.graph.node? s.key = some (.recipe (before ++ left) construct cache) ∧
    cache.locked = false ∧ cache.made = none
  found : gather s.key (build note below (s.path ++ [s.key])) before s.locked = (.ok entries, w)

/-- The construction at a site goes down to that of an input. -/
inductive Site.Below (note : Notice → σ → σ) (s : Site σ ι) : Site σ ι → Prop
  | intro {below : Nat} {construct : Args ι → Program σ ι} {before rest : Inputs} {p : Param}
      {entries : Entries ι} {w : Workshop σ ι} {node : Node σ ι}
      (h : s.Finds note below construct before (p :: rest) entries w)
      (hnode : w.graph.node? p.key = some node) :
      Below note s ⟨below, s.path ++ [s.key], p.key, w⟩

/-- The construction at the one site goes down to the other, from input to input. -/
abbrev Site.Reaches (note : Notice → σ → σ) : Site σ ι → Site σ ι → Prop :=
  ReflTransGen (Site.Below note)

/-- The constructor is called when all inputs were found, and this is how the call ends. -/
def Site.Calls (note : Notice → σ → σ) (s : Site σ ι) (r : Outcome Failure ι × Workshop σ ι) :
    Prop :=
  ∃ below construct inputs entries w, s.Finds note below construct inputs [] entries w ∧
    (construct ⟨s.key, entries⟩).run (resolveWith (build note below []))
      { w with world := note (.constructing s.key) w.world } = r

/-- Why the construction at a site stops, other than for an input that stops. -/
inductive Site.Halts (note : Notice → σ → σ) (s : Site σ ι) :
    Outcome GraphError (Instance ι) → Prop
  /-- There is no depth left. -/
  | exhausted (hdepth : s.depth = 0) : Halts note s (.interrupted .tooDeep)
  /-- The key is on the path. -/
  | circular (hpath : s.key ∈ s.path) : Halts note s (.error (circular s.path s.key))
  /-- The key is not on the path, and somebody holds its lock. -/
  | held (hoff : s.key ∉ s.path) (hlocked : s.workshop.graph.Locked s.key) :
      Halts note s (.interrupted (.deadlock s.key))
  /-- A required input is not registered. -/
  | missing {below : Nat} {construct : Args ι → Program σ ι} {before rest : Inputs} {p : Param}
      {entries : Entries ι} {w : Workshop σ ι}
      (h : s.Finds note below construct before (p :: rest) entries w)
      (hnone : w.graph.node? p.key = none) (hrequired : p.optional = false) :
      Halts note s (.error (.missingDependency p.key (some s.key)))
  /-- The constructor has failed. -/
  | failed {failure : Failure} {w : Workshop σ ι} (h : s.Calls note (.error failure, w)) :
      Halts note s (.error (.constructor s.key failure))
  /-- The constructor has not returned. -/
  | lost {why : Interruption} {w : Workshop σ ι} (h : s.Calls note (.interrupted why, w)) :
      Halts note s (.interrupted why)

namespace Site

variable {s t start : Site σ ι} {outcome : Outcome GraphError (Instance ι)} {below : Nat}
  {construct : Args ι → Program σ ι} {before left : Inputs} {entries : Entries ι}

/-! ### How a construction goes on -/

/-- Past the path and the lock, a construction comes to what gathering the inputs comes to. -/
theorem Finds.build_eq (h : s.Finds note below construct before left entries w) :
    ∃ cache, s.workshop.graph.node? s.key = some (.recipe (before ++ left) construct cache) ∧
      build note s.depth s.path s.key (.recipe (before ++ left) construct cache) s.workshop =
        match gather s.key (build note below (s.path ++ [s.key])) (before ++ left) s.locked with
        | (.error e, w) => (.error e, w.giveUp s.key none)
        | (.interrupted why, w) => (.interrupted why, w.giveUp s.key (some why))
        | (.ok entries, w) => constructed s.key
          ((construct ⟨s.key, entries⟩).run (resolveWith (build note below []))
            { w with world := note (.constructing s.key) w.world }) := by
  obtain ⟨cache, hnode, hfree, hnone⟩ := h.node
  refine ⟨cache, hnode, ?_⟩
  rw [h.depth, build, if_neg h.off, hfree, hnone]
  rfl

/-- A construction stops if that of an input does, and in the same way. -/
theorem Below.ends (h : s.Below note t) (hends : t.Ends note (outcome, w))
    (hstopped : outcome.Stopped) :
    s.Ends note (outcome, w.giveUp s.key outcome.interruption?) := by
  obtain @⟨below, construct, before, rest, p, entries, w₁, node, hfinds, hnode⟩ := h
  obtain ⟨node', hnode', hbuild⟩ := hends
  cases hnode.symm.trans hnode'
  obtain ⟨cache, hself, heq⟩ := hfinds.build_eq
  refine ⟨_, hself, heq.trans ?_⟩
  rw [gather_append hfinds.found]
  cases outcome with
  | ok item => exact absurd rfl (hstopped item)
  | error e =>
    rw [gather_failed hnode hbuild]
    rfl
  | interrupted why =>
    rw [gather_interrupted hnode hbuild]
    rfl

/-- Gathering the inputs stops since one is missing, or since the construction at an input stops. -/
theorem inputs_stopped {inputs : Inputs} {cache : Cache ι} {found : Outcome GraphError (Entries ι)}
    (hdepth : s.depth = below + 1) (hoff : s.key ∉ s.path)
    (hnode : s.workshop.graph.node? s.key = some (.recipe inputs construct cache))
    (hfree : cache.locked = false) (hnone : cache.made = none)
    (hgather : gather s.key (build note below (s.path ++ [s.key])) inputs s.locked = (found, w))
    (hstopped : found.Stopped) :
    (∃ e, found = .error e ∧ s.Halts note (.error e)) ∨
      ∃ t outcome, s.Below note t ∧ t.Ends note (outcome, w) ∧ found = outcome.map fun _ => [] := by
  obtain ⟨before, p, rest, entries, w₁, rfl, hbefore, hlast⟩ := gather_stopped hgather hstopped
  have hfinds : s.Finds note below construct before (p :: rest) entries w₁ :=
    ⟨hdepth, hoff, ⟨cache, hnode, hfree, hnone⟩, hbefore⟩
  cases hlast with
  | missing hmissing hrequired => exact .inl ⟨_, rfl, .missing hfinds hmissing hrequired⟩
  | found hinput hfind =>
    exact .inr ⟨_, _, .intro hfinds hinput, ⟨_, hinput, hfind⟩, rfl⟩

/-- A construction that stops has reached an input where it stops, or it stops at the site. -/
theorem Ends.cases (h : s.Ends note (outcome, w')) (hstopped : outcome.Stopped) :
    s.Halts note outcome ∨ ∃ t w, s.Below note t ∧ t.Ends note (outcome, w) := by
  obtain ⟨node, hnode, hbuild⟩ := h
  obtain ⟨depth, path, key, w⟩ := s
  cases node with
  | value item =>
    rw [build_value] at hbuild
    cases hbuild
    exact absurd rfl (hstopped item)
  | recipe inputs construct cache =>
  cases depth with
  | zero =>
    cases hbuild
    exact .inl (.exhausted rfl)
  | succ depth =>
    unfold build at hbuild
    dsimp only at hnode hbuild
    split at hbuild
    · next hpath =>
      cases hbuild
      exact .inl (.circular hpath)
    next hoff =>
    split at hbuild
    · next hlocked =>
      cases hbuild
      exact .inl (.held hoff ⟨_, _, _, hnode, hlocked⟩)
    next hfree =>
    cases hmade : cache.made with
    | some item =>
      rw [hmade] at hbuild
      cases hbuild
      exact absurd rfl (hstopped item)
    | none =>
    have hfree : cache.locked = false := Bool.eq_false_iff.2 hfree
    rw [hmade] at hbuild
    cases hgather : gather key (build note depth (path ++ [key])) inputs
      { w with graph := w.graph.lock key } with | mk found w₁ =>
    have hinputs := inputs_stopped (s := ⟨depth + 1, path, key, w⟩) rfl hoff hnode hfree hmade
      hgather
    rw [hgather] at hbuild
    cases found with
    | error e =>
      cases hbuild
      obtain ⟨_, hsame, hhalts⟩ | ⟨t, found, hbelow, hends, hsame⟩ := hinputs (by rintro _ ⟨⟩)
      · cases hsame
        exact .inl hhalts
      · cases found <;> cases hsame
        exact .inr ⟨t, w₁, hbelow, hends⟩
    | interrupted why =>
      cases hbuild
      obtain ⟨_, hsame, -⟩ | ⟨t, found, hbelow, hends, hsame⟩ := hinputs (by rintro _ ⟨⟩)
      · cases hsame
      · cases found <;> cases hsame
        exact .inr ⟨t, w₁, hbelow, hends⟩
    | ok entries =>
      cases hrun : (construct ⟨key, entries⟩).run (resolveWith (build note depth []))
        { w₁ with world := note (.constructing key) w₁.world } with | mk result w₂ =>
      have hcalls : Calls note ⟨depth + 1, path, key, w⟩ (result, w₂) := by
        refine ⟨depth, construct, inputs, entries, w₁,
          ⟨rfl, hoff, ⟨cache, ?_, hfree, hmade⟩, hgather⟩, hrun⟩
        rw [List.append_nil]
        exact hnode
      dsimp only at hbuild
      rw [hrun] at hbuild
      cases result with
      | ok value =>
        cases hbuild
        exact absurd rfl (hstopped _)
      | error failure =>
        cases hbuild
        exact .inl (.failed hcalls)
      | interrupted why =>
        cases hbuild
        exact .inl (.lost hcalls)

/-- A construction stops if it comes to a site where it stops, and in the same way. -/
theorem Reaches.ends (h : Reaches note start s) (hends : s.Ends note (outcome, w))
    (hstopped : outcome.Stopped) : ∃ w', start.Ends note (outcome, w') := by
  induction h using ReflTransGen.head_induction_on with
  | refl => exact ⟨w, hends⟩
  | head hbelow _ ih =>
    obtain ⟨w', hnext⟩ := ih
    exact ⟨_, hbelow.ends hnext hstopped⟩

/-- A construction that stops has come to a site where it stops for a reason that lies there. -/
theorem Ends.origin (h : s.Ends note (outcome, w')) (hstopped : outcome.Stopped) :
    ∃ t, Reaches note s t ∧ t.Halts note outcome := by
  induction hdepth : s.depth generalizing s w' with
  | zero =>
    obtain hhalts | ⟨t, w, hbelow, -⟩ := h.cases hstopped
    · exact ⟨s, .refl, hhalts⟩
    · obtain ⟨hfinds, -⟩ := hbelow
      cases hdepth.symm.trans hfinds.depth
  | succ depth ih =>
    obtain hhalts | ⟨t, w, hbelow, hends⟩ := h.cases hstopped
    · exact ⟨s, .refl, hhalts⟩
    · have hless : t.depth = depth := by
        obtain ⟨hfinds, -⟩ := hbelow
        exact (Nat.succ.inj (hdepth.symm.trans hfinds.depth)).symm
      obtain ⟨t', hreaches, hhalts⟩ := ih hends hless
      exact ⟨t', .head hbelow hreaches, hhalts⟩

/-! ### What stands on the path -/

/-- A site that a construction has come to, after it has put these keys on the path. -/
structure Stands (start : Site σ ι) (own : List Key) (s : Site σ ι) : Prop where
  path : s.path = start.path ++ own
  depth : start.depth = own.length + s.depth
  nodup : own.Nodup
  /-- None of them was there before, and none was locked. -/
  off : ∀ k ∈ own, k ∉ start.path ∧ ¬start.workshop.graph.Locked k
  /-- The construction holds their locks and no others. -/
  locks : ∀ k, s.workshop.graph.Locked k ↔ start.workshop.graph.Locked k ∨ k ∈ own
  /-- Each of them declares the next one as an input. -/
  chain : (own ++ [s.key]).IsChain s.workshop.graph.Declares
  head : (own ++ [s.key]).head? = some start.key
  evolves : start.workshop.graph.Evolves s.workshop.graph

variable {own : List Key}

/-- At the beginning, the construction has put nothing on the path. -/
theorem Stands.self (s : Site σ ι) : s.Stands [] s where
  path := (List.append_nil _).symm
  depth := (Nat.zero_add _).symm
  nodup := List.nodup_nil
  off := nofun
  locks _ := (or_iff_left List.not_mem_nil).symm
  chain := .singleton _
  head := rfl
  evolves := .refl

/-- Going down to an input puts one key on the path. -/
theorem Stands.down (h : start.Stands own s) (hbelow : s.Below note t) :
    start.Stands (own ++ [s.key]) t := by
  obtain @⟨below, construct, before, rest, p, entries, w, node, hfinds, hnode⟩ := hbelow
  obtain ⟨cache, hself, hfree, -⟩ := hfinds.node
  have hunlocked : ¬s.workshop.graph.Locked s.key := Graph.not_locked_of_free hself hfree
  have hoff : s.key ∉ start.path ++ own := h.path ▸ hfinds.off
  rw [List.mem_append, not_or] at hoff
  have hfound := hfinds.found
  have hlocks : s.locked.graph.SameLocks w.graph := by
    have hkeeps := (build_abides note below (s.path ++ [s.key])).gather s.key before s.locked
    rw [hfound] at hkeeps
    exact hkeeps.locks rfl
  have hgrows : s.workshop.graph.Evolves w.graph := by
    have hlater := Graph.Evolves.effect.gather s.key
      (Graph.Evolves.effect.build note below (s.path ++ [s.key])) before s.locked
    rw [hfound] at hlater
    exact ReflTransGen.head (.cache ..) hlater
  have hdeclared (k k' : Key) (hk : s.workshop.graph.Declares k k') : w.graph.Declares k k' := by
    obtain ⟨inputs, construct, hrecipe, hinput⟩ := hk
    exact ⟨inputs, construct, hgrows.registered hrecipe, hinput⟩
  refine ⟨?path, ?depth, ?nodup, ?off, ?locks, ?chain, ?head, h.evolves.trans hgrows⟩
  case path => rw [h.path, List.append_assoc]
  case depth =>
    rw [h.depth, hfinds.depth, List.length_append, List.length_singleton, Nat.add_assoc,
      Nat.add_comm 1]
  case nodup =>
    rw [← List.concat_eq_append]
    exact h.nodup.concat hoff.2
  case off =>
    refine List.forall_mem_append.2 ⟨h.off, List.forall_mem_singleton.2 ⟨hoff.1, fun hlocked => ?_⟩⟩
    exact hunlocked ((h.locks _).2 (.inl hlocked))
  case locks =>
    intro k
    have hlock : s.locked.graph.Locked k ↔ s.workshop.graph.Locked k ∨ k = s.key :=
      Graph.locked_lock_iff hself
    rw [hlocks k, hlock, h.locks k, List.mem_append, List.mem_singleton, or_assoc]
  case chain =>
    refine List.isChain_append.2 ⟨h.chain.imp hdeclared, .singleton _, ?_⟩
    rintro _ hlast _ ⟨⟩
    rw [List.getLast?_concat] at hlast
    cases hlast
    exact hdeclared _ _ ⟨_, _, Graph.registered?_of_recipe hself, p,
      List.mem_append_right _ List.mem_cons_self, rfl⟩
  case head =>
    rw [List.head?_append, h.head]
    rfl

/-- Wherever a construction has come to, it has put distinct keys on the path, and holds their
locks. -/
theorem Reaches.stands (h : Reaches note start s) : ∃ own, start.Stands own s := by
  induction h with
  | refl => exact ⟨[], .self start⟩
  | tail _ hbelow ih =>
    obtain ⟨own, hstands⟩ := ih
    exact ⟨_, hstands.down hbelow⟩

/-- A key that the construction itself has put on the path leads back to itself. -/
theorem Stands.loop (h : start.Stands own s) (hown : s.key ∈ own) :
    TransGen s.workshop.graph.Declares s.key s.key := by
  have hpairs := (h.chain.imp fun _ _ => TransGen.single).pairwise
  exact (List.pairwise_append.1 hpairs).2.2 s.key hown s.key (List.mem_singleton_self _)

/-- It puts no more keys on the path than there are nodes. -/
theorem Stands.length_le (h : start.Stands own s) : own.length ≤ s.workshop.graph.size := by
  have hheld : s.workshop.graph.Holds own := ⟨h.nodup, fun k hk => (h.locks k).2 (.inr hk)⟩
  exact hheld.length_le

/-- A constructor is not called where no depth is left. -/
theorem ends_exhausted (s : Site σ ι) (hprovides : s.workshop.graph.Provides s.key)
    (hdepth : s.depth = 0) : s.Ends note (.interrupted .tooDeep, s.workshop) := by
  obtain ⟨inputs, construct, hrecipe⟩ := hprovides
  obtain ⟨cache, hnode⟩ := Graph.node?_of_recipe hrecipe
  refine ⟨_, hnode, ?_⟩
  rw [hdepth]
  rfl

/-- A constructor whose key is on the path is reported, before its lock is asked for. -/
theorem ends_circular (s : Site σ ι) (hprovides : s.workshop.graph.Provides s.key)
    (hdepth : 0 < s.depth) (hpath : s.key ∈ s.path) :
    s.Ends note (.error (circular s.path s.key), s.workshop) := by
  obtain ⟨inputs, construct, hrecipe⟩ := hprovides
  obtain ⟨cache, hnode⟩ := Graph.node?_of_recipe hrecipe
  obtain ⟨below, hsucc⟩ := Nat.exists_eq_add_one_of_ne_zero (Nat.ne_of_gt hdepth)
  refine ⟨_, hnode, ?_⟩
  rw [hsucc, build, if_pos hpath]

end Site

/-! ## Both walks -/

/-- Both walks of a graph come to an end, from every node, whatever is in the caches. The check is
the one walk from the node that ends, and what `visit` returns is what this has come to, there and
wherever it goes on from a route: the keys that have been, or why the walk has failed. It goes along
distinct keys of constructors whose components are not cached, goes through the inputs of each once,
and makes no more visits than there are inputs declared, and one. A construction does not depend on
how deep calls may be nested, once that is more than there are nodes, which are bounded if
constructors register them under finitely many keys. Wherever it comes to, it has put distinct keys
on the path, each of which declares the next one, and it holds their locks and no others. A key that
stands on the path is reported, and the lock of its node is not asked for, so a lock that the
construction has to wait for was held before. Where it stops, this is for a reason at some place
that it has come to, and it does stop if what it leads to leads back to itself. -/
theorem walks_end (note : Notice → σ → σ) {w : Workshop σ ι} {key : Key} {node : Node σ ι}
    (hnode : w.graph.node? key = some node) :
    (∃ visits result, w.graph.Walk [] (.node key node) [] visits result ∧
      (∀ visits' result', w.graph.Walk [] (.node key node) [] visits' result' →
        visits' = visits ∧ result' = result) ∧
      w.graph.visit w.graph.size [] key node [] = result ∧
      w.graph.verify key node = result.map (fun _ => ()) ∧
      (∀ v ∈ visits, w.graph.Route v.path ∧
        (v.expanded = true → w.graph.Route (v.path ++ [v.key]))) ∧
      (Graph.expansions visits).Nodup ∧ visits.length ≤ 1 + w.graph.inputCount w.graph.keys) ∧
    (∀ (depth : Nat) (path done : List Key) (k : Key) (n : Node σ ι),
      w.graph.node? k = some n → w.graph.Route path → k ∉ path →
        w.graph.size ≤ path.length + depth →
          ∃ visits, w.graph.Walk path (.node k n) done visits (w.graph.visit depth path k n done)) ∧
    ∀ (path : List Key) (depth : Nat),
      let start : Site σ ι := ⟨depth, path, key, w⟩
      let r := build note depth path key node w
      (∀ keys, w.Confined keys → r.2.extent ≤ 2 * keys.length) ∧
      (r.2.extent < depth →
        (r.1 ≠ .interrupted .tooDeep ∧ ∀ more, build note (depth + more) path key node w = r) ∧
        ∀ t, Site.Reaches note start t →
          (∃ own, start.Stands own t ∧ own.length ≤ t.workshop.graph.size ∧
            (t.key ∈ own → TransGen t.workshop.graph.Declares t.key t.key)) ∧
          (t.workshop.graph.Provides t.key → t.key ∈ t.path →
            t.Ends note (.error (circular t.path t.key), t.workshop) ∧
              r.1 = .error (circular t.path t.key)) ∧
          (t.key ∉ t.path → t.workshop.graph.Locked t.key → w.graph.Locked t.key)) ∧
      (r.1.Stopped → ∃ t, Site.Reaches note start t ∧ t.Halts note r.1) ∧
      ((∃ looping, ReflTransGen w.graph.Uses key looping ∧ TransGen w.graph.Uses looping looping) →
        r.1.Stopped) := by
  refine ⟨?check, ?visits, fun path depth => ?construction⟩
  case check =>
    obtain ⟨visits, result, hwalk, hvisit, hverify, hthrifty, hlength⟩ := Graph.verify_walks hnode
    exact ⟨visits, result, hwalk, fun _ _ h => hwalk.unique h, hvisit, hverify, hthrifty.routes,
      hthrifty.once, hlength⟩
  case visits =>
    intro depth path done k n hn hroute hoff hdepth
    exact Graph.visit_walks depth hn hroute hoff hdepth done
  case construction =>
    intro start r
    obtain ⟨habides, hknots⟩ := build_abides note depth path key node w hnode
    have hends : start.Ends note (r.1, r.2) := ⟨node, hnode, rfl⟩
    refine ⟨fun keys hkeys => ?bound, fun hdepth => ?enough, hends.origin, ?loops⟩
    case bound => exact (build_confined note depth path key node w hkeys hnode).extent_le
    case loops => exact hknots _ (Graph.knotted_of_loop w.graph)
    case enough =>
      have hdeep : r.1 ≠ .interrupted .tooDeep := fun hdeep => by
        have hroom := habides.room (congrArg Outcome.interruption? hdeep) [] ⟨List.nodup_nil, nofun⟩
        rw [List.length_nil, Nat.zero_add] at hroom
        exact absurd hdepth (Nat.not_lt_of_le hroom)
      -- a construction that stops on the way stops in the same way as a whole
      have hsame {t : Site σ ι} {outcome : Outcome GraphError (Instance ι)} {w' : Workshop σ ι}
          (hreaches : Site.Reaches note start t) (ht : t.Ends note (outcome, w'))
          (hstopped : outcome.Stopped) : r.1 = outcome := by
        obtain ⟨w₂, node', hnode', hbuild⟩ := hreaches.ends ht hstopped
        cases hnode.symm.trans hnode'
        exact congrArg Prod.fst hbuild
      refine ⟨⟨hdeep, fun more => ?more⟩, fun t hreaches => ?place⟩
      case more =>
        exact build_deeper note depth more path key node w fun htoo =>
          hdeep (Outcome.eq_interrupted htoo)
      case place =>
        obtain ⟨own, hstands⟩ := hreaches.stands
        refine ⟨⟨own, hstands, hstands.length_le, hstands.loop⟩, fun hprovides hpath => ?reported,
          fun hoff hlocked => ?held⟩
        case reported =>
          have hpositive : 0 < t.depth := Nat.pos_of_ne_zero fun hzero =>
            hdeep (hsame hreaches (t.ends_exhausted hprovides hzero) nofun)
          have hcircular : t.Ends note _ := t.ends_circular hprovides hpositive hpath
          exact ⟨hcircular, hsame hreaches hcircular nofun⟩
        case held =>
          refine ((hstands.locks t.key).1 hlocked).resolve_right fun hown => hoff ?_
          rw [hstands.path]
          exact List.mem_append_right _ hown

/-- The service that leads back to itself is reported where the path gets to it again, as a loop of
the two keys, and the check makes three visits at most. -/
theorem loopedWorkshop_ends :
    ∃ node, loopedWorkshop.graph.node? (.of ⟨"Service"⟩) = some node ∧
      (build (fun _ count => count + 1) 3 [] (.of ⟨"Service"⟩) node loopedWorkshop).1 =
        .error (circular [.of ⟨"Service"⟩, .of ⟨"Cache"⟩] (.of ⟨"Service"⟩)) ∧
      ∃ visits result,
        loopedWorkshop.graph.Walk [] (.node (.of ⟨"Service"⟩) node) [] visits result ∧
        visits.length ≤ 3 := by
  have hnode : loopedWorkshop.graph.node? (.of ⟨"Service"⟩) = some
      (.ofRecipe [.of "cache" ⟨"Cache"⟩] fun _ => .finish (.ok 0)) := rfl
  obtain ⟨⟨visits, result, hwalk, -, -, -, -, -, hlength⟩, -, hbuild⟩ :=
    walks_end (fun _ count => count + 1) hnode
  obtain ⟨-, henough, -⟩ := hbuild [] 3
  obtain ⟨-, hreached⟩ := henough (by decide)
  let service : Site Nat Nat := ⟨3, [], .of ⟨"Service"⟩, loopedWorkshop⟩
  let cache : Site Nat Nat := ⟨2, [.of ⟨"Service"⟩], .of ⟨"Cache"⟩, service.locked⟩
  have hservice : service.Finds (fun _ count => count + 1) 2 (fun _ => .finish (.ok 0)) []
      [.of "cache" ⟨"Cache"⟩] [] service.locked :=
    ⟨rfl, List.not_mem_nil, ⟨_, rfl, rfl, rfl⟩, rfl⟩
  have hcache : cache.Finds (fun _ count => count + 1) 1 (fun _ => .finish (.ok 0)) []
      [(Param.of "service" ⟨"Service"⟩).asOptional] [] cache.locked :=
    ⟨rfl, by decide, ⟨_, rfl, rfl, rfl⟩, rfl⟩
  have hback := hreached _ (.tail (.single (.intro hservice rfl)) (.intro hcache rfl))
  exact ⟨_, hnode, (hback.2.1 ⟨_, _, rfl⟩ (by decide)).2, visits, result, hwalk, hlength⟩

end ServiceHost
