import ServiceHost.Proofs.Graph.Ledger

/-!
# Resolutions that run at the same time

Whatever the threads of a crew do, each finds the acts of the others to be such as it reckons with,
and keeps to its own rules in turn (`Shift.Sound.step`), so that this is so after any number of acts
in any order (`Shift.Sound.run`).

Nobody waits for ever. Who has a lock to look into a cache does not wait. Otherwise what a thread
has under construction leads to the component that it waits for, and all of this can be made, so
that going from a lock to the one that its holder waits for leads down and comes to an end
(`Shift.Sound.not_stuck`). This and what the ledgers say is put together in
`Shift.concurrent_resolution`.

A thread may be refused what it would get if it was alone: it comes by while another one looks into
the cache of a component that is there, takes the component for one that is still to be made, and
finds that by inputs that were registered since it could not be made any more
(`watermarked_disturbed`).
-/

namespace ServiceHost

open Relation

variable {σ ι : Type}

namespace Crew

def Unfinished (c : Crew σ ι) (i : Nat) : Prop :=
  ∃ a next, c.threads[i]? = some (.act a next)

/-- The thread cannot go on before another one has. -/
def Waiting (note : Notice → σ → σ) (c : Crew σ ι) (i : Nat) : Prop :=
  ∃ a next, c.threads[i]? = some (.act a next) ∧ a.perform note c.workshop = none

instance (note : Notice → σ → σ) (c : Crew σ ι) (i : Nat) : Decidable (c.Waiting note i) :=
  match hthread : c.threads[i]? with
  | some (.act a next) =>
    if hact : (a.perform note c.workshop).isNone then
      .isTrue ⟨a, next, hthread, Option.isNone_iff_eq_none.1 hact⟩
    else .isFalse (by
      rintro ⟨a', next', hthread', hact'⟩
      cases hthread.symm.trans hthread'
      exact hact (Option.isNone_iff_eq_none.2 hact'))
  | some (.done r) => .isFalse (by
      rintro ⟨a', next', hthread', -⟩
      cases hthread.symm.trans hthread')
  | none => .isFalse (by
      rintro ⟨a', next', hthread', -⟩
      cases hthread.symm.trans hthread')

end Crew

/-! ## The graph under the threads -/

section
variable {g : Graph σ ι} {known : Key → Instance ι → Prop} {note : Notice → σ → σ} {a : Act σ ι}
  {answer : a.Answer} {w w' : Workshop σ ι} {s : Stack}

/-- No act that is allowed marks a cache, or takes a mark away. -/
theorem Act.effect_poisoned (answer : a.Answer) (hallowed : a.Allowed g known s)
    (cache : Cache ι) : (a.effect answer cache).poisoned = cache.poisoned := by
  cases a with
  | poison k => exact hallowed.elim
  | look k => cases answer <;> rfl
  | _ => rfl

/-- A cache stays one of those that a thread may find. -/
theorem Cache.Amid.effect {key : Key} {cache cache' : Cache ι}
    (h : cache.Amid (g.trusted.Makeable key) cache') (hallowed : a.Allowed g known s)
    (hproper : a.Proper g answer key cache') :
    cache.Amid (g.trusted.Makeable key) (a.effect answer cache') where
  free := h.free
  mark := (Act.effect_poisoned answer hallowed cache').trans h.mark
  kept item hitem := hproper.kept item (h.kept item hitem)
  made hnone hmade := by
    by_cases hbefore : cache'.made = none
    · exact hproper.made hbefore hmade
    · exact h.made hnone hbefore

/-- The graph stays one of those that the threads reckon with. -/
theorem Graph.Amid.perform (h : g.Amid w.graph) (hallowed : a.Allowed g known s)
    (hact : a.perform note w = some (answer, w'))
    (hproper : ∀ key cache, a.key? = some key → w.graph.cache? key = some cache →
      a.Proper g answer key cache) : g.Amid w'.graph := by
  intro key
  rw [Act.perform_node? hact hallowed]
  by_cases hkey : a.key? = some key
  · rw [if_pos hkey]
    cases hnode' : w.graph.node? key with
    | none =>
      rw [(h.none_iff key).1 hnode']
      exact .none
    | some node' =>
      obtain ⟨node, hnode, hsince⟩ := h.node_of hnode'
      rw [hnode]
      refine .some ?_
      cases hsince with
      | value item => exact .value item
      | recipe hcache =>
        exact .recipe (hcache.effect hallowed (hproper key _ hkey (cache?_of_node? hnode')))
  · rw [if_neg hkey]
    exact h key

/-- Components stay. -/
theorem Act.item?_of_perform (hact : a.perform note w = some (answer, w'))
    (hallowed : a.Allowed g known s)
    (hproper : ∀ key cache, a.key? = some key → w.graph.cache? key = some cache →
      a.Proper g answer key cache)
    {key : Key} {item : Instance ι} (hitem : w.graph.item? key = some item) :
    w'.graph.item? key = some item := by
  obtain ⟨node, hnode, hitem⟩ := Option.bind_eq_some_iff.1 hitem
  have hnode' := Act.perform_node? hact hallowed key
  by_cases hkey : a.key? = some key
  · rw [if_pos hkey, hnode, Option.map_some] at hnode'
    rw [Graph.item?_of_node? hnode']
    cases node with
    | value => exact hitem
    | recipe inputs construct cache =>
      exact (hproper key cache hkey (Graph.cache?_of_node? hnode)).kept item hitem
  · rw [if_neg hkey, hnode] at hnode'
    rw [Graph.item?_of_node? hnode']
    exact hitem

/-- A thread gets the answers that it reckons with. -/
theorem Act.yields_of_perform (hact : a.perform note w = some (answer, w'))
    (hallowed : a.Allowed g known s) {known' : Key → Instance ι → Prop} {missed : List Key}
    (hamid : g.Amid w.graph) (hbefore : w.graph.KnownTo known') (hknown : w'.graph.KnownTo known')
    {i : Nat} {moves : List (Crew.Move σ ι)}
    (hmissed : Shift.missedBy i (⟨i, a, answer⟩ :: moves) ⊆ missed)
    (hstored : ∀ key item, a = .store key item → ∃ cache, w.graph.cache? key = some cache) :
    a.Yields g known' missed answer := by
  cases a with
  | peek key =>
    cases hact
    exact ⟨w.graph, hamid, hknown, rfl⟩
  | look key =>
    rcases Act.look_cases hact with ⟨rfl, -⟩ | ⟨cache, hcache, -, rfl, -⟩
    · rw [Shift.missedBy, if_pos rfl] at hmissed
      exact hmissed List.mem_cons_self
    · exact ⟨w.graph, hamid, hbefore, hcache⟩
  | lock key =>
    obtain ⟨cache', hcache', -, hanswer, -⟩ := Act.lock_cases hact
    obtain ⟨inputs, construct, hnode'⟩ := Graph.node?_of_cache? hcache'
    cases answer with
    | some item => exact hbefore key item ((Graph.item?_of_node? hnode').trans hanswer.symm)
    | none =>
      obtain ⟨node, hnode, hsince⟩ := hamid.node_of hnode'
      cases hsince with
      | @recipe _ _ cache _ hcache =>
        refine ⟨inputs, Graph.unbuilt_trusted.2 ⟨construct, cache, hnode, ?_⟩⟩
        cases hmade : cache.made with
        | none => rw [Node.isCached, hmade, Option.isSome_none, Bool.and_false]
        | some item => cases hanswer.trans (hcache.kept item hmade)
  | store key item =>
    obtain ⟨cache, hcache⟩ := hstored key item rfl
    obtain ⟨inputs, construct, hnode⟩ := Graph.node?_of_cache? hcache
    have hnode' := (Act.perform_node? hact hallowed key).trans (if_pos rfl)
    rw [hnode, Option.map_some] at hnode'
    exact hknown key item (Graph.item?_of_node? hnode')
  | call key entries => trivial
  | read => trivial
  | write world => trivial
  | register key node => trivial
  | returned key result => trivial
  | release key => trivial
  | poison key => trivial

end

namespace Shift

variable {g : Graph σ ι} {keys : List Key} {s : Shift σ ι} {busy : Nat → Stack}
  {note : Notice → σ → σ} {i : Nat}

/-- The state of a shift, whose threads keep to the rules with these locks. -/
structure Sound (g : Graph σ ι) (keys : List Key) (s : Shift σ ι) (busy : Nat → Stack) :
    Prop where
  amid : g.Amid s.crew.workshop.graph
  ledger : ∀ key, ∃ owner, Ledger g s.crew.workshop.graph s.moves busy key owner
  /-- Nobody else has a lock. -/
  absent : ∀ i, s.crew.threads[i]? = none → busy i = []
  conduct : ∀ i (t : Thread σ ι (Outcome GraphError (Instance ι))),
    s.crew.threads[i]? = some t → ∃ key, keys[i]? = some key ∧
      ∀ known missed, s.crew.workshop.graph.KnownTo known → missedBy i s.moves ⊆ missed →
        t.Meets g known missed (fun locks r => locks = [] ∧ Thread.Ends g known missed key r)
          (busy i)
  /-- Constructors are called with what is in the caches. -/
  handed : ∀ i owner entries answer, ⟨i, .call owner entries, answer⟩ ∈ s.moves →
    ∀ p item, (p, some item) ∈ entries → s.crew.workshop.graph.item? p.key = some item

/-- One act of a thread, or nothing. -/
theorem step_cases (note : Notice → σ → σ) (s : Shift σ ι) (i : Nat) : s.step note i = s ∨
    ∃ (a : Act σ ι) (next : a.Answer → Thread σ ι (Outcome GraphError (Instance ι)))
      (answer : a.Answer) (w' : Workshop σ ι), s.crew.threads[i]? = some (.act a next) ∧
      a.perform note s.crew.workshop = some (answer, w') ∧
      s.step note i = ⟨⟨w', s.crew.threads.set i (next answer)⟩, ⟨i, a, answer⟩ :: s.moves⟩ := by
  cases hthread : s.crew.threads[i]? with
  | none => exact .inl (by rw [step, Crew.move?, hthread])
  | some t =>
    cases t with
    | done r => exact .inl (by rw [step, Crew.move?, hthread])
    | act a next =>
      cases hact : a.perform note s.crew.workshop with
      | none => exact .inl (by simp only [step, Crew.move?, hthread, hact])
      | some r =>
        obtain ⟨answer, w'⟩ := r
        exact .inr ⟨a, next, answer, w', rfl, hact, by simp only [step, Crew.move?, hthread, hact]⟩

/-- A thread has come by its next act, and the others stand where they stood. -/
theorem threads_set {threads : List (Thread σ ι (Outcome GraphError (Instance ι)))}
    {t : Thread σ ι (Outcome GraphError (Instance ι))} (h : threads[i]? = some t)
    (t' : Thread σ ι (Outcome GraphError (Instance ι))) (j : Nat) :
    (threads.set i t')[j]? = if j = i then some t' else threads[j]? := by
  by_cases hj : j = i
  · subst hj
    rw [List.getElem?_set_self (List.getElem?_eq_some_iff.1 h).1, if_pos rfl]
  · rw [List.getElem?_set_ne (Ne.symm hj), if_neg hj]

/-- What a thread has missed it has missed. -/
theorem missedBy_cons (i : Nat) (move : Crew.Move σ ι) (moves : List (Crew.Move σ ι)) :
    missedBy i moves ⊆ missedBy i (move :: moves) := by
  obtain ⟨j, a, answer⟩ := move
  cases a with
  | look key =>
    cases answer with
    | some cache => exact List.Subset.refl _
    | none =>
      rw [missedBy]
      split
      · exact List.subset_cons_self _ _
      · exact List.Subset.refl _
  | _ => exact List.Subset.refl _

section
variable {a : Act σ ι} {next : a.Answer → Thread σ ι (Outcome GraphError (Instance ι))}
  {answer : a.Answer} {w' : Workshop σ ι} {known : Key → Instance ι → Prop}

/-- A thread may do what it is about to do. -/
theorem Sound.allowed (h : Sound g keys s busy)
    (hthread : s.crew.threads[i]? = some (.act a next)) :
    a.Allowed g (fun k item => s.crew.workshop.graph.item? k = some item) (busy i) := by
  obtain ⟨key, -, hmeets⟩ := h.conduct i _ hthread
  exact (hmeets _ _ (fun _ _ hitem => hitem) (List.Subset.refl _)).1

theorem Sound.proper (h : Sound g keys s busy)
    (hthread : s.crew.threads[i]? = some (.act a next)) (key : Key) (cache : Cache ι)
    (hkey : a.key? = some key) (hcache : s.crew.workshop.graph.cache? key = some cache) :
    a.Proper g answer key cache := by
  obtain ⟨owner, hledger⟩ := h.ledger key
  exact hledger.proper hkey (h.allowed hthread) hcache

/-- What was known of the components is so after the act. -/
theorem Sound.knownTo (h : Sound g keys s busy)
    (hthread : s.crew.threads[i]? = some (.act a next))
    (hact : a.perform note s.crew.workshop = some (answer, w')) (hknown : w'.graph.KnownTo known) :
    s.crew.workshop.graph.KnownTo known :=
  fun key item hitem => hknown key item
    (Act.item?_of_perform hact (h.allowed hthread) (h.proper hthread) hitem)

/-- What an act of a thread is answered is true of a graph that the others may have come to. -/
theorem Sound.yields (h : Sound g keys s busy)
    (hthread : s.crew.threads[i]? = some (.act a next))
    (hact : a.perform note s.crew.workshop = some (answer, w')) (hknown : w'.graph.KnownTo known)
    {missed : List Key} (hmissed : missedBy i (⟨i, a, answer⟩ :: s.moves) ⊆ missed) :
    a.Yields g known missed answer := by
  refine Act.yields_of_perform hact (h.allowed hthread) h.amid (h.knownTo hthread hact hknown)
    hknown hmissed ?_
  rintro key item rfl
  obtain ⟨owner, hledger⟩ := h.ledger key
  obtain ⟨_, cache, _, _, hcache, -⟩ := hledger.at_head (h.allowed hthread)
  exact ⟨cache, hcache⟩

/-- An act of one thread leaves all of them in order. -/
theorem Sound.perform (h : Sound g keys s busy)
    (hthread : s.crew.threads[i]? = some (.act a next))
    (hact : a.perform note s.crew.workshop = some (answer, w')) :
    Sound g keys ⟨⟨w', s.crew.threads.set i (next answer)⟩, ⟨i, a, answer⟩ :: s.moves⟩
      (Function.update busy i (a.after (busy i) answer)) where
  amid := h.amid.perform (h.allowed hthread) hact (h.proper hthread)
  ledger key := by
    obtain ⟨owner, hledger⟩ := h.ledger key
    by_cases hkey : a.key? = some key
    · have hyields : a.Yields g (fun k item => w'.graph.item? k = some item) _ answer :=
        h.yields hthread hact (fun _ _ hitem => hitem) (List.Subset.refl _)
      exact hledger.own hkey (h.allowed hthread) hyields hact
    · exact ⟨owner, hledger.other hkey (h.allowed hthread) hact⟩
  absent j hj := by
    rw [threads_set hthread] at hj
    split at hj
    · cases hj
    · next hne =>
      rw [Function.update_of_ne hne]
      exact h.absent j hj
  conduct j t hj := by
    rw [threads_set hthread] at hj
    split at hj
    · next heq =>
      subst heq
      cases hj
      obtain ⟨key, hkey, hmeets⟩ := h.conduct j _ hthread
      refine ⟨key, hkey, fun known missed hknown hmissed => ?_⟩
      rw [Function.update_self]
      have hbefore := List.Subset.trans (missedBy_cons j _ s.moves) hmissed
      exact (hmeets known missed (h.knownTo hthread hact hknown) hbefore).2 answer
        (h.yields hthread hact hknown hmissed)
    · next hne =>
      obtain ⟨key, hkey, hmeets⟩ := h.conduct j t hj
      refine ⟨key, hkey, fun known missed hknown hmissed => ?_⟩
      rw [Function.update_of_ne hne]
      exact hmeets known missed (h.knownTo hthread hact hknown)
        (List.Subset.trans (missedBy_cons j _ s.moves) hmissed)
  handed j owner entries answer' hmem p item hp := by
    have hknown : s.crew.workshop.graph.KnownTo fun k item => w'.graph.item? k = some item :=
      h.knownTo hthread hact fun _ _ hitem => hitem
    rcases List.mem_cons.1 hmem with hmem | hmem
    · cases hmem
      exact hknown _ _ ((h.allowed hthread).2 p item hp)
    · exact hknown _ _ (h.handed j owner entries answer' hmem p item hp)

end

theorem Sound.step (h : Sound g keys s busy) (note : Notice → σ → σ) (i : Nat) :
    ∃ busy', Sound g keys (s.step note i) busy' := by
  rcases step_cases note s i with hsame | ⟨a, next, answer, w', hthread, hact, hstep⟩
  · exact ⟨busy, hsame.symm ▸ h⟩
  · exact ⟨_, hstep.symm ▸ h.perform hthread hact⟩

/-- Threads stay sound whatever the schedule. -/
theorem Sound.run (h : Sound g keys s busy) (note : Notice → σ → σ) (schedule : List Nat) :
    ∃ busy', Sound g keys (schedule.foldl (Shift.step note) s) busy' := by
  induction schedule generalizing s busy with
  | nil => exact ⟨busy, h⟩
  | cons i rest ih =>
    obtain ⟨busy', hnext⟩ := h.step note i
    exact ih hnext

/-- Before anything is done no thread has a lock. -/
theorem sound_crew (w : Workshop σ ι) (keys : List Key) (hlocks : w.graph.LockedIn [])
    (hreturns : w.graph.Returns) : Sound w.graph keys ⟨w.crew keys, []⟩ fun _ => [] where
  amid := .refl hlocks
  ledger key := by
    refine ⟨none, fun _ => rfl, absurd rfl, fun cache hcache => ?_, fun _ _ _ _ hown => ?_,
      fun _ _ hown => ?_, rfl, Nat.zero_le _, absurd rfl⟩
    · obtain ⟨inputs, construct, hnode⟩ := Graph.node?_of_cache? hcache
      exact hlocks.free hnode List.not_mem_nil
    · cases hown
    · cases hown
  absent _ _ := rfl
  conduct i t ht := by
    obtain ⟨key, hkey, rfl⟩ := Option.map_eq_some_iff.1 ((List.getElem?_map ..).symm.trans ht)
    exact ⟨key, hkey, fun known missed _ _ =>
      Thread.resolve_meets hreturns _ (Nat.le_succ _) key⟩
  handed _ _ _ _ hmem := absurd hmem List.not_mem_nil

/-! ## Waiting -/

end Shift

/-- Going on from a component that can be made to those that it uses comes to an end. -/
theorem Graph.Makeable.acc {g : Graph σ ι} {key : Key} (h : g.Makeable key) :
    Acc (Function.swap g.Uses) key := by
  induction h with
  | @intro key inputs hunbuilt _ _ ih =>
    refine .intro key fun used huses => ?_
    obtain ⟨inputs', hunbuilt', ⟨p, hp, rfl⟩, hpending⟩ := huses
    rw [hunbuilt'.unique hunbuilt] at hp
    exact ih p hp hpending

namespace Shift

/-- A thread waits for a lock that another one has: to look into the cache, or because the component
is under construction. It does not look into a cache itself, and what it has under construction
leads there. -/
theorem Sound.waits (h : Sound g keys s busy) (hwait : s.crew.Waiting note i) :
    ∃ key j stage, (key, stage) ∈ busy j ∧ (stage ≠ .looking → g.trusted.Makeable key) ∧
      ∀ outer ∈ busy i, outer.2 ≠ .looking ∧
        (stage ≠ .looking → TransGen g.trusted.Uses outer.1 key) := by
  obtain ⟨a, next, hthread, hact⟩ := hwait
  have hallowed := h.allowed hthread
  cases a with
  | lock k =>
    obtain ⟨⟨before, hbefore⟩, -, houter⟩ := hallowed
    obtain ⟨_, _, hnode⟩ := Graph.node?_of_cache? hbefore
    obtain ⟨cache, hcache, -⟩ := h.amid.recipe hnode
    have hlocked : cache.locked = true := by
      cases hlocked : cache.locked with
      | true => rfl
      | false => cases (Act.lock_takes hcache hlocked).symm.trans hact
    obtain ⟨owner, hledger⟩ := h.ledger k
    have howner := (hledger.locked cache hcache).symm.trans hlocked
    cases owner with
    | none => cases howner
    | some o =>
      obtain ⟨j, stage⟩ := o
      have hheld : stagesOf k (busy j) = [stage] := (hledger.held j).trans (if_pos rfl)
      have hmakeable := hledger.makeable j stage rfl
      refine ⟨k, j, stage, mem_of_stagesOf (hheld ▸ List.mem_singleton_self stage), hmakeable,
        fun outer hmem => ⟨(houter outer hmem).1, fun hstage => ?_⟩⟩
      cases hmakeable hstage with
      | intro hunbuilt => exact (houter outer hmem).2 ⟨_, hunbuilt⟩
  | look k =>
    rw [Act.perform] at hact
    split at hact
    · split at hact <;> cases hact
    · cases hact
  | poison k => exact hallowed.elim
  | register k node => exact hallowed.elim
  | _ => cases hact

/-- As long as not all threads have come to their ends, one of them need not wait. -/
theorem Sound.not_stuck (h : Sound g keys s busy)
    (hall : ∀ i, s.crew.Unfinished i → s.crew.Waiting note i) (i : Nat) :
    ¬ s.crew.Unfinished i := by
  have hunfinished : ∀ {j key stage}, (key, stage) ∈ busy j → s.crew.Unfinished j := by
    intro j key stage hmem
    cases hthread : s.crew.threads[j]? with
    | none =>
      rw [h.absent j hthread] at hmem
      cases hmem
    | some t =>
      cases t with
      | act a next => exact ⟨a, next, hthread⟩
      | done r =>
        obtain ⟨_, -, hmeets⟩ := h.conduct j _ hthread
        rw [(hmeets _ _ (fun _ _ hitem => hitem) (List.Subset.refl _)).1] at hmem
        cases hmem
  -- who waits does not look into a cache
  have hstage : ∀ {j key stage}, (key, stage) ∈ busy j → stage ≠ .looking := by
    intro j key stage hmem
    obtain ⟨_, _, _, -, -, houter⟩ := h.waits (hall j (hunfinished hmem))
    exact (houter (key, stage) hmem).1
  have hfree : ∀ key, g.trusted.Makeable key → ∀ j stage, (key, stage) ∉ busy j := by
    intro key hmakeable
    -- the holder of a lock waits for one further down
    have hacc := hmakeable.acc.transGen
    clear hmakeable
    induction hacc with
    | intro key _ ih =>
      intro j stage hmem
      obtain ⟨key', j', stage', hmem', -, houter⟩ := h.waits (hall j (hunfinished hmem))
      have hleads := (houter (key, stage) hmem).2 (hstage hmem')
      exact ih key' (transGen_swap.2 hleads) j' stage' hmem'
  intro hi
  obtain ⟨key, j, stage, hmem, hmakeable, -⟩ := h.waits (hall i hi)
  exact hfree key (hmakeable (hstage hmem)) j stage hmem

/-! ## What comes of it -/

/-- A component is handed out for the key: to the caller of a thread, or to a constructor as an
input. -/
inductive Handed (keys : List Key) (s : Shift σ ι) (key : Key) (item : Instance ι) : Prop
  | result {i : Nat} (hkey : keys[i]? = some key) (hresult : s.crew.result? i = some (.ok item))
  | input {i : Nat} {owner : Key} {entries : List (Param × Option (Instance ι))}
      {answer : (Act.call (σ := σ) owner entries).Answer} {p : Param}
      (hcall : ⟨i, .call owner entries, answer⟩ ∈ s.moves) (hp : (p, some item) ∈ entries)
      (hkey : p.key = key)

/-- A call that has ended has ended as it should. -/
theorem Sound.ended (h : Sound g keys s busy) {key : Key}
    {r : Outcome GraphError (Instance ι)} (hkey : keys[i]? = some key)
    (hresult : s.crew.result? i = some r) :
    Thread.Ends g (fun k item => s.crew.workshop.graph.item? k = some item)
      (missedBy i s.moves) key r := by
  unfold Crew.result? at hresult
  split at hresult
  · next hthread =>
    cases hresult
    obtain ⟨key', hkey', hmeets⟩ := h.conduct i _ hthread
    cases hkey.symm.trans hkey'
    exact (hmeets _ _ (fun _ _ hitem => hitem) (List.Subset.refl _)).2
  · cases hresult

/-- What is handed out is in the cache. -/
theorem Sound.item?_of_handed (h : Sound g keys s busy) {key : Key} {item : Instance ι}
    (hhanded : s.Handed keys key item) : s.crew.workshop.graph.item? key = some item := by
  cases hhanded with
  | result hkey hresult => exact h.ended hkey hresult
  | input hcall hp hkey => exact hkey ▸ h.handed _ _ _ _ hcall _ item hp

end Shift

/-- What a resolution without these components would not be refused could be made anew. -/
theorem Graph.spared_of_resolve {g : Graph σ ι} {missed : List Key} (note : Notice → σ → σ)
    {w : Workshop σ ι} (hw : w.graph = g.without missed)
    (h : ∀ k ∈ missed, g.item? k ≠ none →
      ∀ e, (w.resolve note k).1 = .error e → e.ofCheck = false) : g.Spared missed := by
  intro k hmem hmade
  refine Classical.byContradiction fun hnot => ?_
  obtain ⟨node, hnode⟩ : ∃ node, g.node? k = some node := by
    obtain ⟨item, hitem⟩ := Option.ne_none_iff_exists'.1 hmade
    obtain ⟨node, hnode, -⟩ := Option.bind_eq_some_iff.1 hitem
    exact ⟨node, hnode⟩
  obtain ⟨e, hkind, hrefused⟩ := Graph.refused_without hnode (.inl hmem) hnot
  cases hkind.symm.trans (h k hmem hmade e (hrefused note _ w hw))

namespace Shift

/-- Any number of threads resolve keys of one graph at the same time, whose constructors return and
make no requests, and they have come anywhere. One of those that have not ended need not wait. No
two calls of one constructor run at the same time, and one at most returns a component. For each key
one component is handed out, whoever it is handed out to. A call that ends in an error of the check
would be refused if it was alone and none of the components was there whose locks it has found held.
It would be refused with the same error in the graph as it was at first, unless one of these
components was there then, and would be refused itself without them. Every call returns. -/
theorem concurrent_resolution (note : Notice → σ → σ) (w : Workshop σ ι) (keys : List Key)
    (schedule : List Nat) (hlocks : w.graph.LockedIn []) (hreturns : w.graph.Returns) :
    let s := w.shift note keys schedule
    ((∃ i, s.crew.Unfinished i) → ∃ i, s.crew.Unfinished i ∧ ¬ s.crew.Waiting note i) ∧
      (∀ key, (running key s.moves).length ≤ 1 ∧ s.moves.countP (returnsOk key) ≤ 1) ∧
      (∀ key item item', s.Handed keys key item → s.Handed keys key item' → item = item') ∧
      (∀ i key e, keys[i]? = some key → s.crew.result? i = some (.error e) → e.ofCheck = true →
        let bare : Workshop σ ι := { w with graph := w.graph.without (missedBy i s.moves) }
        (∃ e', e'.ofCheck = true ∧ (bare.resolve note key).1 = .error e') ∧
          ((∀ k ∈ missedBy i s.moves, w.graph.item? k ≠ none →
            ∀ e', (bare.resolve note k).1 = .error e' → e'.ofCheck = false) →
              (w.resolve note key).1 = .error e)) ∧
      ∀ i key why, keys[i]? = some key → s.crew.result? i ≠ some (.interrupted why) := by
  intro s
  obtain ⟨busy, h⟩ := (sound_crew w keys hlocks hreturns).run note schedule
  refine ⟨?_, fun key => ?_, fun key item item' hitem hitem' => ?_,
    fun i key e hkey hresult hkind => ?_, fun i key why hkey hresult => ?_⟩
  · rintro ⟨i, hunfinished⟩
    refine Classical.byContradiction fun hnone => ?_
    exact h.not_stuck (fun j hj => Classical.byContradiction fun hgo => hnone ⟨j, hj, hgo⟩) i
      hunfinished
  · obtain ⟨owner, hledger⟩ := h.ledger key
    refine ⟨?_, hledger.returned_le⟩
    have hrunning : running key s.moves = callerIn owner := hledger.running
    rw [hrunning]
    unfold callerIn
    split
    · exact Nat.le_refl 1
    · exact Nat.zero_le 1
  · exact Option.some.inj ((h.item?_of_handed hitem).symm.trans (h.item?_of_handed hitem'))
  · intro bare
    obtain ⟨⟨e', hkind', hrefused⟩, hsame⟩ := h.ended hkey hresult hkind
    refine ⟨⟨e', hkind', hrefused note _ bare rfl⟩, fun hspared => ?_⟩
    exact (hsame (Graph.spared_of_resolve note rfl hspared)).2 note _ w rfl
  · exact h.ended hkey hresult

end Shift

/-! ## Examples -/

/-- The constructors of a graph return if those that are registered one after another do. -/
theorem Graph.Returns.provide {w : Workshop σ ι} (h : w.graph.Returns) (key : Key)
    (inputs : Inputs) {construct : Args ι → Program σ ι}
    (hreturns : ∀ args, (construct args).Returns) :
    (w.register key (.ofRecipe inputs construct)).2.graph.Returns := by
  unfold Workshop.register
  cases hregister : w.graph.register key (.ofRecipe inputs construct) with
  | error e => exact h
  | ok graph =>
    intro k inputs' construct' cache hnode
    rcases Graph.register_ok hregister k with ⟨hnew, -⟩ | hsame
    · cases hnode.symm.trans hnew
      exact hreturns
    · exact h k inputs' construct' cache (hsame.symm.trans hnode)

/-- One more constructor, of components that tell how many calls there have been. -/
def provideCounted (w : Workshop Nat Nat) (type : String) (inputs : Inputs) : Workshop Nat Nat :=
  (w.register (.of ⟨type⟩) (.ofRecipe inputs fun _ => .read fun calls => .finish (.ok calls))).2

/-- Counts the calls of constructors. -/
def countCalls : Notice → Nat → Nat := fun _ calls => calls + 1

/-- Nothing is under construction, and all constructors return. -/
structure Workshop.Shareable (w : Workshop Nat Nat) : Prop where
  reached : w.Reached countCalls []
  returns : w.graph.Returns

theorem Workshop.Shareable.locks {w : Workshop Nat Nat} (h : w.Shareable) : w.graph.LockedIn [] :=
  (h.reached.rested List.not_mem_nil).1.unlocked

theorem Workshop.Shareable.provideCounted {w : Workshop Nat Nat} (h : w.Shareable) (type : String)
    (inputs : Inputs) : (provideCounted w type inputs).Shareable :=
  ⟨.provide h.reached _ _ fun _ => .read fun _ => .finish _,
    h.returns.provide _ _ fun _ => .read fun _ => .finish _⟩

theorem Workshop.Shareable.empty : (⟨.empty, none, 0⟩ : Workshop Nat Nat).Shareable := by
  refine ⟨.new 0, ?_⟩
  rintro _ _ _ _ ⟨⟩

/-- A printer and a scanner that need paper. The scanner needs a lens, too, and there is no glass to
make it of. -/
def copyShop : Workshop Nat Nat :=
  let paper := provideCounted ⟨.empty, none, 0⟩ "Paper" []
  let printer := provideCounted paper "Printer" [.of "paper" ⟨"Paper"⟩]
  let lens := provideCounted printer "Lens" [.of "glass" ⟨"Glass"⟩]
  provideCounted lens "Scanner" [.of "paper" ⟨"Paper"⟩, .of "lens" ⟨"Lens"⟩]

/-- The graph of the copy shop can be shared by threads. -/
theorem copyShop_shareable : copyShop.Shareable :=
  have paper := Workshop.Shareable.empty.provideCounted "Paper" []
  have printer := paper.provideCounted "Printer" [.of "paper" ⟨"Paper"⟩]
  have lens := printer.provideCounted "Lens" [.of "glass" ⟨"Glass"⟩]
  lens.provideCounted "Scanner" [.of "paper" ⟨"Paper"⟩, .of "lens" ⟨"Lens"⟩]

/-- Two threads want the printer, one wants the paper and one the scanner. After nine turns each of
the first three the paper is being made, and two threads wait, one of them with the lock of the
printer. The scanner is refused while the paper is being made, as it would have been to a thread on
its own. In the end two threads have got one printer. -/
theorem copyShop_shared :
    let printer : Key := .of ⟨"Printer"⟩
    let scanner : Key := .of ⟨"Scanner"⟩
    let paper : Key := .of ⟨"Paper"⟩
    let first := (List.replicate 9 [0, 1, 2]).flatten
    let all := first ++ List.replicate 13 3 ++ (List.replicate 11 [0, 1, 2]).flatten
    let after := copyShop.shift countCalls [printer, paper, printer, scanner]
    ((after first).crew.Waiting countCalls 0 ∧ (after first).crew.Waiting countCalls 2 ∧
      ∃ i, (after first).crew.Unfinished i ∧ ¬ (after first).crew.Waiting countCalls i) ∧
    (∃ item, (after all).crew.result? 0 = some (.ok item) ∧
      (after all).crew.result? 2 = some (.ok item)) ∧
    Shift.missedBy 3 (after all).moves = [paper] ∧
    (copyShop.resolve countCalls scanner).1 =
      .error (.missingDependency (.of ⟨"Glass"⟩) (some (.of ⟨"Lens"⟩))) := by
  intro printer scanner paper first all after
  obtain ⟨hgoes, -⟩ := Shift.concurrent_resolution countCalls copyShop
    [printer, paper, printer, scanner] first copyShop_shareable.locks copyShop_shareable.returns
  obtain ⟨-, -, hone, hrefused, -⟩ := Shift.concurrent_resolution countCalls copyShop
    [printer, paper, printer, scanner] all copyShop_shareable.locks copyShop_shareable.returns
  have hwaits : (after first).crew.Waiting countCalls 0 ∧
      (after first).crew.Waiting countCalls 2 := by
    decide +kernel
  have hfirst : (after all).crew.result? 0 = some (.ok ⟨⟨"Printer"⟩, 2⟩) := by decide +kernel
  have hlast : ∃ item, (after all).crew.result? 2 = some (.ok item) :=
    ⟨⟨⟨"Printer"⟩, 2⟩, by decide +kernel⟩
  have hscanner : (after all).crew.result? 3 =
    some (.error (.missingDependency (.of ⟨"Glass"⟩) (some (.of ⟨"Lens"⟩)))) := by decide +kernel
  have hmissed : Shift.missedBy 3 (after all).moves = [paper] := by decide +kernel
  have hnone : copyShop.graph.item? paper = none := by decide +kernel
  have hunfinished : ∃ i, (after first).crew.Unfinished i := by
    obtain ⟨a, next, hthread, -⟩ := hwaits.1
    exact ⟨0, a, next, hthread⟩
  obtain ⟨item, hitem⟩ := hlast
  refine ⟨⟨hwaits.1, hwaits.2, hgoes hunfinished⟩, ⟨_, hfirst, ?_⟩, hmissed, ?_⟩
  · rw [hone printer _ item (.result (i := 0) rfl hfirst) (.result (i := 2) rfl hitem)]
    exact hitem
  · -- the paper was not there at first
    refine (hrefused 3 scanner _ rfl hscanner rfl).2 fun k hk hmade => absurd ?_ hmade
    obtain rfl := List.mem_singleton.1 (hmissed ▸ hk)
    exact hnone

/-- Paper that is there, made before the watermark was registered that it would have now, and for
which there is no mould. -/
def watermarked : Workshop Nat Nat :=
  let paper := provideCounted ⟨.empty, none, 0⟩ "Paper"
    [(Param.of "watermark" ⟨"Watermark"⟩).asOptional]
  let made := (paper.resolve countCalls (.of ⟨"Paper"⟩)).2
  let watermark := provideCounted made "Watermark" [.of "mould" ⟨"Mould"⟩]
  provideCounted watermark "Printer" [.of "paper" ⟨"Paper"⟩]

/-- The graph of the watermark can be shared by threads. -/
theorem watermarked_shareable : watermarked.Shareable := by
  have hpaper := Workshop.Shareable.empty.provideCounted "Paper"
    [(Param.of "watermark" ⟨"Watermark"⟩).asOptional]
  have hreached := Workshop.Reached.resolve hpaper.reached 2 (.of ⟨"Paper"⟩)
  have hmade : (resolveWithin countCalls 2 (.of ⟨"Paper"⟩) (provideCounted ⟨.empty, none, 0⟩ "Paper"
      [(Param.of "watermark" ⟨"Watermark"⟩).asOptional])).1 = .ok ⟨⟨"Paper"⟩, 1⟩ := by
    decide +kernel
  rw [hmade] at hreached
  have hreturns := (resolveWithin_advanced countCalls 2 (.of ⟨"Paper"⟩)
    hpaper.returns.detached).later.returns hpaper.returns
  exact ((Workshop.Shareable.mk hreached hreturns).provideCounted _ _).provideCounted _ _

/-- While the first thread looks into the cache of the paper, the others come by and do not get the
lock. They take the paper for one that is still to be made, and are refused the printer, and even
the paper itself, which is there. Each of them would get it on its own. -/
theorem watermarked_disturbed :
    let printer : Key := .of ⟨"Printer"⟩
    let paper : Key := .of ⟨"Paper"⟩
    let refusal : GraphError := .missingDependency (.of ⟨"Mould"⟩) (some (.of ⟨"Watermark"⟩))
    let c := (watermarked.crew [paper, printer, paper]).run countCalls
      (List.replicate 2 0 ++ List.replicate 12 1 ++ List.replicate 8 2)
    watermarked.Shareable ∧
      c.result? 1 = some (.error refusal) ∧ c.result? 2 = some (.error refusal) ∧
      (watermarked.resolve countCalls printer).1 = .ok ⟨⟨"Printer"⟩, 2⟩ ∧
      (watermarked.resolve countCalls paper).1 = .ok ⟨⟨"Paper"⟩, 1⟩ := by
  intro printer paper refusal c
  have hprinter : c.result? 1 = some (.error refusal) := by decide +kernel
  have hpaper : c.result? 2 = some (.error refusal) := by decide +kernel
  exact ⟨watermarked_shareable, hprinter, hpaper, by decide +kernel, by decide +kernel⟩

end ServiceHost
