import ServiceHost.Graph.Thread
import ServiceHost.Proofs.Graph.Advance

/-!
# A thread on its own

If nobody else is at work, the acts of a thread that resolves a key amount to a resolution
(`resolving_run`). A lock that is taken for a moment is given back, and the graph is as it was
(`Graph.release_lock`).
-/

namespace ServiceHost

variable {σ ι α β ε : Type} {note : Notice → σ → σ} {w w₁ : Workshop σ ι}

/-! ## Locks -/

namespace Graph

variable {g : Graph σ ι} {key : Key}

theorem cache?_of_node? {inputs : Inputs} {construct : Args ι → Program σ ι} {cache : Cache ι}
    (h : g.node? key = some (.recipe inputs construct cache)) : g.cache? key = some cache := by
  rw [cache?, h]

/-- What has a cache is a constructor. -/
theorem node?_of_cache? {cache : Cache ι} (h : g.cache? key = some cache) :
    ∃ inputs construct, g.node? key = some (.recipe inputs construct cache) := by
  unfold cache? at h
  split at h
  · next hnode =>
    cases h
    exact ⟨_, _, hnode⟩
  · cases h

/-- Two changes of one cache are one. -/
theorem mapCache_mapCache (g : Graph σ ι) (key : Key) (f f' : Cache ι → Cache ι) :
    (g.mapCache key f).mapCache key f' = g.mapCache key fun c => f' (f c) := by
  unfold mapCache
  rw [List.map_map]
  congr 2
  funext e
  by_cases hkey : e.1 = key
  · simp only [Function.comp, if_pos hkey]
    cases e.2 <;> rfl
  · simp only [Function.comp, if_neg hkey]

/-- The keys are distinct, so that a change of the cache of one of them that leaves it as it is
changes nothing. -/
theorem mapCache_eq_self (hkeys : g.keys.Nodup) {cache : Cache ι}
    (hcache : g.cache? key = some cache) {f : Cache ι → Cache ι} (hf : f cache = cache) :
    g.mapCache key f = g := by
  obtain ⟨inputs, construct, hnode⟩ := node?_of_cache? hcache
  obtain ⟨before, after, hentries, hbefore⟩ := List.lookup_eq_some_iff.1 hnode
  obtain ⟨entries⟩ := g
  subst hentries
  have hafter : ∀ e ∈ after, e.1 ≠ key := by
    intro e he heq
    rw [keys, List.map_append, List.map_cons] at hkeys
    exact (List.nodup_cons.1 (List.nodup_append.1 hkeys).2.1).1 (List.mem_map.2 ⟨e, he, heq⟩)
  have hsame : ∀ es : List (Key × Node σ ι), (∀ e ∈ es, e.1 ≠ key) →
      es.map (fun e => if e.1 = key then (e.1, e.2.mapCache f) else e) = es := by
    intro es hes
    rw [List.map_congr_left fun e he => if_neg (hes e he), List.map_id']
  rw [mapCache, List.map_append, List.map_cons, hsame after hafter, if_pos rfl, Node.mapCache, hf,
    hsame before fun e he heq => by simpa [heq] using hbefore e he]

/-- A lock that is given back after it was taken. -/
theorem release_lock (hkeys : g.keys.Nodup) {cache : Cache ι}
    (hcache : g.cache? key = some cache) (hfree : cache.locked = false) :
    (g.lock key).release key = g := by
  rw [lock, release, mapCache_mapCache]
  refine mapCache_eq_self hkeys hcache ?_
  obtain ⟨made, locked, poisoned⟩ := cache
  cases hfree
  rfl

end Graph

namespace Act

variable {key : Key} {cache : Cache ι}

/-- Who tries a lock that somebody has does not get it. -/
theorem look_misses (hcache : w.graph.cache? key = some cache) (hlocked : cache.locked = true) :
    (Act.look key).perform note w = some (none, w) := by
  rw [perform, hcache]
  exact if_pos hlocked

theorem look_sees (hcache : w.graph.cache? key = some cache) (hfree : cache.locked = false) :
    (Act.look key).perform note w = some (some cache, { w with graph := w.graph.lock key }) := by
  rw [perform, hcache]
  exact if_neg (ne_true_of_eq_false hfree)

/-- Who takes a lock that somebody has waits. -/
theorem lock_waits (hcache : w.graph.cache? key = some cache) (hlocked : cache.locked = true) :
    (Act.lock key).perform note w = none := by
  rw [perform, hcache]
  exact if_pos hlocked

theorem lock_takes (hcache : w.graph.cache? key = some cache) (hfree : cache.locked = false) :
    (Act.lock key).perform note w = some (cache.made, { w with graph := w.graph.lock key }) := by
  rw [perform, hcache]
  exact if_neg (ne_true_of_eq_false hfree)

/-- A look takes the lock, or changes nothing. -/
theorem look_cases {answer : Option (Cache ι)} {w' : Workshop σ ι}
    (h : (Act.look key).perform note w = some (answer, w')) : answer = none ∧ w' = w ∨
    ∃ cache, w.graph.cache? key = some cache ∧ cache.locked = false ∧ answer = some cache ∧
      w' = { w with graph := w.graph.lock key } := by
  cases hcache : w.graph.cache? key with
  | none =>
    rw [perform, hcache] at h
    cases h
    exact .inl ⟨rfl, rfl⟩
  | some cache =>
    cases hlocked : cache.locked with
    | true =>
      rw [look_misses hcache hlocked] at h
      cases h
      exact .inl ⟨rfl, rfl⟩
    | false =>
      rw [look_sees hcache hlocked] at h
      cases h
      exact .inr ⟨cache, rfl, hlocked, rfl, rfl⟩

/-- A lock that was taken was free. -/
theorem lock_cases {answer : Option (Instance ι)} {w' : Workshop σ ι}
    (h : (Act.lock key).perform note w = some (answer, w')) :
    ∃ cache, w.graph.cache? key = some cache ∧ cache.locked = false ∧ answer = cache.made ∧
      w' = { w with graph := w.graph.lock key } := by
  cases hcache : w.graph.cache? key with
  | none =>
    rw [perform, hcache] at h
    cases h
  | some cache =>
    cases hlocked : cache.locked with
    | true =>
      rw [lock_waits hcache hlocked] at h
      cases h
    | false =>
      rw [lock_takes hcache hlocked] at h
      cases h
      exact ⟨cache, rfl, hlocked, rfl, rfl⟩

end Act

/-! ## Constructors that make no requests -/

/-- A constructor that returns and makes no request to a graph, on any answer. What else it works
on belongs to the surroundings. -/
inductive Program.Returns : Program σ ι → Prop
  | finish (result : Except Failure ι) : Returns (.finish result)
  | read {next : σ → Program σ ι} (h : ∀ world, Returns (next world)) : Returns (.read next)
  | write (world : σ) {next : Program σ ι} (h : Returns next) : Returns (.write world next)

/-- All constructors of the graph return and make no requests, whatever they are called with. -/
def Graph.Returns (g : Graph σ ι) : Prop :=
  ∀ key inputs construct cache, g.node? key = some (.recipe inputs construct cache) →
    ∀ args, (construct args).Returns

/-- A program that returns without requests makes none. -/
theorem Program.Returns.detached {p : Program σ ι} (h : p.Returns) : p.Detached := by
  induction h with
  | finish result => exact .finish result
  | read _ ih => exact .read ih
  | write world _ ih => exact .write world ih

theorem Graph.Returns.detached {g : Graph σ ι} (h : g.Returns) : g.Detached :=
  fun key inputs construct cache hnode args => (h key inputs construct cache hnode args).detached

theorem Graph.Later.returns {g g' : Graph σ ι} (h : g.Later g') (hreturns : g.Returns) :
    g'.Returns := by
  intro key inputs construct cache' hnode args
  obtain ⟨cache, hbefore, -⟩ := h.recipe_of hnode
  exact hreturns key inputs construct cache hbefore args

namespace Thread

/-- All acts of the thread, with nobody else at work. There is no result if it has to wait. -/
def run (note : Notice → σ → σ) : Thread σ ι α → Workshop σ ι → Option α × Workshop σ ι
  | .done a, w => (some a, w)
  | .act a next, w =>
    match a.perform note w with
    | some (answer, w) => (next answer).run note w
    | none => (none, w)

theorem run_act {a : Act σ ι} {next : a.Answer → Thread σ ι α} {answer : a.Answer}
    (h : a.perform note w = some (answer, w₁)) :
    (Thread.act a next).run note w = (next answer).run note w₁ := by
  rw [run, h]

/-- A thread that has come to an answer goes on with it. -/
theorem run_bind {t : Thread σ ι α} {a : α} (h : t.run note w = (some a, w₁))
    (f : α → Thread σ ι β) : (t.bind f).run note w = (f a).run note w₁ := by
  induction t generalizing w with
  | done b =>
    cases h
    rfl
  | act a next ih =>
    rw [bind, run]
    rw [run] at h
    cases hact : a.perform note w with
    | none => simp [hact] at h
    | some r =>
      rw [hact] at h
      exact ih r.1 h

/-- A thread that has to wait goes no further. -/
theorem run_bind_waits {t : Thread σ ι α} (h : t.run note w = (none, w₁))
    (f : α → Thread σ ι β) : (t.bind f).run note w = (none, w₁) := by
  induction t generalizing w with
  | done b => cases h
  | act a next ih =>
    rw [bind, run]
    rw [run] at h
    cases hact : a.perform note w with
    | none =>
      rw [hact] at h
      cases h
      rfl
    | some r =>
      rw [hact] at h
      exact ih r.1 h

/-! ## Looks -/

section
variable {key : Key} {node : Node σ ι}

/-- A look tells what is in the cache unless somebody has its lock, and leaves the graph as it
is. -/
theorem glance_run (hkeys : w.graph.keys.Nodup) {cache : Cache ι}
    (hcache : w.graph.cache? key = some cache) :
    (glance key).run note w = (some (if cache.locked then none else some cache), w) := by
  cases hlocked : cache.locked with
  | true => exact run_act (Act.look_misses hcache hlocked)
  | false =>
    refine (run_act (Act.look_sees hcache hlocked)).trans ?_
    refine (run_act (a := .release key) rfl).trans ?_
    simp only [Graph.release_lock hkeys hcache hlocked]
    rfl

/-- A thread alone that looks at a node sees whether it is cached. -/
theorem isCached_run (hkeys : w.graph.keys.Nodup) (hnode : w.graph.node? key = some node) :
    (isCached key node).run note w = (some node.isCached, w) := by
  cases node with
  | value item => rfl
  | recipe inputs construct cache =>
    refine (run_bind (glance_run hkeys (Graph.cache?_of_node? hnode)) _).trans ?_
    obtain ⟨made, locked, poisoned⟩ := cache
    cases locked <;> rfl

/-- A thread alone takes a component where it can be had at once. -/
theorem available_run (hkeys : w.graph.keys.Nodup) (hnode : w.graph.node? key = some node) :
    (available key node).run note w = (some node.available, w) := by
  cases node with
  | value item => rfl
  | recipe inputs construct cache =>
    refine (run_bind (glance_run hkeys (Graph.cache?_of_node? hnode)) _).trans ?_
    obtain ⟨made, locked, poisoned⟩ := cache
    cases locked <;> rfl

end

/-! ## The check -/

/-- A thread alone seeks what is missing in the graph at work. -/
theorem seek_run (inputs : Inputs) (w : Workshop σ ι) :
    (seek inputs).run note w = (some (w.graph.firstMissing inputs), w) := by
  induction inputs with
  | nil => rfl
  | cons p rest ih =>
    rw [seek, Graph.firstMissing, List.find?_cons, Graph.contains]
    cases hoptional : p.optional with
    | true => exact ih
    | false =>
      rw [if_neg Bool.false_ne_true, run, Act.perform]
      cases hnode : w.graph.node? p.key with
      | none => rfl
      | some node => exact ih

/-- A thread alone goes through inputs as the check does, if it visits each of them so. -/
theorem visitInputs_run (path : List Key)
    {visit : Key → Node σ ι → List Key → Thread σ ι (Except GraphError (List Key))}
    {visit' : Key → Node σ ι → List Key → Except GraphError (List Key)}
    (hvisit : ∀ key node been, w.graph.node? key = some node →
      (visit key node been).run note w = (some (visit' key node been), w))
    (inputs : Inputs) (been : List Key) : (visitInputs path visit inputs been).run note w =
      (some (w.graph.visitInputs path visit' inputs been), w) := by
  induction inputs generalizing been with
  | nil => rfl
  | cons p rest ih =>
    unfold visitInputs Graph.visitInputs
    split
    · rfl
    refine (run_act (a := .peek p.key) rfl).trans ?_
    cases hnode : w.graph.node? p.key with
    | none => exact ih been
    | some node =>
      refine (run_bind (hvisit p.key node been hnode) _).trans ?_
      dsimp only
      cases visit' p.key node been with
      | ok been => exact ih been
      | error e => rfl

/-- A thread alone visits a node as the check does. -/
theorem visit_run (hkeys : w.graph.keys.Nodup) (depth : Nat) (path : List Key) (key : Key)
    (node : Node σ ι) (been : List Key) (hnode : w.graph.node? key = some node) :
    (visit depth path key node been).run note w =
      (some (w.graph.visit depth path key node been), w) := by
  induction depth generalizing path key node been with
  | zero =>
    unfold visit Graph.visit
    by_cases hbeen : key ∈ been
    · rw [if_pos hbeen, if_pos (by simp [hbeen])]
      rfl
    rw [if_neg hbeen]
    refine (run_bind (isCached_run hkeys hnode) _).trans ?_
    cases node.isCached <;> cases node <;> simp [hbeen, run]
  | succ depth ih =>
    unfold visit Graph.visit
    by_cases hbeen : key ∈ been
    · rw [if_pos hbeen, if_pos (by simp [hbeen])]
      rfl
    rw [if_neg hbeen]
    refine (run_bind (isCached_run hkeys hnode) _).trans ?_
    cases hcached : node.isCached with
    | true => simp [run]
    | false =>
      rw [if_neg (by simp [hbeen])]
      cases node with
      | value item => cases hcached
      | recipe inputs construct cache =>
        have hinputs := visitInputs_run (path ++ [key]) (ih (path ++ [key])) inputs been
        refine (run_bind (seek_run inputs w) _).trans ?_
        dsimp only
        cases w.graph.firstMissing inputs with
        | some p => rfl
        | none =>
          refine (run_bind hinputs _).trans ?_
          dsimp only
          cases w.graph.visitInputs (path ++ [key]) (w.graph.visit depth (path ++ [key])) inputs
            been <;> rfl

/-! ## The construction -/

/-- The acts of the thread, with nobody else at work, end as the call does. A call that waits for a
lock that it holds itself has no end. -/
inductive Tells (note : Notice → σ → σ) (t : Thread σ ι (Outcome ε α)) (w : Workshop σ ι) :
    Outcome ε α × Workshop σ ι → Prop
  | ok {a : α} {w₁ : Workshop σ ι} (h : t.run note w = (some (.ok a), w₁)) :
    Tells note t w (.ok a, w₁)
  | error {e : ε} {w₁ : Workshop σ ι} (h : t.run note w = (some (.error e), w₁)) :
    Tells note t w (.error e, w₁)
  | tooDeep {w₁ : Workshop σ ι} (h : t.run note w = (some (.interrupted .tooDeep), w₁)) :
    Tells note t w (.interrupted .tooDeep, w₁)
  | deadlock {key : Key} {w₁ : Workshop σ ι} (h : t.run note w = (none, w₁)) :
    Tells note t w (.interrupted (.deadlock key), w₁)

namespace Tells

/-- An act comes first, and then what the thread does with the answer. -/
theorem act {a : Act σ ι} {next : a.Answer → Thread σ ι (Outcome ε α)} {answer : a.Answer}
    {r : Outcome ε α × Workshop σ ι} (hact : a.perform note w = some (answer, w₁))
    (h : (next answer).Tells note w₁ r) : (Thread.act a next).Tells note w r := by
  have hrun : (Thread.act a next).run note w = (next answer).run note w₁ := run_act hact
  cases h with
  | ok h => exact .ok (hrun.trans h)
  | error h => exact .error (hrun.trans h)
  | tooDeep h => exact .tooDeep (hrun.trans h)
  | deadlock h => exact .deadlock (hrun.trans h)

/-- A first thing that is done before, and does not fail. -/
theorem bind {t : Thread σ ι β} {f : β → Thread σ ι (Outcome ε α)} {b : β}
    {r : Outcome ε α × Workshop σ ι} (hrun : t.run note w = (some b, w₁))
    (h : (f b).Tells note w₁ r) : (t.bind f).Tells note w r := by
  have hrun' : (t.bind f).run note w = (f b).run note w₁ := run_bind hrun f
  cases h with
  | ok h => exact .ok (hrun'.trans h)
  | error h => exact .error (hrun'.trans h)
  | tooDeep h => exact .tooDeep (hrun'.trans h)
  | deadlock h => exact .deadlock (hrun'.trans h)

/-- What comes after a failure of the first thing is not done. -/
theorem andThen {t : Thread σ ι (Outcome ε α)} {f : α → Thread σ ι (Outcome ε β)}
    {r : Outcome ε α × Workshop σ ι} {r' : Outcome ε β × Workshop σ ι} (h : t.Tells note w r)
    (hok : ∀ a, r.1 = .ok a → (f a).Tells note r.2 r')
    (herror : ∀ e, r.1 = .error e → r' = (.error e, r.2))
    (hwhy : ∀ why, r.1 = .interrupted why → r' = (.interrupted why, r.2)) :
    (t.andThen f).Tells note w r' := by
  cases h with
  | ok h => exact bind h (hok _ rfl)
  | error h =>
    cases herror _ rfl
    exact .error (run_bind h _)
  | tooDeep h =>
    cases hwhy _ rfl
    exact .tooDeep (run_bind h _)
  | deadlock h =>
    cases hwhy _ rfl
    exact .deadlock (run_bind_waits h _)

end Tells

/-- A thread alone finds inputs as `gather` does, if it finds each of them so. -/
theorem gather_run {owner : Key} {inputs : Inputs}
    {find : Key → Node σ ι → Thread σ ι (Outcome GraphError (Instance ι))}
    {find' : Key → Node σ ι → Workshop σ ι → Outcome GraphError (Instance ι) × Workshop σ ι}
    (hfind : ∀ k node w', w.graph.Advanced w'.graph → w'.graph.node? k = some node →
      (find k node).Tells note w' (find' k node w') ∧
        w'.graph.Advanced (find' k node w').2.graph) :
    (gather owner find inputs).Tells note w (ServiceHost.gather owner find' inputs w) := by
  induction inputs generalizing w with
  | nil => exact .ok rfl
  | cons p rest ih =>
    unfold gather ServiceHost.gather
    refine .act (a := .peek p.key) rfl ?_
    cases hnode : w.graph.node? p.key with
    | none =>
      dsimp only
      split
      · have hrest := ih hfind
        generalize ServiceHost.gather owner find' rest w = r at hrest
        obtain ⟨outcome, w₁⟩ := r
        refine hrest.andThen ?_ ?_ ?_ <;> rintro a ⟨⟩
        · exact .ok rfl
        · rfl
        · rfl
      · exact .error rfl
    | some node =>
      dsimp only
      obtain ⟨hfirst, hlater⟩ := hfind p.key node w (.refl _) hnode
      generalize find' p.key node w = r at hfirst hlater
      obtain ⟨outcome, w₁⟩ := r
      refine hfirst.andThen ?_ ?_ ?_ <;> rintro a ⟨⟩
      · have hrest := @ih w₁ fun k node w' h => hfind k node w' (hlater.trans h)
        dsimp only
        generalize ServiceHost.gather owner find' rest w₁ = r at hrest
        obtain ⟨outcome, w₂⟩ := r
        refine hrest.andThen ?_ ?_ ?_ <;> rintro a ⟨⟩
        · exact .ok rfl
        · rfl
        · rfl
      · rfl
      · rfl

/-- A constructor that returns does what its acts do, and changes nothing but the surroundings. -/
theorem program_run {p : Program σ ι} (h : p.Returns)
    (resolve : Key → Thread σ ι (Outcome GraphError (Instance ι))) (resolve' : Resolver σ ι)
    (w : Workshop σ ι) :
    ∃ outcome world, (∀ why, outcome ≠ .interrupted why) ∧
      (p.thread resolve).run note w = (some outcome, { w with world }) ∧
        p.run resolve' w = (outcome, { w with world }) := by
  induction h generalizing w with
  | finish result =>
    cases result with
    | ok value => exact ⟨.ok value, w.world, fun _ => nofun, rfl, rfl⟩
    | error failure => exact ⟨.error failure, w.world, fun _ => nofun, rfl, rfl⟩
  | read _ ih => exact ih w.world w
  | write world _ ih => exact ih { w with world }

/-- A thread alone calls a constructor as `build` does, and gives back its lock in the same way. -/
theorem construct_run {key : Key} {constructor : Args ι → Program σ ι}
    (hreturns : ∀ args, (constructor args).Returns)
    (resolve : Key → Thread σ ι (Outcome GraphError (Instance ι))) (resolve' : Resolver σ ι)
    (entries : List (Param × Option (Instance ι))) (w : Workshop σ ι) :
    (construct resolve key constructor entries).Tells note w
      (match (constructor ⟨key, entries⟩).run resolve'
          { w with world := note (.constructing key) w.world } with
      | (.ok value, w) =>
        (.ok ⟨key.type, value⟩, { w with graph := w.graph.store key ⟨key.type, value⟩ })
      | (.error failure, w) => (.error (.constructor key failure), w.giveUp key none)
      | (.interrupted why, w) => (.interrupted why, w.giveUp key (some why))) := by
  obtain ⟨outcome, world, hreturned, hthread, hrun⟩ := @program_run _ _ note _
    (hreturns ⟨key, entries⟩) resolve resolve' { w with world := note (.constructing key) w.world }
  rw [hrun]
  refine .act (a := .call key entries) rfl (.bind hthread ?_)
  cases outcome with
  | ok value =>
    refine .act (a := .returned key (.ok value)) rfl ?_
    refine .act (a := .store key ⟨key.type, value⟩) rfl (.act (a := .release key) rfl ?_)
    refine .ok ?_
    dsimp only
    rw [run, Graph.release, Graph.mapCache_mapCache]
    rfl
  | error failure =>
    exact .act (a := .returned key (.error failure)) rfl (.act (a := .release key) rfl (.error rfl))
  | interrupted why => exact absurd rfl (hreturned why)

/-- The construction of the component of a node, if nobody else is at work. -/
theorem build_run (size depth : Nat) (path : List Key) (key : Key) (node : Node σ ι)
    (w : Workshop σ ι) (hkeys : w.graph.keys.Nodup) (hreturns : w.graph.Returns)
    (hnode : w.graph.node? key = some node) :
    (build size depth path key node).Tells note w
      (ServiceHost.build note depth path key node w) := by
  induction depth generalizing path key node w with
  | zero =>
    cases node with
    | value item => exact .ok rfl
    | recipe => exact .tooDeep rfl
  | succ depth ih =>
    cases node with
    | value item => exact .ok rfl
    | recipe inputs constructor cache =>
      rw [build, ServiceHost.build]
      by_cases hpath : key ∈ path
      · rw [if_pos hpath, if_pos hpath]
        exact .error rfl
      rw [if_neg hpath, if_neg hpath]
      have hcache := Graph.cache?_of_node? hnode
      have hlock := Graph.Advanced.lock w.graph key
      cases hlocked : cache.locked with
      | true =>
        refine .deadlock ?_
        rw [run, Act.lock_waits hcache hlocked]
      | false =>
        rw [if_neg Bool.false_ne_true]
        refine .act (Act.lock_takes hcache hlocked) ?_
        cases hmade : cache.made with
        | some item =>
          refine .act (a := .release key) rfl ?_
          dsimp only
          rw [Graph.release_lock hkeys hcache hlocked]
          exact .ok rfl
        | none =>
          have hgather := @gather_run _ _ note { w with graph := w.graph.lock key } key inputs
            (build size depth (path ++ [key])) (ServiceHost.build note depth (path ++ [key]))
            fun k node w' hlater hk => by
              have hbefore := hlock.trans hlater
              have hreturns' := hbefore.later.returns hreturns
              exact ⟨ih (path ++ [key]) k node w' (hbefore.keys ▸ hkeys) hreturns' hk,
                build_advanced note depth _ k node w' hreturns'.detached hk⟩
          dsimp only
          generalize ServiceHost.gather key (ServiceHost.build note depth (path ++ [key])) inputs
            { w with graph := w.graph.lock key } = r at hgather
          cases hgather with
          | ok h =>
            refine .bind h (construct_run (hreturns key inputs constructor cache hnode) _ _ _ _)
          | error h => exact .bind h (.act (a := .release key) rfl (.error rfl))
          | tooDeep h => exact .bind h (.tooDeep rfl)
          | deadlock h => exact .deadlock (run_bind_waits h _)

/-- A thread that resolves a key with nobody else at work does what a call does. -/
theorem resolve_run (depth : Nat) (key : Key) (w : Workshop σ ι) (hkeys : w.graph.keys.Nodup)
    (hreturns : w.graph.Returns) :
    (resolve w.graph.size depth key).Tells note w (resolveWithin note depth key w) := by
  unfold resolve resolveWith resolveWithin ServiceHost.resolveWith
  refine .act (a := .peek key) rfl ?_
  cases hnode : w.graph.node? key with
  | none => exact .error rfl
  | some node =>
    dsimp only
    refine .bind (available_run hkeys hnode) ?_
    cases node.available with
    | some item => exact .ok rfl
    | none =>
      refine .bind (visit_run hkeys w.graph.size [] key node [] hnode) ?_
      rw [Graph.verify]
      cases w.graph.visit w.graph.size [] key node [] with
      | error e => exact .error rfl
      | ok been => exact build_run w.graph.size depth [] key node w hkeys hreturns hnode

end Thread

end ServiceHost
