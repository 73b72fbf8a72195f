import ServiceHost.Proofs.Graph.Nesting

/-!
# Graphs on finitely many keys

Constructors may register more nodes while they run, and these may have constructors that register
more. As long as all of them draw on finitely many keys, no construction adds nodes under others
(`build_confined`), and so there is a bound on the number of nodes that does not depend on how deep
calls may be nested (`Workshop.Confined.extent_le`).
-/

namespace ServiceHost

variable {σ ι : Type} {w : Workshop σ ι} {key : Key}

/-- The program registers nothing but under these keys, and constructors that do so in their turn.
-/
inductive Program.Confined (keys : List Key) : Program σ ι → Prop
  | finish (result : Except Failure ι) : Confined keys (.finish result)
  | panic (text : String) : Confined keys (.panic text)
  | read {next : σ → Program σ ι} (h : ∀ world, Confined keys (next world)) :
      Confined keys (.read next)
  | write (world : σ) {next : Program σ ι} (h : Confined keys next) :
      Confined keys (.write world next)
  | isCached (key : Key) {next : Bool → Program σ ι} (h : ∀ answer, Confined keys (next answer)) :
      Confined keys (.isCached key next)
  | resolve (key : Key) {next : Except GraphError (Instance ι) → Program σ ι}
      (h : ∀ answer, Confined keys (next answer)) : Confined keys (.resolve key next)
  | supply {key : Key} (hkey : key ∈ keys) (value : ι) {next : Except GraphError Unit → Program σ ι}
      (h : ∀ answer, Confined keys (next answer)) : Confined keys (.supply key value next)
  | provide {key : Key} (hkey : key ∈ keys) (inputs : Inputs) {construct : Args ι → Program σ ι}
      (hconstruct : ∀ args, Confined keys (construct args))
      {next : Except GraphError Unit → Program σ ι} (h : ∀ answer, Confined keys (next answer)) :
      Confined keys (.provide key inputs construct next)

/-- The nodes have distinct keys among these, and the constructors register nothing but under these.
-/
structure Graph.Confined (g : Graph σ ι) (keys : List Key) : Prop where
  nodup : g.keys.Nodup
  subset : g.keys ⊆ keys
  recipe : ∀ key inputs construct cache, g.node? key = some (.recipe inputs construct cache) →
    ∀ args, (construct args).Confined keys

/-- The graph at work is confined to these keys, and the one beside. -/
structure Workshop.Confined (w : Workshop σ ι) (keys : List Key) : Prop where
  graph : w.graph.Confined keys
  beside : ∀ graph, w.beside = some graph → graph.Confined keys

section
variable {keys : List Key} {g : Graph σ ι}

theorem Graph.Confined.size_le (h : g.Confined keys) : g.size ≤ keys.length := by
  rw [size_eq_keys]
  exact h.nodup.length_le_of_subset h.subset

/-- Changes of caches register nothing. -/
theorem Graph.Confined.mapCache (h : g.Confined keys) (key : Key) (f : Cache ι → Cache ι) :
    (g.mapCache key f).Confined keys where
  nodup := by
    rw [keys_mapCache]
    exact h.nodup
  subset := by
    rw [keys_mapCache]
    exact h.subset
  recipe k inputs construct cache hnode := by
    have hsame := registered?_of_recipe hnode
    rw [registered?_mapCache] at hsame
    obtain ⟨cache', hnode'⟩ := node?_of_recipe hsame
    exact h.recipe k inputs construct cache' hnode'

/-- Under finitely many keys there are no more nodes than keys, in each of the two graphs. -/
theorem Workshop.Confined.extent_le (h : w.Confined keys) : w.extent ≤ 2 * keys.length := by
  have hgraph := h.graph.size_le
  unfold Workshop.extent
  cases hbeside : w.beside with
  | none =>
    rw [Option.elim_none]
    omega
  | some graph =>
    have hother := (h.beside graph hbeside).size_le
    rw [Option.elim_some]
    omega

/-- A key among them is registered, with a constructor that keeps to them. -/
theorem Workshop.Confined.register (h : w.Confined keys) (hkey : key ∈ keys) {node : Node σ ι}
    (hnew : ∀ inputs construct cache, node = .recipe inputs construct cache →
      ∀ args, (construct args).Confined keys) : (w.register key node).2.Confined keys := by
  unfold Workshop.register
  obtain ⟨-, hrefused⟩ | ⟨hnone, g, hok, hkeys⟩ := w.graph.register_eq key node
  · rw [hrefused]
    exact h
  · rw [hok]
    refine ⟨⟨?nodup, ?subset, fun k inputs construct cache hnode => ?recipe⟩, h.beside⟩
    case nodup =>
      rw [hkeys, ← List.concat_eq_append]
      exact h.graph.nodup.concat hnone
    case subset =>
      rw [hkeys]
      exact List.append_subset.2 ⟨h.graph.subset, List.cons_subset.2 ⟨hkey, List.nil_subset _⟩⟩
    case recipe =>
      obtain ⟨hadded, -⟩ | hsame := Graph.register_ok hok k
      · exact hnew inputs construct cache (Option.some.inj (hadded.symm.trans hnode))
      · exact h.graph.recipe k inputs construct cache (hsame ▸ hnode)

/-- What is done keeps to the keys, be it at the graph at work or at the one beside. -/
theorem Workshop.Confined.consult {α : Type} {f : Workshop σ ι → α × Workshop σ ι}
    (hf : ∀ w : Workshop σ ι, w.Confined keys → (f w).2.Confined keys) (h : w.Confined keys) :
    (w.consult f).2.Confined keys := by
  unfold Workshop.consult
  cases hbeside : w.beside with
  | none => exact hf w h
  | some graph =>
    refine ⟨h.graph, ?_⟩
    rintro _ ⟨⟩
    exact (hf ⟨graph, none, w.world⟩ ⟨h.beside graph hbeside, nofun⟩).graph

/-- Giving up registers nothing. -/
theorem Workshop.Confined.giveUp (h : w.Confined keys) (key : Key) (why : Option Interruption) :
    (w.giveUp key why).Confined keys := by
  match why with
  | none => exact ⟨h.graph.mapCache key _, h.beside⟩
  | some (.panic _) => exact ⟨h.graph.mapCache key _, h.beside⟩
  | some (.deadlock _) => exact h
  | some .tooDeep => exact h

/-- A program keeps to the keys, if resolving a key does. -/
theorem Program.Confined.run {p : Program σ ι} (hp : p.Confined keys) {resolve : Resolver σ ι}
    (hresolve : ∀ key w, w.Confined keys → (resolve key w).2.Confined keys) (h : w.Confined keys) :
    (p.run resolve w).2.Confined keys := by
  induction hp generalizing w with
  | finish result => cases result <;> exact h
  | panic text => exact h
  | read _ ih => exact ih w.world h
  | write world _ ih => exact ih ⟨h.graph, h.beside⟩
  | isCached key _ ih => exact ih _ h
  | resolve key _ ih =>
    have hfirst := h.consult (hresolve key)
    unfold Program.run
    generalize w.consult (resolve key) = r at hfirst
    obtain ⟨outcome, w₁⟩ := r
    cases outcome with
    | ok item => exact ih _ hfirst
    | error e => exact ih _ hfirst
    | interrupted why => exact hfirst
  | supply hkey value _ ih =>
    exact ih _ (h.consult fun w hw => hw.register hkey (by rintro _ _ _ ⟨⟩))
  | provide hkey inputs hconstruct _ _ ih =>
    exact ih _ (h.consult fun w hw => hw.register hkey (by rintro _ _ _ ⟨⟩; exact hconstruct))

/-- Resolving a key keeps to the keys, if building does. -/
theorem resolveWith_confined
    {build : Key → Node σ ι → Workshop σ ι → Outcome GraphError (Instance ι) × Workshop σ ι}
    (hbuild : ∀ key node w, w.Confined keys → w.graph.node? key = some node →
      (build key node w).2.Confined keys) (key : Key) (w : Workshop σ ι) (h : w.Confined keys) :
    (resolveWith build key w).2.Confined keys := by
  unfold resolveWith
  cases hnode : w.graph.node? key with
  | none => exact h
  | some node =>
    simp only
    cases node.available with
    | some item => exact h
    | none =>
      cases w.graph.verify key node with
      | error e => exact h
      | ok => exact hbuild key node w h hnode

/-- No construction adds nodes under other keys. -/
theorem build_confined (note : Notice → σ → σ) (depth : Nat) (path : List Key) (key : Key)
    (node : Node σ ι) (w : Workshop σ ι) (h : w.Confined keys)
    (hnode : w.graph.node? key = some node) :
    (build note depth path key node w).2.Confined keys := by
  induction depth generalizing path key node w with
  | zero => cases node <;> exact h
  | succ depth ih =>
    cases node with
    | value item => exact h
    | recipe inputs construct cache =>
    unfold build
    split
    · exact h
    split
    · exact h
    cases cache.made with
    | some item => exact h
    | none =>
      have hgather : (gather key (build note depth (path ++ [key])) inputs
          { w with graph := w.graph.lock key }).2.Confined keys :=
        gather_induction (R := fun w _ w' => w.Confined keys → w'.Confined keys) (fun _ h => h)
          (fun h h' hw => h' (h hw)) key inputs
          (fun k node w' _ hk hw => ih (path ++ [key]) k node w' hw hk)
          ⟨h.graph.mapCache key _, h.beside⟩
      simp only
      generalize gather key (build note depth (path ++ [key])) inputs
        { w with graph := w.graph.lock key } = r at hgather
      obtain ⟨outcome, w₁⟩ := r
      cases outcome with
      | error e => exact hgather.giveUp key none
      | interrupted why => exact hgather.giveUp key (some why)
      | ok entries =>
        have hrun := (h.graph.recipe key inputs construct cache hnode ⟨key, entries⟩).run
          (resolveWith_confined fun k node w hw hk => ih [] k node w hw hk)
          (w := { w₁ with world := note (.constructing key) w₁.world })
          ⟨hgather.graph, hgather.beside⟩
        simp only
        generalize (construct ⟨key, entries⟩).run (resolveWith (build note depth []))
          { w₁ with world := note (.constructing key) w₁.world } = r at hrun
        obtain ⟨outcome, w₂⟩ := r
        cases outcome with
        | ok value => exact ⟨hrun.graph.mapCache key _, hrun.beside⟩
        | error failure => exact hrun.giveUp key none
        | interrupted why => exact hrun.giveUp key (some why)

end

end ServiceHost
