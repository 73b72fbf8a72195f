import ServiceHost.Proofs.Graph.Effects
import ServiceHost.Proofs.Graph.Journal

/-!
# A store that only grows

Whatever is requested of a graph, and whatever its constructors do meanwhile, fail, panic, register
more or resolve keys in their turn, nothing happens to it but that caches change and that nodes are
added under new keys (`Graph.Evolves`). So its keys stay, in the order in which they were
registered, and what is registered under a key stays so. A registration that was refused is refused
for good (`Graph.Evolves.register_error`).
-/

namespace ServiceHost

open Relation

variable {σ ι : Type}

namespace Graph

/-- One change of a graph: of a cache, or by a new node. -/
inductive Altered : Graph σ ι → Graph σ ι → Prop
  | cache (g : Graph σ ι) (key : Key) (f : Cache ι → Cache ι) : Altered g (g.mapCache key f)
  | node {g g' : Graph σ ι} {key : Key} {node : Node σ ι} (h : g.register key node = .ok g') :
      Altered g g'

/-- The second graph comes about from the first one by any changes. -/
abbrev Evolves : Graph σ ι → Graph σ ι → Prop :=
  ReflTransGen Altered

section
variable {g g' : Graph σ ι} {key : Key} {node : Node σ ι}

/-! ## Keys and nodes -/

/-- Keys do not depend on caches. -/
@[simp] theorem keys_mapCache (g : Graph σ ι) (key : Key) (f : Cache ι → Cache ι) :
    (g.mapCache key f).keys = g.keys := by
  simp only [keys, mapCache, List.map_map]
  refine List.map_congr_left fun e _ => ?_
  simp only [Function.comp_apply]
  split <;> rfl

theorem size_eq_keys (g : Graph σ ι) : g.size = g.keys.length :=
  (List.length_map _).symm

theorem registered?_eq_none : g.registered? key = none ↔ g.node? key = none :=
  Option.map_eq_none_iff

/-- The keys of a graph are those that something is registered under. -/
theorem mem_keys : key ∈ g.keys ↔ g.node? key ≠ none := by
  constructor
  · intro hmem hnone
    obtain ⟨e, he, rfl⟩ := List.mem_map.1 hmem
    have hoff := List.lookup_eq_none_iff.1 hnone e he
    simp at hoff
  · intro hsome
    obtain ⟨node, hnode⟩ := Option.ne_none_iff_exists'.1 hsome
    exact mem_keys_of_node? hnode

theorem contains_iff : g.contains key = true ↔ key ∈ g.keys := by
  rw [mem_keys, contains, Option.isSome_iff_ne_none]

/-- A registration is refused exactly if the key was registered before, and adds it otherwise. -/
theorem register_eq (g : Graph σ ι) (key : Key) (node : Node σ ι) :
    (key ∈ g.keys ∧ g.register key node = .error (.duplicateRegistration key)) ∨
      (key ∉ g.keys ∧ ∃ g', g.register key node = .ok g' ∧ g'.keys = g.keys ++ [key]) := by
  rw [← contains_iff]
  unfold register
  split
  · next hmem => exact .inl ⟨hmem, rfl⟩
  · next hnew => exact .inr ⟨hnew, _, rfl, List.map_append⟩

/-! ## Changes one after another -/

/-- Keys are added at the end. -/
theorem Altered.keys (h : g.Altered g') : g.keys <+: g'.keys := by
  cases h with
  | cache key f =>
    exact ⟨[], by rw [List.append_nil, keys_mapCache]⟩
  | @node _ key node h =>
    rcases g.register_eq key node with ⟨-, hrefused⟩ | ⟨-, g₁, hok, hkeys⟩
    · cases hrefused.symm.trans h
    · cases hok.symm.trans h
      exact hkeys ▸ List.prefix_append ..

/-- What is registered stays. -/
theorem Altered.registered (h : g.Altered g') (hnode : g.registered? key = some node) :
    g'.registered? key = some node := by
  cases h with
  | cache key' f =>
    rw [registered?_mapCache]
    exact hnode
  | @node _ key' node' h =>
    rcases register_ok h key with ⟨-, rfl⟩ | hsame
    · rcases g.register_eq key node' with ⟨-, hrefused⟩ | ⟨hnew, -⟩
      · cases hrefused.symm.trans h
      · rw [registered?_eq_none.2 (not_not.1 fun hsome => hnew (mem_keys.2 hsome))] at hnode
        cases hnode
    · rw [registered?, hsame]
      exact hnode

namespace Evolves

/-- The keys stay, in the order of their registration, and new ones come after them. -/
theorem keys (h : g.Evolves g') : g.keys <+: g'.keys := by
  induction h with
  | refl => exact List.prefix_refl _
  | tail _ hlast ih => exact ih.trans hlast.keys

/-- What is registered under a key stays so. -/
theorem registered (h : g.Evolves g') (hnode : g.registered? key = some node) :
    g'.registered? key = some node := by
  induction h with
  | refl => exact hnode
  | tail _ hlast ih => exact hlast.registered ih

theorem size_le (h : g.Evolves g') : g.size ≤ g'.size := by
  rw [size_eq_keys, size_eq_keys]
  exact h.keys.length_le

/-- A registration that was refused is refused for good. -/
theorem register_error (h : g.Evolves g') {e : GraphError}
    (hrefused : g.register key node = .error e) (node' : Node σ ι) :
    g'.register key node' = .error e := by
  rcases g.register_eq key node with ⟨hmem, herror⟩ | ⟨-, _, hok, -⟩
  · cases herror.symm.trans hrefused
    rcases g'.register_eq key node' with ⟨-, hrefused'⟩ | ⟨hnew, -⟩
    · exact hrefused'
    · exact absurd (h.keys.subset hmem) hnew
  · cases hok.symm.trans hrefused

end Evolves

end

end Graph

/-! ## Requests -/

variable {note : Notice → σ → σ}

/-- A registration adds one node, or none. -/
theorem Workshop.register_evolves (w : Workshop σ ι) (key : Key) (node : Node σ ι) :
    w.graph.Evolves (w.register key node).2.graph := by
  unfold Workshop.register
  cases hregister : w.graph.register key node with
  | error e => exact .refl
  | ok g => exact .single (.node hregister)

/-- A request to register something that was refused is refused for good. -/
theorem Graph.Evolves.register_refused {w w' : Workshop σ ι} (h : w.graph.Evolves w'.graph)
    {key : Key} {node : Node σ ι} {e : GraphError} (hrefused : (w.register key node).1 = .error e) :
    (w'.register key node).1 = .error e := by
  unfold Workshop.register at hrefused ⊢
  cases hregister : w.graph.register key node with
  | ok g =>
    rw [hregister] at hrefused
    cases hrefused
  | error e' =>
    rw [hregister] at hrefused
    cases hrefused
    rw [h.register_error hregister]

/-- Every change that a call makes is one of a cache, or a new node. -/
theorem Graph.Evolves.effect :
    Graph.Effect fun (g : Graph σ ι) _ (g' : Graph σ ι) => g.Evolves g' where
  refl _ _ := .refl
  trans h h' := h.trans h'
  cache h _ _ _ := h.tail (.cache ..)
  poison h _ := h.tail (.cache ..)
  node h _ := .single (.node h)

theorem Program.evolves {resolve : Resolver σ ι}
    (hresolve : ∀ key (w : Workshop σ ι), w.graph.Evolves (resolve key w).2.graph)
    (p : Program σ ι) (w : Workshop σ ι) : w.graph.Evolves (p.run resolve w).2.graph :=
  Graph.Evolves.effect.program hresolve p w

theorem resolveWithin_evolves (note : Notice → σ → σ) (depth : Nat) (key : Key)
    (w : Workshop σ ι) : w.graph.Evolves (resolveWithin note depth key w).2.graph :=
  Graph.Evolves.effect.resolveWithin note depth key w

theorem invokeWithin_evolves (note : Notice → σ → σ) (depth : Nat) (name : String)
    (inputs : Inputs) (function : Args ι → Program σ ι) (w : Workshop σ ι) :
    w.graph.Evolves (invokeWithin note depth name inputs function w).2.graph :=
  Graph.Evolves.effect.invokeWithin note depth name inputs function w

/-- Whatever is requested registers more or changes caches. -/
theorem Request.evolves (note : Notice → σ → σ) (request : Request σ ι) (w : Workshop σ ι) :
    w.graph.Evolves (request.reply note w).2.graph := by
  cases request with
  | live world => exact .refl
  | supply key value => exact w.register_evolves key _
  | provide key inputs construct => exact w.register_evolves key _
  | resolve depth key => exact resolveWithin_evolves note depth key w
  | invoke depth name inputs function =>
    exact invokeWithin_evolves note depth name inputs function w

/-- The graph at work after requests one after another. -/
def Workshop.after (note : Notice → σ → σ) (w : Workshop σ ι) (requests : List (Request σ ι)) :
    Workshop σ ι :=
  requests.foldl (fun w request => (request.reply note w).2) w

/-- Any requests only change caches and add nodes. -/
theorem Workshop.after_evolves (note : Notice → σ → σ) (requests : List (Request σ ι))
    (w : Workshop σ ι) : w.graph.Evolves (w.after note requests).graph := by
  induction requests generalizing w with
  | nil => exact .refl
  | cons request rest ih => exact (request.evolves note w).trans (ih _)

end ServiceHost
