import Mathlib.Data.List.Forall2
import Mathlib.Data.List.Nodup
import ServiceHost.Proofs.Graph.Origins
import ServiceHost.Proofs.Graph.Precheck

/-!
# The order of construction

A constructor runs after the components of its inputs were made, and once. So the components of a
graph come about in an order in which each comes after all that it declares as inputs, directly or
through others (`Graph.Laid.precedes`). If every constructor leaves one line in a journal when it is
called, the lines are those of the components in this order (`Workshop.Logged`). A construction adds
the components that had to be made for it, none of which is on the way to it (`build_logged`), and
an invocation adds those of its inputs (`invokeWithin_logged`).
-/

namespace ServiceHost

open Relation

variable {σ ι β : Type}

/-! ## Orders of construction -/

namespace Graph

/-- What is registered under a key, as it was registered. -/
def registered? (g : Graph σ ι) (key : Key) : Option (Node σ ι) :=
  (g.node? key).map (Node.mapCache fun _ => .fresh)

/-- A constructor is registered under the key. -/
def Provides (g : Graph σ ι) (key : Key) : Prop :=
  ∃ inputs construct, g.registered? key = some (.ofRecipe inputs construct)

/-- The constructor of the key declares the other key as an input. -/
def Declares (g : Graph σ ι) (key used : Key) : Prop :=
  ∃ inputs construct, g.registered? key = some (.ofRecipe inputs construct) ∧
    ∃ p ∈ inputs, p.key = used

/-- The constructor of the key has made its component. -/
def Made (g : Graph σ ι) (key : Key) : Prop :=
  g.Provides key ∧ g.item? key ≠ none

/-- Every component of the list comes once, after the components that it declares as inputs. -/
inductive Laid (g : Graph σ ι) : List Key → Prop
  | nil : Laid g []
  | snoc {order : List Key} {key : Key} (h : Laid g order) (hnew : key ∉ order)
      (hused : ∀ used, g.Declares key used → g.Provides used → used ∈ order) :
      Laid g (order ++ [key])

section
variable {g g' : Graph σ ι} {key used : Key} {order before after : List Key} {inputs : Inputs}
  {construct : Args ι → Program σ ι} {cache : Cache ι} {item : Instance ι}

/-- What is registered does not depend on caches. -/
@[simp] theorem registered?_mapCache (g : Graph σ ι) (key : Key) (f : Cache ι → Cache ι)
    (k : Key) : (g.mapCache key f).registered? k = g.registered? k := by
  unfold registered?
  rw [node?_mapCache]
  split
  · cases g.node? k with
    | none => rfl
    | some node => cases node <;> rfl
  · rfl

theorem registered?_of_recipe (h : g.node? key = some (.recipe inputs construct cache)) :
    g.registered? key = some (.ofRecipe inputs construct) := by
  rw [registered?, h]
  rfl

/-- A constructor stays, whatever is in its cache. -/
theorem node?_of_recipe (h : g.registered? key = some (.ofRecipe inputs construct)) :
    ∃ cache, g.node? key = some (.recipe inputs construct cache) := by
  obtain ⟨node, hnode, hsame⟩ := Option.map_eq_some_iff.1 h
  cases node with
  | value => cases hsame
  | recipe _ _ cache =>
    cases hsame
    exact ⟨cache, hnode⟩

/-- A value stays as it was registered. -/
theorem registered?_eq_value :
    g.registered? key = some (.value item) ↔ g.node? key = some (.value item) := by
  unfold registered?
  cases g.node? key with
  | none => exact Iff.rfl
  | some node =>
    cases node with
    | value => exact Iff.rfl
    | recipe => exact ⟨nofun, nofun⟩

/-- A component that another one declares something through was provided. -/
theorem Declares.provides (h : g.Declares key used) : g.Provides key := by
  obtain ⟨inputs, construct, hrecipe, -⟩ := h
  exact ⟨inputs, construct, hrecipe⟩

/-- Each key stands there once. -/
theorem Laid.nodup (h : g.Laid order) : order.Nodup := by
  induction h with
  | nil => exact List.nodup_nil
  | snoc _ hnew _ ih =>
    rw [List.nodup_append]
    refine ⟨ih, List.pairwise_singleton .., ?_⟩
    rintro a ha b hb rfl
    exact hnew (List.mem_singleton.1 hb ▸ ha)

/-- A component comes after those that it declares as inputs. -/
theorem Laid.declared (h : g.Laid order) (horder : order = before ++ key :: after)
    (hdeclares : g.Declares key used) (hprovides : g.Provides used) : used ∈ before := by
  induction h generalizing after with
  | nil => simp at horder
  | @snoc order last _ _ hused ih =>
    rcases List.eq_nil_or_concat after with rfl | ⟨after', final, rfl⟩
    · obtain ⟨rfl, rfl⟩ := List.append_inj' horder rfl |>.imp_right List.singleton_inj.1
      exact hused used hdeclares hprovides
    · have hsplit : order ++ [last] = (before ++ key :: after') ++ [final] := by
        rw [horder, List.concat_eq_append, List.append_assoc, List.cons_append]
      exact ih (List.append_inj' hsplit rfl).1

/-- A component comes after those that it declares as inputs, directly or through others. -/
theorem Laid.precedes (h : g.Laid order) (horder : order = before ++ key :: after)
    (hdeclares : TransGen g.Declares key used) (hprovides : g.Provides used) : used ∈ before := by
  induction hdeclares using TransGen.head_induction_on generalizing before after with
  | single hlast => exact h.declared horder hlast hprovides
  | @head key next hfirst hrest ih =>
    have hnext : g.Provides next := by
      rcases TransGen.head'_iff.1 hrest with ⟨_, hdeclares, -⟩
      exact hdeclares.provides
    obtain ⟨start, between, rfl⟩ := List.append_of_mem (h.declared horder hfirst hnext)
    rw [List.append_assoc] at horder
    exact List.mem_append_left _ (ih horder)

/-- What belongs to the components stands in the same order. -/
theorem Laid.sublist_of_declares {parts : List (Key × β)} (h : g.Laid (parts.map Prod.fst))
    {part other : Key × β} (hpart : part ∈ parts) (hother : other ∈ parts)
    (hprovides : g.Provides other.1) (hdeclares : TransGen g.Declares part.1 other.1) :
    [other, part].Sublist parts := by
  obtain ⟨before, after, rfl⟩ := List.append_of_mem hpart
  have horder : (before ++ part :: after).map Prod.fst =
      before.map Prod.fst ++ part.1 :: after.map Prod.fst := by
    rw [List.map_append, List.map_cons]
  obtain ⟨same, hbefore, hkey⟩ := List.mem_map.1 (h.precedes horder hdeclares hprovides)
  obtain rfl : same = other :=
    List.inj_on_of_nodup_map h.nodup (List.mem_append_left _ hbefore) hother hkey
  exact (List.singleton_sublist.2 hbefore).append (List.singleton_sublist.2 List.mem_cons_self)

/-- An order of construction depends on what is registered only. -/
theorem Laid.congr (h : g.Laid order) (hsame : ∀ k, g'.registered? k = g.registered? k) :
    g'.Laid order := by
  induction h with
  | nil => exact .nil
  | snoc _ hnew hused ih =>
    refine .snoc ih hnew fun used hdeclares hprovides => hused used ?_ ?_
    · obtain ⟨inputs, construct, hrecipe, hp⟩ := hdeclares
      exact ⟨inputs, construct, (hsame _).symm.trans hrecipe, hp⟩
    · obtain ⟨inputs, construct, hrecipe⟩ := hprovides
      exact ⟨inputs, construct, (hsame _).symm.trans hrecipe⟩

/-- A change of a cache that leaves the component in it makes none. -/
theorem made_mapCache {f : Cache ι → Cache ι} (hmade : ∀ c, (f c).made = c.made) :
    (g.mapCache key f).Made used ↔ g.Made used := by
  rw [Made, Made, Provides, registered?_mapCache, item?_mapCache hmade]
  exact Iff.rfl

/-- What is stored was made, and so was what had been made before. -/
theorem made_store (hnode : g.node? key = some (.recipe inputs construct cache)) :
    (g.store key item).Made used ↔ g.Made used ∨ used = key := by
  rw [Made, Made, Provides, store, registered?_mapCache, item?, node?_mapCache]
  split
  · next hsame =>
    subst hsame
    rw [hnode]
    have hmade : (some item : Option (Instance ι)) ≠ none := Option.some_ne_none item
    exact ⟨fun _ => .inr rfl, fun _ => ⟨⟨_, _, registered?_of_recipe hnode⟩, hmade⟩⟩
  · next hother => exact ⟨.inl, fun h => h.resolve_right hother⟩

end

end Graph

/-! ## Journals -/

/-- A journal in the surroundings. Constructors have access to it through the component of one key,
and each has lines of its own. -/
structure Journal (σ ι β : Type) where
  lines : σ → List β
  key : Key
  item : Instance ι
  line : Key → β → Prop

/-- The constructor leaves the graph alone, and one line in the journal, when it is called with the
inputs that it declares and returns. -/
def Journal.Writes (j : Journal σ ι β) (key : Key) (inputs : Inputs)
    (construct : Args ι → Program σ ι) : Prop :=
  ∀ (entries : Entries ι) (resolve : Resolver σ ι) (w : Workshop σ ι) (value : ι)
    (w' : Workshop σ ι), entries.map Prod.fst = inputs →
    (∀ entry ∈ entries, entry.1.key = j.key → entry.2 = some j.item) →
    (construct ⟨key, entries⟩).run resolve w = (.ok value, w') →
      w'.graph = w.graph ∧
        ∃ line, j.line key line ∧ j.lines w'.world = j.lines w.world ++ [line]

/-- The components were made in this order, and the journal has a line of each. -/
structure Workshop.Logged (j : Journal σ ι β) (w : Workshop σ ι) (order : List Key) : Prop where
  laid : w.graph.Laid order
  made : ∀ key, w.graph.Made key ↔ key ∈ order
  lines : List.Forall₂ j.line order (j.lines w.world)
  item : w.graph.registered? j.key = some (.value j.item)
  writes : ∀ key inputs construct, w.graph.registered? key = some (.ofRecipe inputs construct) →
    j.Writes key inputs construct

/-- A call has made these components too, none of which was under construction. -/
structure Workshop.Adds (j : Journal σ ι β) (w : Workshop σ ι) (order path more : List Key)
    (w' : Workshop σ ι) : Prop where
  logged : w'.Logged j (order ++ more)
  registered : ∀ key, w'.graph.registered? key = w.graph.registered? key
  off : ∀ key ∈ more, key ∉ path

namespace Workshop

variable {j : Journal σ ι β} {w w₁ w₂ : Workshop σ ι} {order more more' path : List Key} {key : Key}
  {inputs : Inputs} {construct : Args ι → Program σ ι} {cache : Cache ι} {item : Instance ι}

/-- Nothing is made if no component is, nothing is registered and no line is left. -/
theorem Logged.unmade (h : w.Logged j order)
    (hregistered : ∀ key, w₁.graph.registered? key = w.graph.registered? key)
    (hmade : ∀ key, w₁.graph.Made key ↔ w.graph.Made key)
    (hlines : j.lines w₁.world = j.lines w.world) : w₁.Logged j order where
  laid := h.laid.congr hregistered
  made key := (hmade key).trans (h.made key)
  lines := hlines ▸ h.lines
  item := (hregistered _).trans h.item
  writes key inputs construct hrecipe :=
    h.writes key inputs construct ((hregistered _).symm.trans hrecipe)

/-- Only the surroundings have changed, and the journal has not. -/
theorem Logged.still (h : w.Logged j order) (hgraph : w₁.graph = w.graph)
    (hlines : j.lines w₁.world = j.lines w.world) : w₁.Logged j order :=
  h.unmade (fun _ => by rw [hgraph]) (fun _ => by rw [hgraph]) hlines

theorem Logged.lock (h : w.Logged j order) (key : Key) :
    Logged j { w with graph := w.graph.lock key } order :=
  h.unmade (Graph.registered?_mapCache _ _ _) (fun _ => Graph.made_mapCache fun _ => rfl) rfl

theorem Adds.none (h : w.Logged j order) (path : List Key) : w.Adds j order path [] w :=
  ⟨(List.append_nil order).symm ▸ h, fun _ => rfl, nofun⟩

theorem Adds.and_then (h : w.Adds j order path more w₁)
    (h' : w₁.Adds j (order ++ more) path more' w₂) : w.Adds j order path (more ++ more') w₂ where
  logged := List.append_assoc order more more' ▸ h'.logged
  registered key := (h'.registered key).trans (h.registered key)
  off key hkey := (List.mem_append.1 hkey).elim (h.off key) (h'.off key)

/-- A call provides no more than there was. -/
theorem Adds.provides (h : w.Adds j order path more w₁) (key : Key) :
    w₁.graph.Provides key ↔ w.graph.Provides key := by
  rw [Graph.Provides, Graph.Provides, h.registered]

/-- A constructor has returned, after the components of its inputs were made. -/
theorem Logged.store (h : w.Logged j order) (hnew : key ∉ order)
    (hnode : w.graph.node? key = some (.recipe inputs construct cache))
    (hused : ∀ p ∈ inputs, w.graph.Provides p.key → p.key ∈ order) (hgraph : w₁.graph = w.graph)
    {line : β} (hline : j.line key line)
    (hlines : j.lines w₁.world = j.lines w.world ++ [line]) :
    Logged j { w₁ with graph := w₁.graph.store key item } (order ++ [key]) := by
  have hregistered (k : Key) :
      (w₁.graph.store key item).registered? k = w.graph.registered? k := by
    rw [Graph.store, Graph.registered?_mapCache, hgraph]
  have hlaid : w.graph.Laid (order ++ [key]) := by
    refine .snoc h.laid hnew ?_
    rintro _ ⟨inputs', construct', hrecipe, p, hp, rfl⟩ hprovides
    cases (Graph.registered?_of_recipe hnode).symm.trans hrecipe
    exact hused p hp hprovides
  refine ⟨hlaid.congr hregistered, fun k => ?_, ?_, (hregistered _).trans h.item, ?_⟩
  · rw [List.mem_append, List.mem_singleton, ← h.made, ← hgraph]
    exact Graph.made_store (hgraph ▸ hnode)
  · show List.Forall₂ j.line _ (j.lines w₁.world)
    rw [hlines]
    exact List.rel_append h.lines (.cons hline .nil)
  · intro k inputs' construct' hrecipe
    exact h.writes k inputs' construct' ((hregistered k).symm.trans hrecipe)

/-- The end of a construction, which took the lock of its key and made the components of its inputs
first. -/
theorem Adds.returned
    (h : Adds j { w with graph := w.graph.lock key } order (path ++ [key]) more w₁)
    (hnode : w.graph.node? key = some (.recipe inputs construct cache)) (hnew : key ∉ order)
    (hoff : key ∉ path)
    (hused : ∀ p ∈ inputs, (w.graph.lock key).Provides p.key → p.key ∈ order ++ more)
    (hgraph : w₂.graph = w₁.graph) {line : β} (hline : j.line key line)
    (hlines : j.lines w₂.world = j.lines w₁.world ++ [line]) :
    w.Adds j order path (more ++ [key]) { w₂ with graph := w₂.graph.store key item } := by
  have hregistered (k : Key) : w₁.graph.registered? k = w.graph.registered? k :=
    (h.registered k).trans (Graph.registered?_mapCache ..)
  obtain ⟨cache', hnode'⟩ := Graph.node?_of_recipe
    ((hregistered key).trans (Graph.registered?_of_recipe hnode))
  have hfirst : key ∉ order ++ more := by
    rw [List.mem_append, not_or]
    exact ⟨hnew, fun hmem => h.off key hmem (List.mem_append_right _ List.mem_cons_self)⟩
  refine ⟨?_, fun k => ?_, fun k hk => ?_⟩
  · rw [← List.append_assoc]
    have hused' (p : Param) (hp : p ∈ inputs) (hprovides : w₁.graph.Provides p.key) :
        p.key ∈ order ++ more :=
      hused p hp ((h.provides _).1 hprovides)
    exact h.logged.store hfirst hnode' hused' hgraph hline hlines
  · rw [Graph.store, Graph.registered?_mapCache, hgraph]
    exact hregistered k
  · rcases List.mem_append.1 hk with hk | hk
    · exact fun hmem => h.off k hk (List.mem_append_left _ hmem)
    · exact List.mem_singleton.1 hk ▸ hoff

end Workshop

/-! ## Constructions -/

/-- A way to find the component of a node, with these components under construction. It leaves the
components that it has made for this, in the order in which it made them. -/
def Journal.Finds (j : Journal σ ι β) (path : List Key)
    (find : Key → Node σ ι → Workshop σ ι → Outcome GraphError (Instance ι) × Workshop σ ι) :
    Prop :=
  ∀ key node (w : Workshop σ ι) order item w', w.Logged j order →
    w.graph.node? key = some node → find key node w = (.ok item, w') →
      ∃ more, w.Adds j order path more w' ∧ (w.graph.Provides key → key ∈ order ++ more) ∧
        ∀ value, node = .value value → item = value

section
variable {j : Journal σ ι β} {note : Notice → σ → σ} {path : List Key}

/-- A value is found as it was registered. -/
theorem Journal.Finds.value {w : Workshop σ ι} {order : List Key} {key : Key} {item : Instance ι}
    (h : w.Logged j order) (hnode : w.graph.node? key = some (.value item)) :
    ∃ more, w.Adds j order path more w ∧ (w.graph.Provides key → key ∈ order ++ more) ∧
      ∀ value, (.value item : Node σ ι) = .value value → item = value := by
  refine ⟨[], .none h path, ?_, fun _ hvalue => Node.value.inj hvalue⟩
  rintro ⟨_, _, hrecipe⟩
  cases (Graph.registered?_eq_value.2 hnode).symm.trans hrecipe

/-- Finding the components of inputs makes all of them that have a constructor. -/
theorem gather_logged {owner : Key}
    {find : Key → Node σ ι → Workshop σ ι → Outcome GraphError (Instance ι) × Workshop σ ι}
    (hfind : j.Finds path find) {inputs : Inputs} {w w' : Workshop σ ι} {order : List Key}
    {entries : Entries ι} (h : w.Logged j order)
    (hok : gather owner find inputs w = (.ok entries, w')) :
    ∃ more, w.Adds j order path more w' ∧ entries.map Prod.fst = inputs ∧
      (∀ entry ∈ entries, entry.1.key = j.key → entry.2 = some j.item) ∧
      ∀ p ∈ inputs, w.graph.Provides p.key → p.key ∈ order ++ more := by
  induction inputs generalizing w order entries with
  | nil =>
    cases hok
    exact ⟨[], .none h path, rfl, nofun, nofun⟩
  | cons p rest ih =>
    rcases gather_cons_ok hok with ⟨others, hnode, -, hrest, rfl⟩ |
      ⟨node, item, w₁, others, hnode, hfirst, hrest, rfl⟩
    · have hunprovided : ¬ w.graph.Provides p.key := by
        rintro ⟨_, _, hrecipe⟩
        rw [Graph.registered?, hnode] at hrecipe
        cases hrecipe
      obtain ⟨more, hadds, hfields, hitem, hprovided⟩ := ih h hrest
      refine ⟨more, hadds, congrArg (p :: ·) hfields, ?_, ?_⟩
      · refine List.forall_mem_cons.2 ⟨fun hkey => ?_, hitem⟩
        rw [hkey, Graph.registered?_eq_value.1 h.item] at hnode
        cases hnode
      · exact List.forall_mem_cons.2 ⟨(absurd · hunprovided), hprovided⟩
    · obtain ⟨more, hadds, hmade, hvalue⟩ := hfind p.key node w order item w₁ h hnode hfirst
      obtain ⟨more', hadds', hfields, hitem, hprovided⟩ := ih hadds.logged hrest
      refine ⟨more ++ more', hadds.and_then hadds', congrArg (p :: ·) hfields, ?_, ?_⟩
      · refine List.forall_mem_cons.2 ⟨fun hkey => congrArg some ?_, hitem⟩
        rw [hkey, Graph.registered?_eq_value.1 h.item] at hnode
        exact hvalue j.item (Option.some.inj hnode).symm
      · rw [← List.append_assoc]
        refine List.forall_mem_cons.2 ⟨fun hp => List.mem_append_left _ (hmade hp), ?_⟩
        exact fun q hq hprovides => hprovided q hq ((hadds.provides q.key).2 hprovides)

/-- The construction of a component makes it last, after those that it needs. -/
theorem build_logged (hnote : ∀ notice world, j.lines (note notice world) = j.lines world)
    (depth : Nat) (path : List Key) : j.Finds path (build note depth path) := by
  induction depth generalizing path with
  | zero =>
    intro key node w order item w' h hnode hok
    cases node with
    | value found =>
      cases hok
      exact Journal.Finds.value h hnode
    | recipe => cases hok
  | succ depth ih =>
    intro key node w order item w' h hnode hok
    cases node with
    | value found =>
      cases hok
      exact Journal.Finds.value h hnode
    | recipe inputs construct cache =>
      unfold build at hok
      by_cases hpath : key ∈ path
      · rw [if_pos hpath] at hok
        cases hok
      rw [if_neg hpath] at hok
      cases hlocked : cache.locked with
      | true =>
        rw [hlocked, if_pos rfl] at hok
        cases hok
      | false =>
      rw [hlocked, if_neg Bool.false_ne_true] at hok
      have hprovides : w.graph.Provides key := ⟨_, _, Graph.registered?_of_recipe hnode⟩
      have hitem : w.graph.item? key = cache.made := Graph.item?_of_node? hnode
      cases hmade : cache.made with
      | some found =>
        rw [hmade] at hok
        cases hok
        have hthere : w.graph.Made key := by
          refine ⟨hprovides, ?_⟩
          rw [hitem, hmade]
          exact Option.some_ne_none _
        refine ⟨[], .none h path, fun _ => ?_, by rintro _ ⟨⟩⟩
        rw [List.append_nil]
        exact (h.made key).1 hthere
      | none =>
        have hnew : key ∉ order := fun hmem => ((h.made key).2 hmem).2 (hitem.trans hmade)
        simp only [hmade] at hok
        generalize hgather : gather key (build note depth (path ++ [key])) inputs
          { w with graph := w.graph.lock key } = r at hok
        obtain ⟨outcome, w₁⟩ := r
        cases outcome with
        | error => cases hok
        | interrupted => cases hok
        | ok entries =>
          simp only at hok
          generalize hrun : (construct ⟨key, entries⟩).run (resolveWith (build note depth []))
            { w₁ with world := note (.constructing key) w₁.world } = r at hok
          obtain ⟨outcome, w₂⟩ := r
          cases outcome with
          | error => cases hok
          | interrupted => cases hok
          | ok value =>
            cases hok
            obtain ⟨more, hadds, hfields, hgiven, hused⟩ :=
              gather_logged (ih (path ++ [key])) (h.lock key) hgather
            obtain ⟨hgraph, line, hline, hlines⟩ :=
              h.writes key inputs construct (Graph.registered?_of_recipe hnode) entries _ _ _ _
                hfields hgiven hrun
            rw [hnote] at hlines
            refine ⟨more ++ [key], hadds.returned hnode hnew hpath hused hgraph hline hlines,
              fun _ => ?_, by rintro _ ⟨⟩⟩
            exact List.mem_append_right _ (List.mem_append_right _ List.mem_cons_self)

/-- An invocation makes the components of its inputs that are not there yet, if the function leaves
the graph and the journal alone. -/
theorem invokeWithin_logged
    (hnote : ∀ notice world, j.lines (note notice world) = j.lines world) (depth : Nat)
    (name : String) (inputs : Inputs) (function : Args ι → Program σ ι)
    (hfunction : ∀ args resolve (w : Workshop σ ι) value w',
      (function args).run resolve w = (.ok value, w') →
        w'.graph = w.graph ∧ j.lines w'.world = j.lines w.world)
    {w w' : Workshop σ ι} {order : List Key} {value : ι} (h : w.Logged j order)
    (hok : invokeWithin note depth name inputs function w = (.ok value, w')) :
    ∃ more, w'.Logged j (order ++ more) := by
  have hfetch : j.Finds [invocationKey name] (fetch note depth (invocationKey name)) := by
    intro key node w order item w' h hnode hok
    unfold fetch at hok
    split at hok
    · cases hok
    · exact build_logged hnote depth _ key node w order item w' h hnode hok
  rw [invokeWithin_eq] at hok
  generalize hgather : gather (invocationKey name) (fetch note depth (invocationKey name)) inputs
    w = r at hok
  obtain ⟨outcome, w₁⟩ := r
  cases outcome with
  | error => cases hok
  | interrupted => cases hok
  | ok entries =>
    simp only at hok
    generalize hrun : (function ⟨invocationKey name, entries⟩).run (resolveWithin note depth)
      { w₁ with world := note (.invoking (invocationKey name)) w₁.world } = r at hok
    obtain ⟨outcome, w₂⟩ := r
    cases outcome with
    | error => cases hok
    | interrupted => cases hok
    | ok value =>
      cases hok
      obtain ⟨more, hadds, -⟩ := gather_logged hfetch h hgather
      obtain ⟨hgraph, hlines⟩ := hfunction _ _ _ _ _ hrun
      exact ⟨more, hadds.logged.still hgraph (hlines.trans (hnote _ _))⟩

end

end ServiceHost
