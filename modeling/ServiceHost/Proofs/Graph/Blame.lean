import Mathlib.Data.List.Chain
import ServiceHost.Proofs.Graph.Retry

/-!
# What a refusal names

The walk of the check knows the keys on its way. They are a trail: each of them once, and each a
component to be made that uses the next one (`Graph.Trail`). An input that leads back to one of them
therefore closes a circle, which the trail from that key on is (`Trail.circle`), and whatever the
walk stops at is needed by the component that it set out for. So the keys that a refusal names are
to be blamed for it (`refusals_genuine`): those of a circular dependency make up a circle, and a
missing one is required by the component that is named beside it.
-/

namespace ServiceHost

open Relation

variable {σ ι : Type}

namespace Graph

/-- Each of the keys occurs once, and each stands for a component to be made that uses the next. -/
structure Trail (g : Graph σ ι) (way : List Key) : Prop where
  nodup : way.Nodup
  linked : way.IsChain g.Uses

/-- A trail of components that `root` needs, the last of which uses the first. -/
structure Circle (g : Graph σ ι) (root first : Key) (rest : List Key) : Prop where
  nodup : (first :: rest).Nodup
  needed : ∀ k ∈ first :: rest, g.Needs root k
  closed : (first :: rest ++ [first]).IsChain g.Uses

/-- What the error names is the reason why `root` cannot be made. -/
inductive Blamed (g : Graph σ ι) (root : Key) : GraphError → Prop
  | circle {first : Key} {rest : List Key} (h : g.Circle root first rest) :
      Blamed g root (.circularDependency (cycleText (first :: rest ++ [first])))
  | lacking {owner : Key} {inputs : Inputs} {p : Param} (hneeds : g.Needs root owner)
      (hinputs : g.Unbuilt owner inputs) (hp : p ∈ inputs) (hrequired : p.optional = false)
      (hnone : g.node? p.key = none) : Blamed g root (.missingDependency p.key (some owner))

section
variable {g : Graph σ ι} {path way done : List Key} {root key used first : Key} {rest : List Key}
  {node : Node σ ι} {e : GraphError}

theorem Circle.head (huses : g.Uses root used) (h : g.Circle used first rest) :
    g.Circle root first rest :=
  ⟨h.nodup, fun k hk => (h.needed k hk).head huses, h.closed⟩

/-- What is to be blamed below a component is to be blamed for those that use it, too. -/
theorem Blamed.head (huses : g.Uses root used) (h : g.Blamed used e) : g.Blamed root e := by
  cases h with
  | circle h => exact .circle (h.head huses)
  | lacking hneeds hinputs hp hrequired hnone =>
    exact .lacking (hneeds.head huses) hinputs hp hrequired hnone

/-- The first key of a trail needs all of them. -/
theorem needs_of_linked (hpending : g.Pending first) (h : (first :: rest).IsChain g.Uses) :
    ∀ k ∈ first :: rest, g.Needs first k := by
  refine h.induction (g.Needs first) _ ?_ fun _ => ⟨hpending, .refl⟩
  exact fun _ _ huses hneeds => hneeds.tail huses

/-- The part of a trail from some key on, where `dropWhile` leaves off. -/
theorem dropWhile_eq_cons (h : key ∈ way) :
    ∃ rest, way.dropWhile (· != key) = key :: rest := by
  induction way with
  | nil => cases h
  | cons a way ih =>
    rw [List.dropWhile_cons]
    by_cases ha : a = key
    · subst ha
      exact ⟨way, if_neg (by simp)⟩
    · rw [if_pos (by simpa using ha)]
      exact ih (List.mem_of_ne_of_mem (Ne.symm ha) h)

/-- A trail goes on with an input of its last component, unless the input is on it. -/
theorem Trail.snoc (h : g.Trail (path ++ [key])) (huses : g.Uses key used)
    (hoff : used ∉ path ++ [key]) : g.Trail (path ++ [key] ++ [used]) where
  nodup := by
    refine List.nodup_append.2 ⟨h.nodup, List.pairwise_singleton .., ?_⟩
    rintro a ha b hb rfl
    exact hoff (List.mem_singleton.1 hb ▸ ha)
  linked := by
    refine h.linked.append (List.isChain_singleton used) ?_
    simpa using huses

/-- All keys on a trail that ends at a pending one are pending. -/
theorem Trail.pending (h : g.Trail (path ++ [key])) (hkey : g.Pending key)
    (hmem : used ∈ path ++ [key]) : g.Pending used := by
  rcases List.mem_append.1 hmem with hpath | hlast
  · refine h.linked.backwards_concat_induction g.Pending path ?_ hkey used hpath
    rintro a b ⟨inputs, hunbuilt, -⟩ -
    exact ⟨inputs, hunbuilt⟩
  · rwa [List.mem_singleton.1 hlast]

/-- An input of its last component that is on the trail closes a circle. -/
theorem Trail.circle (h : g.Trail (path ++ [key])) (huses : g.Uses key used)
    (hrest : (path ++ [key]).dropWhile (· != used) = used :: rest) :
    g.Circle key used rest := by
  have hsuffix : used :: rest <:+ path ++ [key] := hrest ▸ List.dropWhile_suffix _
  have hlinked := h.linked.suffix hsuffix
  have hlast : (used :: rest).getLast? = some key := by
    obtain ⟨before, hbefore⟩ := hsuffix
    rw [← List.getLast?_append_of_ne_nil before (List.cons_ne_nil used rest), hbefore,
      List.getLast?_concat]
  have ⟨_, _, _, hused⟩ := huses
  refine ⟨h.nodup.sublist hsuffix.sublist, fun k hk => ?_, ?_⟩
  · exact (needs_of_linked hused hlinked k hk).head huses
  · refine hlinked.append (List.isChain_singleton used) ?_
    rw [hlast]
    simpa using huses

/-- What a walk along a trail stops at is to be blamed. -/
theorem visit_blamed (hg : g.Calm) (depth : Nat) (hnode : g.node? key = some node)
    (htrail : g.Trail (path ++ [key])) (h : g.visit depth path key node done = .error e) :
    g.Blamed key e := by
  induction depth generalizing path key node done with
  | zero =>
    obtain ⟨below, _, hdepth, -⟩ := visit_stopped hg hnode h
    cases hdepth
  | succ depth ih =>
    obtain ⟨below, inputs, hdepth, hunbuilt, hstopped⟩ := visit_stopped hg hnode h
    obtain rfl := Nat.succ.inj hdepth
    have hself : g.Needs key key := ⟨⟨_, hunbuilt⟩, .refl⟩
    cases hstopped with
    | lacking hp hrequired hnone => exact .lacking hself hunbuilt hp hrequired hnone
    | @back p hp hback =>
      have huses : g.Uses key p.key :=
        ⟨inputs, hunbuilt, ⟨p, hp, rfl⟩, htrail.pending ⟨inputs, hunbuilt⟩ hback⟩
      obtain ⟨rest, hrest⟩ := dropWhile_eq_cons hback
      rw [circular, hrest]
      exact .circle (htrail.circle huses hrest)
    | @below p _ _ _ hp hoff hnode hvisit =>
      have huses : g.Uses key p.key :=
        ⟨inputs, hunbuilt, ⟨p, hp, rfl⟩, pending_of_visit_error hg hnode hvisit⟩
      exact (ih hnode (htrail.snoc huses hoff) hvisit).head huses

/-- What the check finds fault with is to be blamed. -/
theorem verify_blamed (hg : g.Calm) (hnode : g.node? key = some node)
    (h : g.verify key node = .error e) : g.Blamed key e := by
  unfold verify at h
  split at h
  · cases h
  · next hvisit =>
    cases h
    exact visit_blamed hg g.size hnode ⟨List.nodup_singleton key, List.isChain_singleton key⟩ hvisit

end

end Graph

/-! ## Resolution -/

variable {w : Workshop σ ι} {note : Notice → σ → σ} {depth : Nat}

/-- Of a graph that any requests have led to, none of which made a constructor panic, the keys that
an error names are to be blamed for it. The keys of a circular dependency are those of a circle,
with the first once more at the end. What is missing for itself is the key, which is not registered.
What is missing for another component is required by that one, which the key needs or is. -/
theorem refusals_genuine {whys : List Interruption} (h : Workshop.Reached note whys w)
    (hdeep : .tooDeep ∉ whys) (hunmarked : w.graph.Unmarked) (hdepth : w.graph.size < depth)
    (key : Key) :
    (∀ cycle, (resolveWithin note depth key w).1 = .error (.circularDependency cycle) →
      ∃ first rest, w.graph.Circle key first rest ∧
        cycle = Text.join " -> " ((first :: rest ++ [first]).map Key.text)) ∧
    (∀ missing, (resolveWithin note depth key w).1 = .error (.missingDependency missing none) →
      missing = key ∧ w.graph.node? key = none) ∧
    (∀ missing owner,
      (resolveWithin note depth key w).1 = .error (.missingDependency missing (some owner)) →
        w.graph.node? missing = none ∧ w.graph.Needs key owner ∧
          ∃ inputs, w.graph.Unbuilt owner inputs ∧
            ∃ p ∈ inputs, p.key = missing ∧ p.optional = false) := by
  obtain ⟨hidle, -⟩ := h.rested hdeep
  have hcalm : w.graph.Calm := ⟨hidle.unlocked, hunmarked⟩
  -- the key itself is missing, or the check has refused it
  have hcases : ∀ e, (resolveWithin note depth key w).1 = .error e → e.isConfiguration = true →
      w.graph.node? key = none ∧ e = .missingDependency key none ∨ w.graph.Blamed key e := by
    intro e herror hkind
    refine (configuration_of_resolveWithin hidle hunmarked hdepth herror hkind).imp_right ?_
    rintro ⟨node, hnode, hverify⟩
    exact Graph.verify_blamed hcalm hnode hverify
  refine ⟨?circle, ?self, ?other⟩
  case circle =>
    intro cycle herror
    obtain ⟨-, hsame⟩ | hblamed := hcases _ herror rfl
    · cases hsame
    · cases hblamed with
      | circle hcircle => exact ⟨_, _, hcircle, rfl⟩
  case self =>
    intro missing herror
    obtain ⟨hnone, hsame⟩ | hblamed := hcases _ herror rfl
    · cases hsame
      exact ⟨rfl, hnone⟩
    · cases hblamed
  case other =>
    intro missing owner herror
    obtain ⟨-, hsame⟩ | hblamed := hcases _ herror rfl
    · cases hsame
    · cases hblamed with
      | lacking hneeds hinputs hp hrequired hnone =>
        exact ⟨hnone, hneeds, _, hinputs, _, hp, rfl, hrequired⟩

/-- The service and the cache that use each other, with a server above them, and a report whose
store has no disk. -/
def blamedWorkshop : Workshop Nat Nat :=
  let server := (loopedWorkshop.register (.of ⟨"Server"⟩)
    (.ofRecipe [.of "cache" ⟨"Cache"⟩] fun _ => .finish (.ok 0))).2
  let store := (server.register (.of ⟨"Store"⟩)
    (.ofRecipe [.of "disk" ⟨"Disk"⟩] fun _ => .finish (.ok 0))).2
  (store.register (.of ⟨"Report"⟩)
    (.ofRecipe [.of "store" ⟨"Store"⟩] fun _ => .finish (.ok 0))).2

theorem blamedWorkshop_reached : Workshop.Reached (fun _ count => count + 1) [] blamedWorkshop :=
  .provide (.provide (.provide loopedWorkshop_reached _ _ fun _ => .finish _) _ _
    fun _ => .finish _) _ _ fun _ => .finish _

/-- The server is not on the circle that it is refused for: the cache is its first key. The report
is refused for what its store requires, and the disk for itself. -/
theorem blamedWorkshop_refused :
    (∃ first rest, blamedWorkshop.graph.Circle (.of ⟨"Server"⟩) first rest ∧
        cycleText [.of ⟨"Cache"⟩, .of ⟨"Service"⟩, .of ⟨"Cache"⟩] =
          Text.join " -> " ((first :: rest ++ [first]).map Key.text)) ∧
      blamedWorkshop.graph.node? (.of ⟨"Disk"⟩) = none ∧
      blamedWorkshop.graph.Needs (.of ⟨"Report"⟩) (.of ⟨"Store"⟩) := by
  have hunmarked : blamedWorkshop.graph.Unmarked :=
    (blamedWorkshop_reached.rested List.not_mem_nil).2 fun _ => List.not_mem_nil
  have hdepth : blamedWorkshop.graph.size < 6 := by decide
  have hgenuine := refusals_genuine blamedWorkshop_reached List.not_mem_nil hunmarked hdepth
  obtain ⟨hserver, -, -⟩ := hgenuine (.of ⟨"Server"⟩)
  obtain ⟨-, -, hreport⟩ := hgenuine (.of ⟨"Report"⟩)
  obtain ⟨-, hdisk, -⟩ := hgenuine (.of ⟨"Disk"⟩)
  exact ⟨hserver _ rfl, (hdisk (.of ⟨"Disk"⟩) rfl).2, (hreport (.of ⟨"Disk"⟩) _ rfl).2.1⟩

end ServiceHost
