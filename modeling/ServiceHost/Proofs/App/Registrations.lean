import ServiceHost.Proofs.App.Chain
import ServiceHost.Proofs.Graph.Attempts

/-!
# The registrations of a graph

From a new graph on, requests are made and modules register (`Errand`), in any order, and while keys
are resolved and functions run, constructors register more. All this is one list of attempts, which
is kept along with the graph (`Roll`). Since a graph comes about by its attempts (`Roll.of_tried`),
the list decides what is in it, at the end and at each attempt on the way (`registered_once`).

A module that returns at its first registration that fails leaves exactly those that it did before
(`Module.Strict.run_cases`).
-/

namespace ServiceHost

variable {σ ι : Type}

/-- Something that is done with a graph: a request, or what a module does. -/
inductive Errand (σ ι : Type) where
  | request (r : Request σ ι)
  | module (m : Module σ ι)

/-- What a module tries to register. -/
def Module.attempts : Module σ ι → Workshop σ ι → List (Attempt σ ι)
  | .finish _, _ => []
  | .register r next, w => w.attempt r.key r.node :: (next (r.run w).1).attempts (r.run w).2
  | .look next, w => (next w.graph).attempts w

namespace Errand

def run (note : Notice → σ → σ) : Errand σ ι → Workshop σ ι → Workshop σ ι
  | .request r, w => (r.reply note w).2
  | .module m, w => (m.run w).2

def attempts (note : Notice → σ → σ) : Errand σ ι → Workshop σ ι → List (Attempt σ ι)
  | .request r, w => r.attempts note w
  | .module m, w => m.attempts w

end Errand

/-- All that was tried at a graph, and what has become of it. -/
structure Roll (σ ι : Type) where
  attempts : List (Attempt σ ι)
  workshop : Workshop σ ι

namespace Roll

/-- Nothing was tried at a new graph, beside which there may be another one. -/
def new (world : σ) (beside : Option (Graph σ ι)) : Roll σ ι :=
  ⟨[], ⟨.empty, beside, world⟩⟩

/-- The roll after one more errand. -/
def next (note : Notice → σ → σ) (roll : Roll σ ι) (errand : Errand σ ι) : Roll σ ι :=
  ⟨roll.attempts ++ errand.attempts note roll.workshop, errand.run note roll.workshop⟩

/-- The roll after errands one after another. -/
def after (note : Notice → σ → σ) (roll : Roll σ ι) (errands : List (Errand σ ι)) : Roll σ ι :=
  errands.foldl (next note) roll

end Roll

/-! ## Modules -/

/-- What is added by a registration. -/
def Registration.entry (r : Registration σ ι) : Key × Node σ ι :=
  (r.key, r.node)

section
variable {w : Workshop σ ι} {m : Module σ ι}

/-- A registration is refused and changes nothing, or adds its node. -/
theorem Registration.run_cases (r : Registration σ ι) (w : Workshop σ ι) :
    (r.key ∈ w.graph.keys ∧ r.run w = (.error (.duplicateRegistration r.key), w)) ∨
      (r.key ∉ w.graph.keys ∧
        r.run w = (.ok (), { w with graph := ⟨w.graph.entries ++ [r.entry]⟩ })) := by
  rw [← Graph.contains_iff]
  unfold run Workshop.register Graph.register
  cases w.graph.contains r.key with
  | true => exact .inl ⟨rfl, rfl⟩
  | false => exact .inr ⟨Bool.false_ne_true, rfl⟩

/-- A strict module adds all that it registers, or it is refused for the first key that was
registered before and has added what it registered till then. -/
theorem Module.Strict.run_cases (h : m.Strict) (w : Workshop σ ι) :
    m.run w = (.ok (), { w with graph :=
      ⟨w.graph.entries ++ (m.registrations w).map (·.entry)⟩ }) ∨
    ∃ added r g, m.registrations w = added ++ [r] ∧
      g = ⟨w.graph.entries ++ added.map (·.entry)⟩ ∧ r.key ∈ g.keys ∧
      m.run w = (.error (.duplicateRegistration r.key), { w with graph := g }) := by
  induction h generalizing w with
  | finish =>
    refine .inl ?_
    rw [registrations, List.map_nil, List.append_nil]
    rfl
  | @register r next herror _ ih =>
    rw [registrations, run]
    obtain ⟨hmem, hr⟩ | ⟨-, hr⟩ := r.run_cases w
    · rw [hr, herror]
      refine .inr ⟨[], r, w.graph, rfl, ?_, hmem, rfl⟩
      rw [List.map_nil, List.append_nil]
    · rw [hr]
      dsimp only
      obtain hok | ⟨added, r', g, hregistrations, hg, hmem, herror⟩ := ih _
      · refine .inl ?_
        rw [hok, List.map_cons, List.append_assoc, List.singleton_append]
      · refine .inr ⟨r :: added, r', g, by rw [hregistrations, List.cons_append], ?_, hmem, herror⟩
        rw [hg, List.map_cons, List.append_assoc, List.singleton_append]
  | look _ ih => exact ih w.graph w

theorem Registration.fresh_node (r : Registration σ ι) : r.node.Fresh := by
  cases r <;> rfl

/-- What a module does to a graph are its attempts. -/
theorem Module.tried (m : Module σ ι) (w : Workshop σ ι) :
    w.graph.Tried (m.attempts w) (m.run w).2.graph := by
  induction m generalizing w with
  | finish result => exact .refl
  | register r next ih =>
    exact (Graph.Tried.single w r.key r.fresh_node).trans (ih (r.run w).1 (r.run w).2)
  | look next ih => exact ih w.graph w

end

/-! ## Rolls -/

section
variable {note : Notice → σ → σ}

theorem Errand.tried (errand : Errand σ ι) (w : Workshop σ ι) :
    w.graph.Tried (errand.attempts note w) (errand.run note w).graph := by
  cases errand with
  | request r => exact r.tried note w
  | module m => exact m.tried w

namespace Roll

variable {roll : Roll σ ι}

/-- Errands add their attempts to the roll, and do nothing to the graph but these. -/
theorem after_tried (note : Notice → σ → σ) (errands : List (Errand σ ι)) (roll : Roll σ ι) :
    ∃ more, (roll.after note errands).attempts = roll.attempts ++ more ∧
      roll.workshop.graph.Tried more (roll.after note errands).workshop.graph := by
  induction errands generalizing roll with
  | nil => exact ⟨[], (List.append_nil _).symm, .refl⟩
  | cons errand rest ih =>
    obtain ⟨more, hattempts, htried⟩ := ih (roll.next note errand)
    refine ⟨errand.attempts note roll.workshop ++ more, ?_, (errand.tried _).trans htried⟩
    rw [← List.append_assoc]
    exact hattempts

/-- A graph comes about by what was tried at it. -/
theorem new_tried (world : σ) (beside : Option (Graph σ ι)) (errands : List (Errand σ ι)) :
    Graph.empty.Tried ((new world beside).after note errands).attempts
      ((new world beside).after note errands).workshop.graph := by
  obtain ⟨more, hattempts, htried⟩ := (new world beside).after_tried note errands
  rw [hattempts]
  exact htried

end Roll

/-- Whatever is done with a new graph: each attempt to register something is refused exactly if its
key was tried before, for this reason, and then the graph is as before; otherwise it adds its key
with its node, after all others. What is in the graph then stays. So the first attempt decides what
is registered under a key, however long the graph is used, and there are as many nodes as attempts
that were not refused, each with a key of its own. A strict module that fails leaves exactly the
registrations before its first that fails. -/
theorem registered_once (note : Notice → σ → σ) (world : σ) (beside : Option (Graph σ ι))
    (errands : List (Errand σ ι)) :
    let roll := (Roll.new world beside).after note errands
    let g := roll.workshop.graph
    (∀ before a after, roll.attempts = before ++ a :: after →
      ((a.result = .error (.duplicateRegistration a.key) ∧ (∃ b ∈ before, b.key = a.key) ∧
          a.key ∈ a.before.keys ∧ a.after = a.before) ∨
        (a.result = .ok () ∧ (∀ b ∈ before, b.key ≠ a.key) ∧ a.key ∉ a.before.keys ∧
          a.after.entries = a.before.entries ++ [(a.key, a.node)])) ∧
      a.before.keys = (before.filter (·.accepted)).map (·.key) ∧
      a.after.keys <+: g.keys ∧
      ∀ key node, a.after.registered? key = some node → g.registered? key = some node) ∧
    (∀ key, g.registered? key = (roll.attempts.find? (·.key = key)).map (·.node)) ∧
    g.keys = (roll.attempts.filter (·.accepted)).map (·.key) ∧ g.keys.Nodup ∧
    g.size = (roll.attempts.filter (·.accepted)).length ∧
    (∀ more, roll.attempts <+: (roll.after note more).attempts ∧
      g.keys <+: (roll.after note more).workshop.graph.keys ∧
      ∀ key node, g.registered? key = some node →
        (roll.after note more).workshop.graph.registered? key = some node) ∧
    ∀ (m : Module σ ι) (w : Workshop σ ι), m.Strict →
      m.run w = (.ok (), { w with graph :=
        ⟨w.graph.entries ++ (m.registrations w).map (·.entry)⟩ }) ∨
      ∃ added r g, m.registrations w = added ++ [r] ∧
        g = ⟨w.graph.entries ++ added.map (·.entry)⟩ ∧ r.key ∈ g.keys ∧
        m.run w = (.error (.duplicateRegistration r.key), { w with graph := g }) := by
  intro roll g
  have htried : Graph.empty.Tried roll.attempts g := Roll.new_tried world beside errands
  have hkeys : g.keys = (roll.attempts.filter (·.accepted)).map (·.key) := htried.keys
  refine ⟨?attempts, ?registered, hkeys, htried.nodup List.nodup_nil, ?size, ?more, ?module⟩
  case attempts =>
    intro before a after hattempts
    rw [hattempts] at htried
    obtain ⟨w, ha, -, hbefore, hafter⟩ := htried.split
    have hgraph : a.before = w.graph := congrArg Attempt.before ha
    refine ⟨?_, ?_, hafter.evolves.keys, fun key node => hafter.evolves.registered⟩
    · rw [hgraph, hbefore.mem_keys, ha]
      obtain ⟨hmem, hresult, hsame⟩ | ⟨hnew, hresult, hadded⟩ := w.attempt_cases a.key a.node
      · exact .inl ⟨hresult, hbefore.mem_keys.1 hmem, hbefore.mem_keys.1 hmem, hsame⟩
      · refine .inr ⟨hresult, fun b hb hk => hnew (hbefore.mem_keys.2 ⟨b, hb, hk⟩),
          fun hearlier => hnew (hbefore.mem_keys.2 hearlier), hadded⟩
    · rw [hgraph]
      exact hbefore.keys
  case registered => exact htried.registered?_eq
  case size => rw [Graph.size_eq_keys, hkeys, List.length_map]
  case more =>
    intro more
    obtain ⟨later, hattempts, hlater⟩ := roll.after_tried note more
    rw [hattempts]
    exact ⟨List.prefix_append .., hlater.evolves.keys, fun key node => hlater.evolves.registered⟩
  case module => exact fun m w hm => hm.run_cases w

end

/-- A module that registers a queue and an index. -/
def storage : Module Unit String :=
  .register (.supply (.of ⟨"Queue"⟩) "empty") fun
    | .error e => .finish (.error e)
    | .ok _ => .register (.supply (.of ⟨"Index"⟩) "sorted") fun
      | .error e => .finish (.error e)
      | .ok _ => .finish (.ok ())

/-- A clock, and mail, whose constructor registers a clock of its own and an index. The mail is
resolved, and then the module is registered. -/
def rivalClocks : List (Errand Unit String) :=
  [ .request (.supply (.of ⟨"Clock"⟩) "utc"),
    .request <| .provide (.of ⟨"Mail"⟩) [] fun _ =>
      .supply (.of ⟨"Clock"⟩) "local" fun _ => .supply (.of ⟨"Index"⟩) "plain" fun _ =>
        .finish (.ok "sent"),
    .request (.resolve 2 (.of ⟨"Mail"⟩)),
    .module storage ]

/-- The second clock is refused in the middle of the construction and changes nothing, and the
module is refused for its index and leaves its queue. -/
theorem rivalClocks_refused :
    let roll := (Roll.new () none).after (fun _ world => world) rivalClocks
    let resolved := (Roll.new () none).after (fun _ world => world) (rivalClocks.take 3)
    (∃ a, roll.attempts[2]? = some a ∧ a.result = .error (.duplicateRegistration (.of ⟨"Clock"⟩)) ∧
      a.after = a.before) ∧
    roll.workshop.graph.registered? (.of ⟨"Clock"⟩) = some (.value ⟨⟨"Clock"⟩, "utc"⟩) ∧
    roll.workshop.graph.size = 4 ∧
    (storage.run resolved.workshop).1 = .error (.duplicateRegistration (.of ⟨"Index"⟩)) ∧
    (storage.run resolved.workshop).2.graph.entries =
      resolved.workshop.graph.entries ++ [(.of ⟨"Queue"⟩, .value ⟨⟨"Queue"⟩, "empty"⟩)] := by
  intro roll resolved
  obtain ⟨hattempts, hregistered, -, -, hsize, -, hmodule⟩ :=
    registered_once (fun _ world => world) () none rivalClocks
  have hstrict : storage.Strict := .register (fun _ => rfl) (.register (fun _ => rfl) .finish)
  refine ⟨?clock, (hregistered _).trans rfl, hsize.trans rfl, ?module⟩
  case clock =>
    have hthird : roll.attempts =
        roll.attempts.take 2 ++ roll.attempts[2] :: roll.attempts.drop 3 :=
      rfl
    obtain ⟨⟨hresult, -, -, hafter⟩ | ⟨hresult, -⟩, -⟩ := hattempts _ _ _ hthird
    · exact ⟨_, rfl, hresult, hafter⟩
    · cases hresult
  case module =>
    have hboth : storage.registrations resolved.workshop =
      [.supply (.of ⟨"Queue"⟩) "empty"] ++ [.supply (.of ⟨"Index"⟩) "sorted"] := rfl
    obtain hok | ⟨added, r, g, hregistrations, rfl, -, hrun⟩ :=
      hmodule storage resolved.workshop hstrict
    · cases congrArg Prod.fst hok
    · obtain ⟨rfl, hlast⟩ := List.append_inj' (hboth.symm.trans hregistrations) rfl
      cases hlast
      rw [hrun]
      exact ⟨rfl, rfl⟩

end ServiceHost
