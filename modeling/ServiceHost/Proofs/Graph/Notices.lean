import ServiceHost.Proofs.Graph.Origins
import ServiceHost.Proofs.Graph.Trust

/-!
# The notices that a graph gives

Before a constructor or a function runs the graph gives notice of it to the surroundings. These may
keep a log of the notices (`WithLog`), of which no constructor knows anything (`Program.logged`).
Whatever is requested is then answered as it is without the log, and the log has the notices of the
calls that are seen, in their order (`build_echoed`, `Request.echoed`). So what is seen of calls is
what `build` and `invokeWithin` make known of themselves, over any history (`Chronicle.echoed`).

Nothing stands beside the graph here. What constructors do with another graph is made known to the
same surroundings, but is no part of what is seen of this one.
-/

namespace ServiceHost

variable {σ ι α β : Type}

/-- Surroundings with a log of the notices that were given to them. -/
abbrev WithLog (σ : Type) : Type :=
  σ × List Notice

/-- Gives notice to the surroundings and enters it into the log. -/
def noteLogged (note : Notice → σ → σ) (notice : Notice) (world : WithLog σ) : WithLog σ :=
  (note notice world.1, world.2 ++ [notice])

/-- The notice of a call. -/
def Callee.notice : Callee → Notice
  | constructorOf key => .constructing key
  | function name => .invoking (invocationKey name)

/-- The notice of a call that is seen. -/
def Deed.notice? : Deed σ ι → Option Notice
  | .called key _ => some (.constructing key)
  | .invoked owner _ => some (.invoking owner)
  | _ => none

/-- The notices of the calls that are seen, in order. -/
def notices (seen : List (Deed σ ι)) : List Notice :=
  seen.filterMap Deed.notice?

@[simp] theorem notices_nil : notices ([] : List (Deed σ ι)) = [] := rfl

@[simp] theorem notices_append (seen more : List (Deed σ ι)) :
    notices (seen ++ more) = notices seen ++ notices more :=
  List.filterMap_append

theorem notices_supplyDeeds (w : Workshop σ ι) (key : Key) (value : ι) :
    notices (w.supplyDeeds key value) = [] := by
  unfold Workshop.supplyDeeds
  split <;> rfl

theorem notices_called (callee : Callee) (entries : Entries ι) :
    notices [(callee.call entries : Deed σ ι)] = [callee.notice] := by
  cases callee <;> rfl

theorem notices_resolved (key : Key) (item : Instance ι) :
    notices [(.resolved key item : Deed σ ι)] = [] := rfl

/-! ## The same with a log -/

/-- The program in surroundings with a log, which it neither reads nor changes. -/
def Program.logged : Program σ ι → Program (WithLog σ) ι
  | .finish result => .finish result
  | .panic text => .panic text
  | .read next => .read fun world => (next world.1).logged
  | .write world next => .read fun before => .write (world, before.2) next.logged
  | .isCached key next => .isCached key fun cached => (next cached).logged
  | .resolve key next => .resolve key fun result => (next result).logged
  | .supply key value next => .supply key value fun result => (next result).logged
  | .provide key inputs construct next =>
    .provide key inputs (fun args => (construct args).logged) fun result => (next result).logged

/-- The node in surroundings with a log. -/
def Node.logged : Node σ ι → Node (WithLog σ) ι
  | .value item => .value item
  | .recipe inputs construct cache => .recipe inputs (fun args => (construct args).logged) cache

/-- The graph in surroundings with a log. -/
def Graph.logged (g : Graph σ ι) : Graph (WithLog σ) ι :=
  g.mapNodes Node.logged

/-- The graph at work in surroundings with a log. -/
def Workshop.logged (w : Workshop σ ι) (log : List Notice) : Workshop (WithLog σ) ι :=
  ⟨w.graph.logged, w.beside.map Graph.logged, (w.world, log)⟩

/-- The request in surroundings with a log, which change on their own but for the log. -/
def Request.logged (log : List Notice) : Request σ ι → Request (WithLog σ) ι
  | .live world => .live (world, log)
  | .supply key value => .supply key value
  | .provide key inputs construct => .provide key inputs fun args => (construct args).logged
  | .resolve depth key => .resolve depth key
  | .invoke depth name inputs function =>
    .invoke depth name inputs fun args => (function args).logged

theorem Node.unseen_logged : Unseen (logged : Node σ ι → Node (WithLog σ) ι) where
  inputs node := by cases node <;> rfl
  isCached node := by cases node <;> rfl

theorem Node.available_logged (node : Node σ ι) : node.logged.available = node.available := by
  cases node <;> rfl

section
variable (g : Graph σ ι) (key : Key)

theorem Graph.node?_logged : g.logged.node? key = (g.node? key).map Node.logged :=
  g.node?_mapNodes Node.logged key

/-- The same nodes are cached. -/
theorem Graph.isCached_logged : g.logged.isCached key = g.isCached key := by
  unfold isCached
  rw [node?_logged]
  cases g.node? key with
  | none => rfl
  | some node => exact Node.unseen_logged.isCached node

/-- The check knows nothing of a log. -/
theorem Graph.verify_logged (node : Node σ ι) :
    g.logged.verify key node.logged = g.verify key node :=
  verify_mapNodes Node.unseen_logged g key node

/-- A change of caches is the same. -/
theorem Graph.logged_mapCache (f : Cache ι → Cache ι) :
    (g.mapCache key f).logged = g.logged.mapCache key f := by
  have hentry (e : Key × Node σ ι) :
      (let e' := if e.1 = key then (e.1, e.2.mapCache f) else e
       (e'.1, e'.2.logged)) =
        if e.1 = key then (e.1, e.2.logged.mapCache f) else (e.1, e.2.logged) := by
    obtain ⟨k, node⟩ := e
    dsimp only
    split
    · cases node <;> rfl
    · rfl
  unfold logged mapNodes mapCache
  rw [List.map_map, List.map_map]
  exact congrArg Graph.mk (List.map_congr_left fun e _ => hentry e)

end

section
variable (w : Workshop σ ι) (key : Key) (log : List Notice)

theorem Workshop.beside_logged (hbeside : w.beside = none) : (w.logged log).beside = none :=
  congrArg (Option.map Graph.logged) hbeside

theorem Workshop.beside_register (node : Node σ ι) : (w.register key node).2.beside = w.beside := by
  unfold register
  split <;> rfl

/-- Registering is the same. -/
theorem Workshop.register_logged (node : Node σ ι) :
    (w.logged log).register key node.logged =
      ((w.register key node).1, (w.register key node).2.logged log) := by
  unfold register Graph.register
  rw [show (w.logged log).graph.contains key = w.graph.contains key from
    w.graph.contains_mapNodes Node.logged key]
  cases w.graph.contains key with
  | true => rfl
  | false =>
    simp [logged, Graph.logged, Graph.mapNodes]

theorem Workshop.lock_logged : ({ w with graph := w.graph.lock key } : Workshop σ ι).logged log =
    { w.logged log with graph := (w.logged log).graph.lock key } :=
  congrArg (Workshop.mk · _ _) (w.graph.logged_mapCache key _)

theorem Workshop.beside_giveUp (why : Option Interruption) :
    (w.giveUp key why).beside = w.beside := by
  unfold giveUp
  split <;> rfl

/-- Giving up is the same. -/
theorem Workshop.giveUp_logged (why : Option Interruption) :
    (w.logged log).giveUp key why = (w.giveUp key why).logged log := by
  cases why with
  | none => exact congrArg (Workshop.mk · _ _) (w.graph.logged_mapCache key _).symm
  | some why =>
    cases why with
    | panic text => exact congrArg (Workshop.mk · _ _) (w.graph.logged_mapCache key _).symm
    | deadlock k => rfl
    | tooDeep => rfl

end

/-! ## Calls -/

/-- The second call has the log, ends like the first one, and has entered the notices of what was
seen of it. -/
structure Echoed (log : List Notice) (seen : List (Deed σ ι)) (r : α × Workshop σ ι)
    (r' : α × Workshop (WithLog σ) ι) : Prop where
  beside : r.2.beside = none
  eq : r' = (r.1, r.2.logged (log ++ notices seen))

namespace Echoed

variable {log : List Notice} {seen more : List (Deed σ ι)} {w : Workshop σ ι}

/-- Nothing was called. -/
theorem still (hbeside : w.beside = none) (outcome : α) (hseen : notices seen = []) :
    Echoed log seen (outcome, w) (outcome, w.logged log) :=
  ⟨hbeside, by rw [hseen, List.append_nil]⟩

/-- What was seen before. -/
theorem after {r : α × Workshop σ ι} {r' : α × Workshop (WithLog σ) ι}
    (h : Echoed (log ++ notices seen) more r r') : Echoed log (seen ++ more) r r' :=
  ⟨h.beside, by rw [h.eq, notices_append, List.append_assoc]⟩

/-- What is seen afterwards gives no notice. -/
theorem quiet {r : α × Workshop σ ι} {r' : α × Workshop (WithLog σ) ι} (h : Echoed log seen r r')
    (hmore : notices more = []) : Echoed log (seen ++ more) r r' :=
  ⟨h.beside, by rw [h.eq, notices_append, hmore, List.append_nil]⟩

/-- Something is made of how both end. -/
theorem map {r : α × Workshop σ ι} {r' : α × Workshop (WithLog σ) ι} (h : Echoed log seen r r')
    (f : α → β) : Echoed log seen (f r.1, r.2) (f r'.1, r'.2) :=
  ⟨h.beside, by rw [h.eq]⟩

/-- A registration gives no notice. -/
theorem registered (hbeside : w.beside = none) (key : Key) (node : Node σ ι) :
    Echoed log ([] : List (Deed σ ι)) (w.register key node)
      ((w.logged log).register key node.logged) := by
  rw [w.register_logged]
  exact .still ((w.beside_register key node).trans hbeside) _ rfl

/-- What becomes of a construction when its constructor has ended. -/
theorem constructed {r : Outcome Failure ι × Workshop σ ι}
    {r' : Outcome Failure ι × Workshop (WithLog σ) ι} (h : Echoed log seen r r') (key : Key) :
    Echoed log (seen ++ constructedDeeds key r) (ServiceHost.constructed key r)
      (ServiceHost.constructed key r') := by
  obtain ⟨hbeside, rfl⟩ := h
  obtain ⟨outcome, w⟩ := r
  cases outcome with
  | ok value =>
    refine .quiet ⟨hbeside, ?_⟩ rfl
    exact congrArg (Prod.mk _ <| Workshop.mk · _ _) (w.graph.logged_mapCache key _).symm
  | error failure =>
    refine .quiet ⟨(w.beside_giveUp key none).trans hbeside, ?_⟩ rfl
    exact congrArg (Prod.mk _) (w.giveUp_logged key _ none)
  | interrupted why =>
    refine .quiet ⟨(w.beside_giveUp key (some why)).trans hbeside, ?_⟩ rfl
    exact congrArg (Prod.mk _) (w.giveUp_logged key _ (some why))

end Echoed

section
variable {note : Notice → σ → σ}

/-- A program runs the same with a log, if each key that it resolves is resolved the same. -/
theorem Program.echoed {resolve : Resolver σ ι} {resolve' : Resolver (WithLog σ) ι}
    {seen : Witness σ ι}
    (h : ∀ key (w : Workshop σ ι) log, w.beside = none →
      Echoed log (seen key w) (resolve key w) (resolve' key (w.logged log)))
    (p : Program σ ι) (w : Workshop σ ι) (log : List Notice) (hbeside : w.beside = none) :
    Echoed log (p.trace Deed.of resolve seen w) (p.run resolve w)
      (p.logged.run resolve' (w.logged log)) := by
  have hbeside' : (w.logged log).beside = none := congrArg (Option.map Graph.logged) hbeside
  induction p generalizing w log with
  | finish result => cases result <;> exact .still hbeside _ rfl
  | panic text => exact .still hbeside _ rfl
  | read next ih => exact ih w.world w log hbeside hbeside'
  | write world next ih => exact ih { w with world } log hbeside hbeside'
  | isCached key next ih =>
    unfold trace logged run
    rw [show (w.logged log).consulted.isCached key = w.consulted.isCached key by
      unfold Workshop.consulted
      rw [hbeside, hbeside']
      exact w.graph.isCached_logged key]
    exact ih _ w log hbeside hbeside'
  | resolve key next ih =>
    have hfirst := h key w log hbeside
    unfold trace logged run
    simp only [Workshop.consult_of_beside hbeside, Workshop.consult_of_beside hbeside',
      Workshop.own_of_beside hbeside, hfirst.eq]
    have hbeside₁ := hfirst.beside
    generalize resolve key w = r at hbeside₁
    obtain ⟨outcome, w₁⟩ := r
    cases outcome with
    | interrupted why => exact ⟨hbeside₁, rfl⟩
    | error e => exact .after (ih (.error e) w₁ _ hbeside₁ (w₁.beside_logged _ hbeside₁))
    | ok item =>
      refine .after ?_
      rw [notices_append, Deed.of_resolved, notices_resolved, List.append_nil]
      exact ih (.ok item) w₁ _ hbeside₁ (w₁.beside_logged _ hbeside₁)
  | supply key value next ih =>
    have hbeside₁ := (w.beside_register key (.ofValue key value)).trans hbeside
    have hanswer := w.register_logged key log (.ofValue key value)
    unfold trace logged run
    simp only [Workshop.consult_of_beside hbeside, Workshop.consult_of_beside hbeside',
      Workshop.own_of_beside hbeside, Deed.of_supply]
    rw [show (Node.ofValue key value : Node (WithLog σ) ι) = (Node.ofValue key value).logged
      from rfl, hanswer]
    refine .after ?_
    rw [notices_supplyDeeds, List.append_nil]
    exact ih _ _ log hbeside₁ (Workshop.beside_logged _ log hbeside₁)
  | provide key inputs construct next _ ih =>
    have hbeside₁ := (w.beside_register key (.ofRecipe inputs construct)).trans hbeside
    have hanswer := w.register_logged key log (.ofRecipe inputs construct)
    unfold trace logged run
    simp only [Workshop.consult_of_beside hbeside, Workshop.consult_of_beside hbeside',
      Workshop.own_of_beside hbeside, Deed.of_provide, List.nil_append]
    rw [show Node.ofRecipe inputs (fun args => (construct args).logged) =
      (Node.ofRecipe inputs construct).logged from rfl, hanswer]
    exact ih _ _ log hbeside₁ (Workshop.beside_logged _ log hbeside₁)

section
variable {find : Key → Node σ ι → Workshop σ ι → Outcome GraphError (Instance ι) × Workshop σ ι}
  {find' : Key → Node (WithLog σ) ι → Workshop (WithLog σ) ι →
    Outcome GraphError (Instance ι) × Workshop (WithLog σ) ι}
  {seen : Key → Node σ ι → Workshop σ ι → List (Deed σ ι)}

/-- Inputs are found the same with a log, if each of them is. -/
theorem gather_echoed (owner : Key)
    (h : ∀ key node (w : Workshop σ ι) log, w.beside = none →
      Echoed log (seen key node w) (find key node w) (find' key node.logged (w.logged log)))
    (inputs : Inputs) (w : Workshop σ ι) (log : List Notice) (hbeside : w.beside = none) :
    Echoed log (gatherTrace find seen inputs w) (gather owner find inputs w)
      (gather owner find' inputs (w.logged log)) := by
  induction inputs generalizing w log with
  | nil => exact .still hbeside _ rfl
  | cons p rest ih =>
    have hlogged : (w.logged log).graph.node? p.key = (w.graph.node? p.key).map Node.logged :=
      w.graph.node?_logged p.key
    unfold gatherTrace
    cases hnode : w.graph.node? p.key with
    | none =>
      rw [hnode] at hlogged
      cases hoptional : p.optional with
      | false =>
        rw [gather_missing hnode hoptional, gather_missing hlogged hoptional]
        exact .still hbeside _ rfl
      | true =>
        rw [gather_absent hnode hoptional, gather_absent hlogged hoptional]
        exact (ih w log hbeside).map _
    | some node =>
      rw [hnode] at hlogged
      have hfirst := h p.key node w log hbeside
      have hfound' := hfirst.eq
      have hbeside₁ := hfirst.beside
      dsimp only
      obtain ⟨outcome, w₁, hfound⟩ : ∃ outcome w₁, find p.key node w = (outcome, w₁) :=
        ⟨_, _, rfl⟩
      rw [hfound] at hfirst hfound' hbeside₁ ⊢
      cases outcome with
      | error e =>
        rw [gather_failed hnode hfound, gather_failed hlogged hfound']
        exact ⟨hbeside₁, rfl⟩
      | interrupted why =>
        rw [gather_interrupted hnode hfound, gather_interrupted hlogged hfound']
        exact ⟨hbeside₁, rfl⟩
      | ok item =>
        rw [gather_present hnode hfound, gather_present hlogged hfound']
        exact .after ((ih w₁ _ hbeside₁).map _)

/-- A key is resolved the same with a log, if every component is built the same. -/
theorem resolveWith_echoed
    (h : ∀ key node (w : Workshop σ ι) log, w.beside = none →
      Echoed log (seen key node w) (find key node w) (find' key node.logged (w.logged log)))
    (key : Key) (w : Workshop σ ι) (log : List Notice) (hbeside : w.beside = none) :
    Echoed log (resolveTrace Deed.of seen key w) (resolveWith find key w)
      (resolveWith find' key (w.logged log)) := by
  unfold resolveTrace resolveWith
  rw [show (w.logged log).graph.node? key = (w.graph.node? key).map Node.logged from
    w.graph.node?_logged key]
  cases w.graph.node? key with
  | none => exact .still hbeside _ rfl
  | some node =>
    dsimp only [Option.map_some]
    rw [node.available_logged]
    cases node.available with
    | some item => exact .still hbeside _ rfl
    | none =>
      dsimp only
      rw [show (w.logged log).graph.verify key node.logged = w.graph.verify key node from
        w.graph.verify_logged key node]
      have hchecked : notices (Deed.of (.checked key w.graph)) = [] := rfl
      refine .after ?_
      rw [hchecked, List.append_nil]
      cases w.graph.verify key node with
      | error e => exact .still hbeside _ rfl
      | ok => exact h key node w log hbeside

end

/-- A component is built the same with a log. -/
theorem build_echoed (note : Notice → σ → σ) (depth : Nat) (path : List Key) (key : Key)
    (node : Node σ ι) (w : Workshop σ ι) (log : List Notice) (hbeside : w.beside = none) :
    Echoed log (buildTrace Deed.of note depth path key node w) (build note depth path key node w)
      (build (noteLogged note) depth path key node.logged (w.logged log)) := by
  induction depth generalizing path key node w log with
  | zero => cases node <;> exact .still hbeside _ rfl
  | succ depth ih =>
    cases node with
    | value item => exact .still hbeside _ rfl
    | recipe inputs construct cache =>
      unfold buildTrace Node.logged build
      by_cases hpath : key ∈ path
      · rw [if_pos hpath, if_pos hpath, if_pos (.inl hpath)]
        exact .still hbeside _ rfl
      cases hlocked : cache.locked with
      | true =>
        rw [if_neg hpath, if_neg hpath, if_pos rfl, if_pos rfl, if_pos (.inr (.inl rfl))]
        exact .still hbeside _ rfl
      | false =>
      cases hmade : cache.made with
      | some item =>
        rw [if_neg hpath, if_neg hpath, if_neg Bool.false_ne_true, if_neg Bool.false_ne_true,
          if_pos (.inr (.inr rfl))]
        exact .still hbeside _ rfl
      | none =>
        rw [if_neg hpath, if_neg hpath, if_neg Bool.false_ne_true, if_neg Bool.false_ne_true,
          if_neg (by simp [hpath])]
        have hgather := gather_echoed key (ih (path ++ [key])) inputs
          { w with graph := w.graph.lock key } log hbeside
        rw [Workshop.lock_logged] at hgather
        dsimp only
        rw [hgather.eq]
        have hbeside₁ := hgather.beside
        generalize gather key (build note depth (path ++ [key])) inputs
          { w with graph := w.graph.lock key } = r at hbeside₁
        obtain ⟨outcome, w₁⟩ := r
        cases outcome with
        | error e =>
          dsimp only
          rw [List.append_nil, Workshop.giveUp_logged]
          exact ⟨(w₁.beside_giveUp key none).trans hbeside₁, rfl⟩
        | interrupted why =>
          dsimp only
          rw [List.append_nil, Workshop.giveUp_logged]
          exact ⟨(w₁.beside_giveUp key (some why)).trans hbeside₁, rfl⟩
        | ok entries =>
          dsimp only
          refine .after ?_
          generalize log ++ notices (gatherTrace _ _ inputs _) = log₁
          refine .after ?_
          rw [Deed.of_called, notices_called, Callee.notice]
          have hrun := Program.echoed (resolveWith_echoed (ih [])) (construct ⟨key, entries⟩)
            { w₁ with world := note (.constructing key) w₁.world } (log₁ ++ [.constructing key])
            hbeside₁
          exact hrun.constructed key

/-- A key is resolved the same with a log. -/
theorem resolveWithin_echoed (note : Notice → σ → σ) (depth : Nat) (key : Key) (w : Workshop σ ι)
    (log : List Notice) (hbeside : w.beside = none) :
    Echoed log (resolveWithinDeeds note depth key w) (resolveWithin note depth key w)
      (resolveWithin (noteLogged note) depth key (w.logged log)) :=
  resolveWith_echoed (build_echoed note depth []) key w log hbeside

/-- An invocation finds an input the same with a log. -/
theorem fetch_echoed (note : Notice → σ → σ) (depth : Nat) (owner key : Key) (node : Node σ ι)
    (w : Workshop σ ι) (log : List Notice) (hbeside : w.beside = none) :
    Echoed log (fetchTrace Deed.of note depth owner key node w)
      (fetch note depth owner key node w)
      (fetch (noteLogged note) depth owner key node.logged (w.logged log)) := by
  unfold fetchTrace fetch
  rw [show (w.logged log).graph.verify key node.logged = w.graph.verify key node from
    w.graph.verify_logged key node]
  have hchecked : notices (Deed.of (.checked key w.graph)) = [] := rfl
  refine .after ?_
  rw [hchecked, List.append_nil]
  cases w.graph.verify key node with
  | error e => exact .still hbeside _ rfl
  | ok => exact build_echoed note depth [owner] key node w log hbeside

/-- A function is invoked the same with a log. -/
theorem invokeWithin_echoed (note : Notice → σ → σ) (depth : Nat) (name : String)
    (inputs : Inputs) (function : Args ι → Program σ ι) (w : Workshop σ ι) (log : List Notice)
    (hbeside : w.beside = none) :
    Echoed log (invokeDeeds note depth name inputs function w)
      (invokeWithin note depth name inputs function w)
      (invokeWithin (noteLogged note) depth name inputs (fun args => (function args).logged)
        (w.logged log)) := by
  have hgather := gather_echoed (invocationKey name)
    (fetch_echoed note depth (invocationKey name)) inputs w log hbeside
  rw [invokeWithin_eq, invokeWithin_eq]
  unfold invokeDeeds invokeTrace
  dsimp only
  rw [hgather.eq]
  have hbeside₁ := hgather.beside
  generalize gather (invocationKey name) (fetch note depth (invocationKey name)) inputs w = r
    at hbeside₁
  obtain ⟨outcome, w₁⟩ := r
  cases outcome with
  | error e =>
    dsimp only
    rw [List.append_nil]
    exact ⟨hbeside₁, rfl⟩
  | interrupted why =>
    dsimp only
    rw [List.append_nil]
    exact ⟨hbeside₁, rfl⟩
  | ok entries =>
    dsimp only
    refine .after ?_
    generalize log ++ notices (gatherTrace _ _ inputs _) = log₁
    refine .after ?_
    rw [Deed.of_called, notices_called, Callee.notice]
    let ready := { w₁ with world := note (.invoking (invocationKey name)) w₁.world }
    obtain ⟨hbeside₂, hrun⟩ := Program.echoed (resolveWithin_echoed note depth)
      (function ⟨invocationKey name, entries⟩) ready (log₁ ++ [.invoking (invocationKey name)])
      hbeside₁
    have hready : { w₁.logged log₁ with
          world := noteLogged note (.invoking (invocationKey name)) (w₁.logged log₁).world } =
        ready.logged (log₁ ++ [.invoking (invocationKey name)]) := rfl
    rw [hready, hrun]
    generalize (function ⟨invocationKey name, entries⟩).run (resolveWithin note depth) ready = r
      at hbeside₂
    obtain ⟨outcome, w₂⟩ := r
    cases outcome <;> exact ⟨hbeside₂, rfl⟩

/-! ## Requests -/

/-- Whatever is requested is answered the same with a log, which has the notices of what is seen
afterwards. -/
theorem Request.echoed (note : Notice → σ → σ) (request : Request σ ι) (w : Workshop σ ι)
    (log : List Notice) (hbeside : w.beside = none) :
    Echoed log (request.deeds note w) (request.reply note w)
      ((request.logged log).reply (noteLogged note) (w.logged log)) := by
  cases request with
  | live world =>
    have hlive : ({ w with world } : Workshop σ ι).beside = none := hbeside
    exact .still hlive Reply.none notices_nil
  | supply key value =>
    refine ((Echoed.registered hbeside key (.ofValue key value)).map Reply.registered).quiet ?_
    exact notices_supplyDeeds w key value
  | provide key inputs construct =>
    exact (Echoed.registered hbeside key (.ofRecipe inputs construct)).map Reply.registered
  | invoke depth name inputs function =>
    exact (invokeWithin_echoed note depth name inputs function w log hbeside).map Reply.invoked
  | resolve depth key =>
    have hresolve := resolveWithin_echoed note depth key w log hbeside
    refine (hresolve.map Reply.resolved).quiet ?_
    cases (resolveWithin note depth key w).1 <;> rfl

end

/-! ## Chronicles -/

/-- The chronicle of requests to a new graph in surroundings with a log. -/
def Chronicle.logged (note : Notice → σ → σ) (world : σ) (requests : List (Request σ ι)) :
    Chronicle (WithLog σ) ι :=
  requests.foldl (fun c request => c.next (noteLogged note) (request.logged c.workshop.world.2))
    (new (world, []))

/-- Both chronicles have the same answers and graphs, and the second one's log has the notices of
what was seen in the first. -/
structure Chronicle.Echo (c : Chronicle σ ι) (c' : Chronicle (WithLog σ) ι) : Prop where
  beside : c.workshop.beside = none
  replies : c'.replies = c.replies
  workshop : c'.workshop = c.workshop.logged (notices c.deeds)

/-- One more request. -/
theorem Chronicle.Echo.next {c : Chronicle σ ι} {c' : Chronicle (WithLog σ) ι} (h : c.Echo c')
    (note : Notice → σ → σ) (request : Request σ ι) :
    (c.next note request).Echo
      (c'.next (noteLogged note) (request.logged c'.workshop.world.2)) := by
  obtain ⟨deeds, replies, w⟩ := c
  obtain ⟨deeds', replies', w'⟩ := c'
  obtain ⟨hbeside, hreplies, hworkshop⟩ := h
  obtain rfl : replies' = replies := hreplies
  obtain rfl : w' = w.logged (notices deeds) := hworkshop
  have hstep := request.echoed note w (notices deeds) hbeside
  have hlogged : (request.logged (notices deeds)).reply (noteLogged note)
      (w.logged (notices deeds)) = _ := hstep.eq
  refine ⟨hstep.beside, ?_, ?_⟩
  · exact congrArg (fun r => replies' ++ [r.1]) hlogged
  · rw [← notices_append] at hlogged
    exact congrArg Prod.snd hlogged

/-- The notices that a graph gives are those of the calls that are seen, one for each of them and in
their order, whatever is requested of it, and nothing else depends on them. -/
theorem Chronicle.echoed (note : Notice → σ → σ) (world : σ) (requests : List (Request σ ι)) :
    (of note world requests).Echo (logged note world requests) := by
  have hnew : (new world : Chronicle σ ι).Echo (new (world, [])) := ⟨rfl, rfl, rfl⟩
  unfold of logged
  generalize (new world : Chronicle σ ι) = c, (new (world, []) : Chronicle (WithLog σ) ι) = c'
    at hnew
  induction requests generalizing c c' with
  | nil => exact hnew
  | cons request rest ih => exact ih _ _ (hnew.next note request)

end ServiceHost
