import ServiceHost.App.Builder
import ServiceHost.Proofs.Graph.Journal
import ServiceHost.Proofs.Lifecycle.Sequence

/-!
# Applications start in the order of their dependencies

The hooks of a lifecycle are a journal of the components that append them (`hookJournal`). In an
application that is put together from values, from components that append one hook each, and from
functions to invoke that append none (`Builder.Assembled`), nothing is made before it is built
(`Builder.Assembled.logged`). So the hooks are those of the components that the invocations need,
each after the hooks of those that it declares as inputs (`Builder.Assembled.build_logged`), and a
start pass runs their callbacks in this order, a stop pass in the reverse one
(`hooks_follow_dependencies`).
-/

namespace ServiceHost

open Relation

variable {σ ι κ : Type}

/-- The hooks of the lifecycle that is registered as `lifecycle`, where `lives` reads lifecycles
from the surroundings. A component has the hooks that are its own according to `own`, with both
callbacks. -/
def hookJournal (lives : σ → ι → Lifecycle κ) (lifecycle : ι)
    (own : Key → RegisteredHook κ → Prop) : Journal σ ι (RegisteredHook κ) where
  lines world := (lives world lifecycle).hooks
  key := Key.of lifecycleType
  item := ⟨lifecycleType, lifecycle⟩
  line key hook := own key hook ∧ hook.starts = true ∧ hook.stops = true

/-- Registrations of values and of components, in which the journal is left alone. -/
inductive Journal.Stocked {β : Type} (j : Journal σ ι β) : Workshop σ ι → Workshop σ ι → Prop
  | refl (w : Workshop σ ι) : Stocked j w w
  /-- The surroundings change on their own. -/
  | live {w w' : Workshop σ ι} (h : Stocked j w w') {world : σ}
      (hlines : j.lines world = j.lines w'.world) : Stocked j w { w' with world }
  | supply {w w' : Workshop σ ι} (h : Stocked j w w') (key : Key) (value : ι) :
      Stocked j w (w'.register key (.ofValue key value)).2
  | provide {w w' : Workshop σ ι} (h : Stocked j w w') {key : Key} {inputs : Inputs}
      {construct : Args ι → Program σ ι} (hwrites : j.Writes key inputs construct) :
      Stocked j w (w'.register key (.ofRecipe inputs construct)).2

/-- The function leaves the graph and the journal alone when it returns. -/
def Journal.Spares {β : Type} (j : Journal σ ι β) (function : Args ι → Program σ ι) : Prop :=
  ∀ args resolve (w : Workshop σ ι) value w', (function args).run resolve w = (.ok value, w') →
    w'.graph = w.graph ∧ j.lines w'.world = j.lines w.world

/-- An application with this lifecycle, put together from components that write to the journal and
functions that do not. Whatever is registered at once, like a module, is one record. -/
inductive Builder.Assembled {β : Type} (j : Journal σ ι β) (lifecycle : ι) : Builder σ ι → Prop
  | new {world : σ} (shutdowner : ι) (hlines : j.lines world = []) :
      Assembled j lifecycle (.new world lifecycle shutdowner)
  | record {b : Builder σ ι} (h : Assembled j lifecycle b)
      {registrations : Workshop σ ι → Except GraphError Unit × Workshop σ ι}
      (hstocked : ∀ w, j.Stocked w (registrations w).2) :
      Assembled j lifecycle (b.record registrations)
  | withTimeouts {b : Builder σ ι} (h : Assembled j lifecycle b) (timeouts : Timeouts) :
      Assembled j lifecycle (b.withTimeouts timeouts)
  | consulting {b : Builder σ ι} (h : Assembled j lifecycle b) (graph : Graph σ ι) :
      Assembled j lifecycle (b.consulting graph)
  | invoke {b : Builder σ ι} (h : Assembled j lifecycle b) {i : Invocation σ ι}
      (hspares : j.Spares i.function) : Assembled j lifecycle (b.invoke i)

/-- A component is registered on its own. -/
theorem Builder.Assembled.provide {β : Type} {j : Journal σ ι β} {lifecycle : ι} {b : Builder σ ι}
    (h : b.Assembled j lifecycle) {key : Key} {inputs : Inputs}
    {construct : Args ι → Program σ ι} (hwrites : j.Writes key inputs construct) :
    (b.provide key inputs construct).Assembled j lifecycle :=
  h.record fun w => .provide (.refl w) hwrites

/-! ## What is made -/

section
variable {β : Type} {j : Journal σ ι β} {w w' : Workshop σ ι} {lifecycle : ι}

/-- At first there is nothing but the component that gives access to the journal. -/
theorem Workshop.Logged.first {world : σ} (hlines : j.lines world = []) :
    Logged j ⟨⟨[(j.key, .value j.item)]⟩, none, world⟩ [] := by
  let g : Graph σ ι := ⟨[(j.key, .value j.item)]⟩
  have hunprovided (key : Key) : ¬ g.Provides key := by
    rintro ⟨inputs, construct, hrecipe⟩
    obtain ⟨cache, hnode⟩ := Graph.node?_of_recipe hrecipe
    simp only [g, Graph.node?, List.lookup_cons, List.lookup_nil] at hnode
    split at hnode <;> cases hnode
  have hitem : g.node? j.key = some (.value j.item) := List.lookup_cons_self
  refine ⟨.nil, fun key => ⟨(absurd ·.1 (hunprovided key)), (absurd · List.not_mem_nil)⟩, ?_,
    Graph.registered?_eq_value.2 hitem, fun key inputs construct hrecipe => ?_⟩
  · show List.Forall₂ _ [] (j.lines world)
    rw [hlines]
    exact .nil
  · exact absurd ⟨inputs, construct, hrecipe⟩ (hunprovided key)

/-- What is registered is not made yet. -/
theorem Workshop.Logged.register (h : w.Logged j []) (key : Key) {node : Node σ ι}
    (hnode : ∀ inputs construct cache, node = .recipe inputs construct cache →
      cache = .fresh ∧ j.Writes key inputs construct) :
    (w.register key node).2.Logged j [] := by
  unfold Workshop.register
  cases hregister : w.graph.register key node with
  | error => exact h
  | ok g =>
    have hafter := Graph.register_ok hregister
    have hunmade (k : Key) : ¬ g.Made k := by
      rintro ⟨⟨inputs, construct, hrecipe⟩, hmade⟩
      obtain ⟨cache, hk⟩ := Graph.node?_of_recipe hrecipe
      rcases hafter k with ⟨hnew, -⟩ | hsame
      · obtain ⟨rfl, -⟩ := hnode _ _ _ (Option.some.inj (hnew.symm.trans hk))
        exact hmade (Graph.item?_of_node? hk)
      · refine List.not_mem_nil ((h.made k).1 ⟨⟨inputs, construct, ?_⟩, ?_⟩)
        · exact Graph.registered?_of_recipe (hsame ▸ hk)
        · rwa [Graph.item?, ← hsame]
    refine ⟨.nil, fun k => ⟨(absurd · (hunmade k)), (absurd · List.not_mem_nil)⟩, h.lines, ?_, ?_⟩
    · -- the component that gives access to the journal is there already
      have hitem := Graph.registered?_eq_value.1 h.item
      rcases hafter j.key with ⟨-, rfl⟩ | hsame
      · cases (Graph.item?_of_node? hitem).symm.trans (Graph.item?_register hregister).1
      · exact Graph.registered?_eq_value.2 (hsame.trans hitem)
    · intro k inputs construct hrecipe
      obtain ⟨cache, hk⟩ := Graph.node?_of_recipe hrecipe
      rcases hafter k with ⟨hnew, rfl⟩ | hsame
      · exact (hnode _ _ _ (Option.some.inj (hnew.symm.trans hk))).2
      · exact h.writes k inputs construct (Graph.registered?_of_recipe (hsame ▸ hk))

/-- Registrations call no constructor, and so the journal is still empty. -/
theorem Journal.Stocked.logged (h : j.Stocked w w') (hlogged : w.Logged j []) :
    w'.Logged j [] := by
  induction h with
  | refl => exact hlogged
  | live _ hlines ih => exact ih.still rfl hlines
  | supply _ key value ih => exact ih.register key nofun
  | provide _ hwrites ih =>
    refine ih.register _ ?_
    rintro _ _ _ ⟨⟩
    exact ⟨rfl, hwrites⟩

/-- A record of registrations comes to nothing after a failure, and adds them otherwise. -/
theorem Builder.record_cases (b : Builder σ ι)
    (registrations : Workshop σ ι → Except GraphError Unit × Workshop σ ι) :
    (b.record registrations).invocations = b.invocations ∧
      ((b.record registrations).workshop = b.workshop ∨
        (b.record registrations).workshop = (registrations b.workshop).2) := by
  unfold record
  split
  · exact ⟨rfl, .inl rfl⟩
  · split
    · next hregistered => exact ⟨rfl, .inr (by rw [hregistered])⟩
    · next hregistered => exact ⟨rfl, .inr (by rw [hregistered])⟩

/-- Nothing is made before an application is built. -/
theorem Builder.Assembled.logged {b : Builder σ ι} (h : b.Assembled j lifecycle)
    (hkey : j.key = Key.of lifecycleType) (hitem : j.item = ⟨lifecycleType, lifecycle⟩) :
    b.workshop.Logged j [] ∧ ∀ i ∈ b.invocations, j.Spares i.function := by
  have hrecord {b : Builder σ ι} {registrations}
      (hstocked : ∀ w, j.Stocked w (registrations w).2)
      (h : b.workshop.Logged j [] ∧ ∀ i ∈ b.invocations, j.Spares i.function) :
      (b.record registrations).workshop.Logged j [] ∧
        ∀ i ∈ (b.record registrations).invocations, j.Spares i.function := by
    obtain ⟨hsame, hworkshop⟩ := b.record_cases registrations
    rw [hsame]
    refine ⟨?_, h.2⟩
    rcases hworkshop with hworkshop | hworkshop
    · exact hworkshop ▸ h.1
    · exact hworkshop ▸ (hstocked b.workshop).logged h.1
  induction h with
  | @new world shutdowner hlines =>
    have hfirst := Workshop.Logged.first hlines
    rw [hkey, hitem] at hfirst
    exact hrecord (b := ⟨_, .standard, [], none⟩) (fun w => .supply (.refl w) _ shutdowner)
      ⟨hfirst, nofun⟩
  | record _ hstocked ih => exact hrecord hstocked ih
  | withTimeouts _ _ ih => exact ih
  | consulting _ _ ih => exact ⟨ih.1.still rfl rfl, ih.2⟩
  | invoke _ hspares ih =>
    refine ⟨ih.1, fun i hi => ?_⟩
    rcases List.mem_append.1 hi with hi | hi
    · exact ih.2 i hi
    · exact List.mem_singleton.1 hi ▸ hspares

/-- Invocations make the components that they need, one invocation after another. -/
theorem Builder.invokeAll_logged {note : Notice → σ → σ}
    (hnote : ∀ notice world, j.lines (note notice world) = j.lines world) (depth : Nat)
    {invocations : List (Invocation σ ι)} (hspares : ∀ i ∈ invocations, j.Spares i.function)
    {order : List Key} (h : w.Logged j order)
    (hok : invokeAll note depth invocations w = (.ok (), w')) :
    ∃ order', w'.Logged j order' := by
  induction invocations generalizing w order with
  | nil =>
    cases hok
    exact ⟨order, h⟩
  | cons i rest ih =>
    unfold invokeAll at hok
    generalize hfirst : invokeWithin note depth i.name i.inputs i.function w = r at hok
    obtain ⟨outcome, w₁⟩ := r
    cases outcome with
    | error => cases hok
    | interrupted => cases hok
    | ok value =>
      obtain ⟨more, hlogged⟩ := invokeWithin_logged hnote depth i.name i.inputs i.function
        (hspares i List.mem_cons_self) h hfirst
      exact ih (fun i hi => hspares i (List.mem_cons_of_mem _ hi)) hlogged hok

/-- What was made when an application is built has its lines in the journal, in an order of
construction. -/
theorem Builder.Assembled.build_logged {b : Builder σ ι} (h : b.Assembled j lifecycle)
    (hkey : j.key = Key.of lifecycleType) (hitem : j.item = ⟨lifecycleType, lifecycle⟩)
    {note : Notice → σ → σ} (hnote : ∀ notice world, j.lines (note notice world) = j.lines world)
    (hok : (b.build note).1 = .ok ()) : ∃ order, (b.build note).2.Logged j order := by
  obtain ⟨hlogged, hspares⟩ := h.logged hkey hitem
  unfold build buildWithin at hok ⊢
  cases hfailed : b.failed with
  | some e =>
    rw [hfailed] at hok
    cases hok
  | none =>
    rw [hfailed] at hok
    exact invokeAll_logged hnote _ hspares hlogged (Prod.ext hok rfl)

end

/-! ## The order of the hooks -/

/-- An application is put together from components that append one hook each to its lifecycle, with
both callbacks, and from functions to invoke that append none, with any number of registrations and
invocations in any order. Once it is built, the hooks are those of the components that were made,
one of each. If one component declares another as an input, directly or through others, then in
every course that goes on from there, a start pass that succeeds has begun the start callback of the
other first, and once the lifecycle is stopped after it, the stop callback of the other was begun
last. -/
theorem hooks_follow_dependencies (lives : σ → ι → Lifecycle κ) (lifecycle : ι)
    (own : Key → RegisteredHook κ → Prop) (note : Notice → σ → σ)
    (hnote : ∀ notice world, (lives (note notice world) lifecycle).hooks =
      (lives world lifecycle).hooks)
    (b : Builder σ ι) (hb : b.Assembled (hookJournal lives lifecycle own) lifecycle)
    (hok : (b.build note).1 = .ok ()) :
    let g := (b.build note).2.graph
    let hooks := (lives (b.build note).2.world lifecycle).hooks
    ∃ parts : List (Key × RegisteredHook κ),
      hooks = parts.map Prod.snd ∧ (parts.map Prod.fst).Nodup ∧
      (∀ key, g.Made key ↔ key ∈ parts.map Prod.fst) ∧
      (∀ part ∈ parts, own part.1 part.2 ∧ part.2.starts ∧ part.2.stops) ∧
      ∀ part ∈ parts, ∀ used ∈ parts, TransGen g.Declares part.1 used.1 →
        ∀ (moves more : List (Move κ)) (id : PassId) (opened : List (RegisteredHook κ))
          (since : List (Event κ)),
          (Course.of moves).coordinator.lifecycle.hooks = hooks →
          .opened id opened ∉ (Course.of moves).seen →
          Course.Latest (Course.of (moves ++ more)).seen id opened since →
          .finished id (.ok ()) ∈ since →
            [used.2, part.2].Sublist (begunOf .start since) ∧
              ((Course.of (moves ++ more)).coordinator.lifecycle.state = .stopped →
                [part.2, used.2].Sublist (begunOf .stop since)) := by
  obtain ⟨order, hlogged⟩ := hb.build_logged rfl rfl hnote hok
  obtain ⟨hlength, hlines⟩ := List.forall₂_iff_zip.1 hlogged.lines
  intro g hooks
  have hfst : (order.zip hooks).map Prod.fst = order := List.map_fst_zip (Nat.le_of_eq hlength)
  have hsnd : (order.zip hooks).map Prod.snd = hooks :=
    List.map_snd_zip (Nat.le_of_eq hlength.symm)
  have hown (part : Key × RegisteredHook κ) (hpart : part ∈ order.zip hooks) :
      own part.1 part.2 ∧ part.2.starts = true ∧ part.2.stops = true :=
    hlines hpart
  have hmade (key : Key) : g.Made key ↔ key ∈ (order.zip hooks).map Prod.fst := by
    rw [hfst]
    exact hlogged.made key
  refine ⟨order.zip hooks, hsnd.symm, hfst.symm ▸ hlogged.laid.nodup, hmade, hown, ?_⟩
  intro part hpart used hused hdeclares moves more id opened since hmoves hlater hlatest hfinished
  have hlaid : g.Laid ((order.zip hooks).map Prod.fst) := hfst.symm ▸ hlogged.laid
  have hprovides : g.Provides used.1 := ((hmade used.1).2 (List.mem_map_of_mem hused)).1
  have hordered : [used.2, part.2].Sublist hooks := by
    have := (hlaid.sublist_of_declares hpart hused hprovides hdeclares).map Prod.snd
    rwa [hsnd] at this
  have hboth {P : RegisteredHook κ → Prop} (h : ∀ part ∈ order.zip hooks, P part.2) :
      ∀ hook ∈ [used.2, part.2], P hook := by
    rintro hook hmem
    rcases List.mem_pair.1 hmem with rfl | rfl
    · exact h used hused
    · exact h part hpart
  exact Course.in_order moves more (hmoves ▸ hordered) (hboth fun part h => (hown part h).2.1)
    (hboth fun part h => (hown part h).2.2) hlater hlatest hfinished

/-- A component that appends a hook of its name to the lifecycle among its inputs. The surroundings
are the hooks. -/
def hooked (type : ComponentType) (args : Args Unit) : Program (List (RegisteredHook Nat)) Unit :=
  match args.get "lifecycle" lifecycleType with
  | .error _ => .finish (.error (.plain "no lifecycle"))
  | .ok _ => .read fun hooks =>
    .write (hooks ++ [⟨some 0, some 1, type.name⟩]) (.finish (.ok ()))

/-- A server that may use a pool, which needs a database. It is asked for before any of the three is
registered. -/
def pooledServer : Builder (List (RegisteredHook Nat)) Unit :=
  let lifecycle : Param := .of "lifecycle" lifecycleType
  (((Builder.new [] () ()).invoke ⟨"serve", [.of "server" ⟨"Server"⟩], fun _ => .finish (.ok ())⟩
    |>.provide (.of ⟨"Server"⟩) [(Param.of "pool" ⟨"Pool"⟩).asOptional, lifecycle]
      (hooked ⟨"Server"⟩))
    |>.provide (.of ⟨"Pool"⟩) [lifecycle, .of "database" ⟨"Database"⟩] (hooked ⟨"Pool"⟩))
    |>.provide (.of ⟨"Database"⟩) [lifecycle] (hooked ⟨"Database"⟩)

/-- The lifecycle that has these hooks and was not started. -/
def unstarted (hooks : List (RegisteredHook Nat)) (_ : Unit) : Lifecycle Nat :=
  ⟨hooks, .notStarted, 0, none, [], []⟩

/-- A hook belongs to the component that it is named after. -/
def namedAfter (key : Key) (hook : RegisteredHook Nat) : Prop :=
  hook.caller = key.type.name

/-- A component with a hook writes its hook to the journal. -/
theorem hooked_writes (type : ComponentType) (inputs : Inputs) :
    (hookJournal unstarted () namedAfter).Writes (.of type) inputs (hooked type) := by
  intro entries resolve w value w' _ _ hrun
  unfold hooked at hrun
  split at hrun
  · cases hrun
  · cases hrun
    exact ⟨rfl, ⟨some 0, some 1, type.name⟩, ⟨rfl, rfl, rfl⟩, rfl⟩

/-- The server of the example is put together as the theorem asks. -/
theorem pooledServer_assembled :
    pooledServer.Assembled (hookJournal unstarted () namedAfter) () := by
  have hnew : (Builder.new [] () ()).Assembled (hookJournal unstarted () namedAfter) () :=
    .new () rfl
  have hinvoke := hnew.invoke (i := ⟨"serve", [.of "server" ⟨"Server"⟩], fun _ => .finish (.ok ())⟩)
    fun _ _ _ _ _ hrun => by cases hrun; exact ⟨rfl, rfl⟩
  exact ((hinvoke.provide (hooked_writes _ _)).provide (hooked_writes _ _)).provide
    (hooked_writes _ _)

/-- The hooks of the three components are appended to a lifecycle, which is started and stopped. -/
def servedHooks : List (Move Nat) :=
  ["Database", "Pool", "Server"].map fun name => .append "" ⟨some 0, some 1, some name⟩

def servedPasses : List (Move Nat) :=
  let returned (id : PassId) (now : Nat) : Move Nat := .returned id (.ok ()) ⟨now, none⟩
  [ .ask .start, .enter 0 ⟨0, none⟩, returned 0 1, returned 0 2, returned 0 3,
    .ask .stop, .enter 1 ⟨4, none⟩, returned 1 5, returned 1 6, returned 1 7 ]

/-- What is seen since the start pass is let through. -/
def servedEvents : List (Event Nat) :=
  let callback (id : PassId) (phase : Phase) (name : String) : List (Event Nat) :=
    [.began id phase ⟨some 0, some 1, name⟩, .ended id phase ⟨some 0, some 1, name⟩ (.ok ())]
  ["Database", "Pool", "Server"].flatMap (callback 0 .start) ++ .finished 0 (.ok ()) ::
    ["Server", "Pool", "Database"].flatMap (callback 1 .stop) ++ [.finished 1 (.ok ())]

theorem servedEvents_latest : Course.Latest (Course.of (servedHooks ++ servedPasses)).seen 0
    (Course.of servedHooks).coordinator.lifecycle.hooks servedEvents :=
  ⟨⟨[], rfl⟩, by simp [servedEvents]⟩

/-- The server needs the database through the pool, and so its callbacks run inside those of the
database. -/
theorem pooledServer_in_order :
    let app := pooledServer.build fun _ hooks => hooks
    app.1 = .ok () ∧ TransGen app.2.graph.Declares (.of ⟨"Server"⟩) (.of ⟨"Database"⟩) ∧
      ∃ parts : List (Key × RegisteredHook Nat), app.2.world = parts.map Prod.snd ∧
        ∃ server ∈ parts, ∃ database ∈ parts, server.1 = .of ⟨"Server"⟩ ∧
          database.1 = .of ⟨"Database"⟩ ∧
          [database.2, server.2].Sublist (begunOf .start servedEvents) ∧
          [server.2, database.2].Sublist (begunOf .stop servedEvents) := by
  have hok : (pooledServer.build fun _ hooks => hooks).1 = .ok () := by decide
  have hdeclares : TransGen (pooledServer.build fun _ hooks => hooks).2.graph.Declares
      (.of ⟨"Server"⟩) (.of ⟨"Database"⟩) :=
    .head (b := .of ⟨"Pool"⟩) ⟨_, _, rfl, _, .head _, rfl⟩
      (.single ⟨_, _, rfl, _, .tail _ (.head _), rfl⟩)
  obtain ⟨parts, hhooks, -, hmade, -, horder⟩ := hooks_follow_dependencies unstarted () namedAfter
    (fun _ hooks => hooks) (fun _ _ => rfl) pooledServer pooledServer_assembled hok
  obtain ⟨server, hserver, hserverKey⟩ :=
    List.mem_map.1 ((hmade (.of ⟨"Server"⟩)).1 ⟨⟨_, _, rfl⟩, Option.some_ne_none _⟩)
  obtain ⟨database, hdatabase, hdatabaseKey⟩ :=
    List.mem_map.1 ((hmade (.of ⟨"Database"⟩)).1 ⟨⟨_, _, rfl⟩, Option.some_ne_none _⟩)
  have hboth := horder server hserver database hdatabase (hserverKey ▸ hdatabaseKey ▸ hdeclares)
    servedHooks servedPasses 0 _ servedEvents rfl List.not_mem_nil servedEvents_latest
    (.tail _ (.tail _ (.tail _ (.tail _ (.tail _ (.tail _ (.head _)))))))
  exact ⟨hok, hdeclares, parts, hhooks, server, hserver, database, hdatabase, hserverKey,
    hdatabaseKey, hboth.1, hboth.2 rfl⟩

end ServiceHost
