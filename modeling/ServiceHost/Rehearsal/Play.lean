import ServiceHost.Graph.Describe
import ServiceHost.Graph.Thread
import ServiceHost.Rehearsal.Components
import ServiceHost.Rehearsal.Session

/-!
Plays scripts: each step is taken in the session that the steps before it have left, and is
answered. Most steps are answered at once; a step that may have to wait is handed to the session.
-/

namespace ServiceHost.Rehearsal

/-- The number of acts by which each thread is ahead of the next one, which takes a while to come
up. -/
def headStart : Nat := 3000

/-- One act of each of the first threads, as far as they can act. Tells whether one of them
could. -/
def takeTurns (threads : Nat) (c : Crew World Part) : Bool × Crew World Part :=
  (List.range threads).foldl (fun (acted, c) i =>
    match c.move? noteInLog i with
    | some (_, c) => (true, c)
    | none => (acted, c)) (false, c)

/-- Threads that share a graph act in turn until none of them can. Those after the first `up` have
not come up yet. The next one does when the others have taken so many turns, or none of them can
act. -/
def workTogether : Nat → Nat → Nat → Crew World Part → Crew World Part
  | 0, _, _, c => c
  | fuel + 1, up, turns, c =>
    let (acted, c) := takeTurns up c
    if acted && turns != 0 then workTogether fuel up (turns - 1) c
    else if up < c.threads.length then workTogether fuel (up + 1) headStart c
    else if acted then workTogether fuel up turns c
    else c

namespace Session

/-- Lets the current graph and the world work together. -/
def withWorkshop {α : Type} (s : Session) (f : Workshop World Part → α × Workshop World Part) :
    α × Session :=
  let (result, w) := f ⟨s.currentGraph, none, s.world⟩
  (result, { s.setGraph w.graph with world := w.world })

/-- The answer to a request to a graph. -/
def outcomeAnswer {α : Type} (f : α → Answer) : Outcome GraphError α → Answer
  | .ok value => f value
  | .error e => .graphError e
  | .interrupted (.panic text) => .panic text
  | .interrupted _ => .word "waits for ever"

/-- The answer to a request that returns nothing. -/
def unitAnswer {ε : Type} (f : ε → Answer) : Except ε Unit → Answer
  | .ok () => .ok
  | .error e => f e

/-- Resolves a key and checks the type of what was found. -/
def resolve (s : Session) (key : Key) : Outcome GraphError Part × Session :=
  s.withWorkshop (resolveTyped (resolveWithin noteInLog s.depth) key)

/-- Resolves a key by several threads at the same time, and checks the type of what each has found.
A thread that waits to the end waits for ever. -/
def resolveEach (s : Session) (key : Key) (threads : Nat) :
    List (Outcome GraphError Part) × Session :=
  s.withWorkshop fun w =>
    let crew :=
      workTogether patience 0 0 (w.crewWithin s.depth s.depth (List.replicate threads key))
    let outcome (i : Nat) : Outcome GraphError Part :=
      let ended := (crew.result? i).getD (.interrupted (.deadlock key))
      (resolveTyped (fun _ w => (ended, w)) key w).1
    ((List.range threads).map outcome, crew.workshop)

/-- A call on the builder of an application. -/
def applyOption (b : Builder World Part) : BuildOption → Builder World Part
  | .supply key =>
    let (part, world) := b.workshop.world.makePart key.type "value" []
    { b with workshop := { b.workshop with world } }.supply key part
  | .provide registration => b.record registration.apply
  | .invoke name inputs body => b.invoke ⟨name, inputs, invokedProgram body⟩

/-- Builds an application, which the session keeps if nothing fails. What its functions and
constructors request meanwhile, they request of the graph that was the current one before. -/
def build (s : Session) (settings : Option SettingsScript) (options : List BuildOption) :
    Answer × Session :=
  match settings.elim (.ok .standard) SettingsScript.timeouts with
  | .error fault => (.settingsFault fault, s)
  | .ok timeouts =>
    let (lifecycle, world) := s.world.newLifecycle
    let (broadcaster, world) := world.newBroadcaster
    let builder := Builder.new world ⟨none, "", [], some (.lifecycle lifecycle)⟩
      ⟨none, "", [], some (.shutdowner broadcaster)⟩
    let builder := options.foldl applyOption
      ((builder.consulting s.currentGraph).withTimeouts timeouts)
    let (outcome, w) := builder.buildWithin noteInLog s.depth
    let s := w.beside.elim s s.setGraph
    match outcome with
    | .ok () =>
      let s := s.enterGraph w.graph
      (.settings timeouts,
        { s with
          world := { w.world with lifecycle, broadcaster }
          app := some ⟨lifecycle, broadcaster, s.graph, timeouts⟩ })
    | outcome => (outcomeAnswer (fun () => .ok) outcome, { s with world := w.world })

/-- The frames of a call, the innermost first, unless it needs an application that was not built. -/
def launch (s : Session) : PassKind → Option (List Frame) × Session
  | .lifecycle phase name =>
    let (ctx, world) := s.world.contextOr name
    (some [.launch (.pass s.world.lifecycle phase ctx)], { s with world })
  | .timed phase => (some [.launch (.timedPass s.world.lifecycle phase)], s)
  | .required phase =>
    (some [.launch (.timedPass s.world.lifecycle phase), .require (.lifecycle phase)], s)
  | .app phase name =>
    match s.app, name with
    | none, _ => (none, s)
    | some app, none => (some [.launch (.timedCall app (.ofPhase phase))], s)
    | some app, some name =>
      let (ctx, world) := s.world.contextOr (some name)
      (some [.launch (.call app (.ofPhase phase) ctx), .holding ctx], { s with world })
  | .appRequired phase =>
    (s.app.map fun app => [.launch (.timedCall app (.ofPhase phase)), .require (.app phase)], s)
  | .appRun => (s.app.map fun app => [.launch (.run app)], s)

/-- Makes a named context from the one of the name `parent`, or from a new background one. -/
def makeContext (w : World) (name : String) (origin : ContextOrigin) (parent : Option String) :
    World :=
  let (parent, w) := w.contextOr parent
  let (ctx, w) := match origin with
    | .background => w.background
    | .same => (parent, w)
    | .child => w.derive parent (w.scopes.child parent)
    | .timeout millis => w.derive parent (w.scopes.withTimeout parent w.now millis)
    | .deadline millis => w.derive parent (w.scopes.withDeadline parent millis)
  { w with contexts := putNamed w.contexts name ctx }

/-- Lets a signal of the operating system reach every run that waits for one. -/
def deliverSignal (s : Session) (signal : Signal) : Session :=
  let reach := fun (frame : Frame) => match frame with
    | .run app receiver .waiting none => Frame.run app receiver .waiting (some signal)
    | frame => frame
  { s with
    tasks := s.tasks.map fun task => match task.state with
      | .waiting frames => { task with state := .waiting (frames.map reach) }
      | _ => task
    world := s.world.happen .interrupted }

/-- Marks a task to be dropped when it is its turn. -/
def abort (s : Session) (id : Nat) : Session :=
  match s.tasks[id]? with
  | some ⟨.waiting frames, _⟩ =>
    { s with tasks := s.tasks.setIfInBounds id ⟨.waiting frames, true⟩ }.enqueue id
  | _ => s

/-- A step on the graph. -/
def graphStep (s : Session) : Step → Option (Answer × Session)
  | .register registration =>
    let (result, s) := s.withWorkshop registration.apply
    some (unitAnswer .graphError result, s)
  | .resolve key =>
    let (outcome, s) := s.resolve key
    some (outcomeAnswer .part outcome, s)
  | .resolveKey key =>
    let (outcome, s) := s.withWorkshop (resolveWithin noteInLog s.depth key)
    some (outcomeAnswer (fun item => .part item.value) outcome, s)
  | .parallel key callers =>
    let (outcomes, s) := s.resolveEach key callers
    some (.each (outcomes.map (outcomeAnswer .part)), s)
  | .invoke name inputs body =>
    let (outcome, s) :=
      s.withWorkshop (invokeWithin noteInLog s.depth name inputs (invokedProgram body))
    some (outcomeAnswer (fun part => .collected part.deps) outcome, s)
  | .contains key => some (.contains (s.currentGraph.contains key), s)
  | .isCached key => some (.cached (s.currentGraph.isCached key), s)
  | .graphSize => some (.size s.currentGraph.size, s)
  | .describeGraph =>
    some (.graphDescription s.currentGraph.describeNodes s.currentGraph.descriptionLines, s)
  | .freshGraph => some (.ok, s.enterGraph .empty)
  | _ => none

/-- A step on the lifecycle, the tasks and the time. -/
def lifecycleStep (s : Session) : Step → Option (Answer × Session)
  | .append hook =>
    let (result, world) := s.world.append s.world.lifecycle hook
    some (unitAnswer .lifecycleError result, { s with world })
  | .requireAppend hook =>
    let (result, world) := s.world.append s.world.lifecycle hook
    some (unitAnswer (fun e => .panic (Requirement.append.panic e)) result, { s with world })
  | .freshLifecycle =>
    let (lifecycle, world) := s.world.newLifecycle
    some (.ok, { s with world := { world with lifecycle } })
  | .pass kind limit task =>
    match s.launch kind with
    | (none, s) => some (.word "no app", s)
    | (some frames, s) =>
      match task with
      | some name => some (.word "spawned", s.spawn name frames)
      | none => some (s.begin (.activity (frames ++ [.limit (s.world.after limit)])))
  | .describeHook script =>
    let (hook, world) := s.world.newHook script
    some (.hook hook.describe hook.onStart.isSome hook.onStop.isSome, { s with world })
  | .describeLifecycle => some (.description s.world.current.lifecycle.describe, s)
  | .records =>
    let l := s.world.current.lifecycle
    some (.records l.startRecords l.stopRecords, s)
  | .sleep millis => some (s.begin (.time (s.world.after millis)))
  | .yield => some (s.begin (.turn false))
  | .join name limit =>
    match s.names.lookup name with
    | none => some (.word "no such task", s)
    | some id => some (s.begin (.task name id (some (s.world.after limit))))
  | .abort name =>
    match s.names.lookup name with
    | none => some (.word "no such task", s)
    | some id => some ((s.abort id).begin (.task name id none))
  | _ => none

/-- A step on contexts, receivers and the shutdown broadcaster. -/
def signalStep (s : Session) : Step → Option (Answer × Session)
  | .context name origin parent =>
    some (.ok, s.mapWorld fun w => makeContext w name origin parent)
  | .cancel name =>
    let (ctx, world) := s.world.contextOr (some name)
    some (.ok, { s with world := world.cancel ctx })
  | .contextDone name limit =>
    let (ctx, world) := s.world.contextOr (some name)
    some (Session.begin { s with world } (.context ctx (world.after limit)))
  | .subscribe name =>
    let (receiver, world) := s.world.subscribe s.world.broadcaster
    some (.ok, { s with world := world.keepReceiver name receiver })
  | .unsubscribe name =>
    some (.flag (s.world.receivers.lookup name).isSome, s.mapWorld fun w => w.dropReceiver name)
  | .tryReceive name =>
    match s.world.receivers.lookup name with
    | none => some (.word "no such receiver", s)
    | some receiver =>
      let (signal, world) := s.world.take receiver
      some (.signal signal, { s with world })
  | .receive name limit =>
    match s.world.receivers.lookup name with
    | none => some (.word "no such receiver", s)
    | some receiver => some (s.begin (.signal receiver (s.world.after limit)))
  | .broadcast signal =>
    let (result, world) := s.world.broadcast s.world.broadcaster signal
    some (unitAnswer .shutdownError result, { s with world })
  | .shutdown =>
    let (result, world) := s.world.broadcast s.world.broadcaster .terminate
    some (unitAnswer .shutdownError result, { s with world })
  | .freshShutdowner =>
    let (broadcaster, world) := s.world.newBroadcaster
    some (.ok, { s with world := { world with broadcaster } })
  | .describeShutdowner =>
    some (.description (s.world.broadcasterOf s.world.broadcaster).describe, s)
  | _ => none

/-- A step on the application. -/
def appStep (s : Session) : Step → Answer × Session
  | .build settings options => s.build settings options
  | .appSubscribe name =>
    match s.app with
    | none => (.word "no app", s)
    | some app =>
      let (receiver, world) := s.world.subscribe app.broadcaster
      (.ok, { s with world := world.keepReceiver name receiver })
  | .graphShutdown =>
    match s.resolve (Key.of shutdownerType) with
    | (.ok part, s) =>
      match part.handle with
      | some (.shutdowner id) =>
        let (result, world) := s.world.broadcast id .terminate
        (unitAnswer .shutdownError result, { s with world })
      | _ => (.ok, s)
    | (outcome, s) => (outcomeAnswer .part outcome, s)
  | .osSignal signal =>
    if s.world.current.lifecycle.state = .started && s.world.runWaited then
      (.ok, s.deliverSignal signal)
    else (.word "not waiting", s)
  | _ => (.ok, s)

/-- Takes a step. -/
def step (s : Session) (step : Step) : Answer × Session :=
  let (answer, s) := ((s.graphStep step <|> s.lifecycleStep step) <|> s.signalStep step).getD
    (s.appStep step)
  (answer, (s.prune none).wake none)

/-- What is told after a step. -/
def report (s : Session) (answer : Answer) : Report where
  answer := answer
  log := s.world.log.reverse
  snapshot := s.world.snapshot
  subscribers := (s.world.broadcasterOf s.world.broadcaster).subscriberCount
  contexts := s.world.contexts.map fun e => ⟨e.1, s.world.contextError e.2, e.2.deadline⟩

/-- Takes steps in turn, and tells what there is to tell after each. -/
def play : List Step → Session → List Report
  | [], _ => []
  | next :: rest, s =>
    let (answer, s) := s.step next
    s.report answer :: play rest (s.mapWorld fun w => { w with log := [] })

end Session

/-- The number of nodes that a step may add to a graph, now or by its constructors later. -/
def Step.bound : Step → Nat
  | .register registration => registration.bound
  | .invoke _ _ body => BodyAction.boundAll body
  | .build _ options => (options.map fun option => match option with
      | .supply _ => 1
      | .provide registration => registration.bound
      | .invoke _ _ body => BodyAction.boundAll body).foldr (· + ·) 0 + 2
  | _ => 0

/-- Plays a script from the beginning. Calls to a graph hold the locks of distinct nodes, so that
they are not nested deeper than there can be nodes. -/
def play (steps : List Step) : List Report :=
  Session.play steps (.initial ((steps.map Step.bound).foldr (· + ·) 0 + 1))

end ServiceHost.Rehearsal
