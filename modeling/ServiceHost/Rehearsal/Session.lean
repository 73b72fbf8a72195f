import ServiceHost.Rehearsal.Activity
import ServiceHost.Rehearsal.Answer
import ServiceHost.Rehearsal.Waiting

/-!
A session: the world, the graphs and the application, and the tasks that were set going. The step at
hand and the tasks take turns. A task runs only while the step waits: those that may go on stand in
a queue and are polled in rounds of so many at most.

Whoever is put off is polled again after the round, the last one first; otherwise, if nothing can go
on, the clock moves to the next time at which something can. After that the step is looked at, if it
may go on, and then the next round begins.
-/

namespace ServiceHost.Rehearsal

/-- How far a task has come. -/
inductive TaskState where
  | waiting (frames : List Frame)
  | over (ending : Ending)
  | aborted

/-- A call that runs beside the steps. -/
structure Task where
  state : TaskState
  /-- It is dropped when it is its turn. -/
  aborting : Bool

/-- The frames of a task that is not over. -/
def Task.frames (task : Task) : List Frame :=
  match task.state with
  | .waiting frames => frames
  | _ => []

/-- The state of a script between two steps. -/
structure Session where
  world : World
  /-- Every graph that was made. -/
  graphs : Array (Graph World Part)
  /-- The current graph. -/
  graph : Nat
  app : Option App
  tasks : Array Task
  names : List (String × Nat)
  /-- The tasks that may go on, in order. -/
  queue : List Nat
  /-- The tasks that were put off in the round, the last one first. -/
  deferred : List Nat
  /-- How deep calls to a graph may be nested. -/
  depth : Nat

/-- What a step waits for. -/
inductive Goal where
  | activity (frames : List Frame)
  | time (wake : Nat)
  /-- That the others have had their turn, which they had if `passed` is set. -/
  | turn (passed : Bool)
  | task (name : String) (id : Nat) (deadline : Option Nat)
  | signal (receiver : Subscription) (deadline : Nat)
  | context (context : Context) (deadline : Nat)

/-- The contexts that a step holds on to while it waits. -/
def Goal.contexts : Goal → List Context
  | .activity frames => frames.flatMap Frame.contexts
  | .context ctx _ => [ctx]
  | _ => []

/-- The answer to a call that has ended. -/
def Ending.answer : Ending → Answer
  | .done (.ok ()) => .ok
  | .done (.error e) => .lifecycleError e
  | .signalled signal => .signal (some signal)
  | .abandoned => .word "abandoned"
  | .panicked text => .panic text

/-- The number of polls in a round. -/
def roundLength : Nat := 61

namespace Session

/-- The session before the first step. -/
def initial (depth : Nat) : Session where
  world := .initial
  graphs := #[.empty]
  graph := 0
  app := none
  tasks := #[]
  names := []
  queue := []
  deferred := []
  depth := depth

/-- Changes the world. -/
def mapWorld (s : Session) (f : World → World) : Session :=
  { s with world := f s.world }

/-- A graph. -/
def graphOf (s : Session) (id : Nat) : Graph World Part :=
  s.graphs.getD id .empty

/-- The current graph. -/
def currentGraph (s : Session) : Graph World Part :=
  s.graphOf s.graph

/-- Replaces the current graph by what has become of it. -/
def setGraph (s : Session) (graph : Graph World Part) : Session :=
  { s with graphs := s.graphs.setIfInBounds s.graph graph }

/-- Another graph becomes the current one. -/
def enterGraph (s : Session) (graph : Graph World Part) : Session :=
  { s with graphs := s.graphs.push graph, graph := s.graphs.size }

/-- The tasks that an event wakes, in order. -/
def wokenBy (s : Session) (event : Event) : List Nat :=
  let woken := (List.range s.tasks.size).filterMap fun id =>
    ((s.tasks[id]?.bind fun task => place s.world event task.frames)).map fun p => (p, id)
  (woken.mergeSort fun a b => placeLe a.1 b.1).map (·.2)

/-- Puts a task at the end of the queue, unless it stands there already. -/
def enqueue (s : Session) (id : Nat) : Session :=
  if s.queue.contains id then s else { s with queue := s.queue ++ [id] }

/-- Puts the tasks that may go on into the queue, in the order of the events that they waited for. A
task that was polled just now and has woken itself comes last. -/
def wake (s : Session) (polled : Option Nat) : Session :=
  let (itself, others) :=
    (s.world.events.reverse.flatMap s.wokenBy).partition fun id => polled == some id
  ((others ++ itself).foldl enqueue s).mapWorld fun w => { w with events := [] }

/-- Takes the scopes out of the forest that neither a name nor a task nor the step holds. -/
def prune (s : Session) (goal : Option Goal) : Session :=
  let held := (s.world.contexts.map (·.2) ++ (goal.map Goal.contexts).getD [] ++
    s.tasks.toList.flatMap fun task => task.frames.flatMap Frame.contexts).filterMap
      fun ctx => ctx.lineage.head?
  s.mapWorld fun w => { w with forest := w.forest.prune held.contains }

/-- Polls a task. -/
def pollTask (s : Session) (id : Nat) : Session :=
  match s.tasks[id]? with
  | some ⟨.waiting frames, true⟩ =>
    { s with
      world := dropFrames s.world frames
      tasks := s.tasks.setIfInBounds id ⟨.aborted, true⟩ }
  | some ⟨.waiting frames, false⟩ =>
    match poll s.world.beginPoll frames with
    | (.waiting frames, world) =>
      { s with
        world := { world with polls := world.polls + 1 }
        tasks := s.tasks.setIfInBounds id ⟨.waiting frames, false⟩
        deferred := if world.putOff then id :: s.deferred else s.deferred }
    | (.over ending, world) =>
      { s with
        world := { world with polls := world.polls + 1 }
        tasks := s.tasks.setIfInBounds id ⟨.over ending, false⟩ }
  | _ => s

/-- Polls up to so many tasks of the queue while the step waits, and tells whether it were that
many. -/
def round (goal : Goal) : Nat → Session → Bool × Session
  | 0, s => (true, s)
  | count + 1, s =>
    match s.queue with
    | [] => (false, s)
    | id :: rest =>
      round goal count (((pollTask { s with queue := rest } id).prune (some goal)).wake (some id))

/-- Puts the tasks that were put off into the queue. -/
def resume (s : Session) : Session :=
  { s.deferred.foldl enqueue s with deferred := [] }

/-- A graph has a broadcaster among its values. -/
def graphHolds (s : Session) (graph broadcaster : Nat) : Bool :=
  let holds := fun (item : Instance Part) => item.value.handle == some (.shutdowner broadcaster)
  (s.graphOf graph).entries.any fun e => match e.2 with
    | .value item => holds item
    | .recipe _ _ cache => cache.made.any holds

/-- Something other than a channel holds on to a broadcaster: the script itself, or an application,
which lasts as long as it is the current one or a call of it is not over. -/
def holdsBroadcaster (s : Session) (id : Nat) : Bool :=
  let apps := s.app.toList ++
    s.tasks.toList.flatMap fun task => task.frames.filterMap Frame.app?
  s.world.broadcaster == id || s.graphHolds s.graph id ||
    apps.any fun app => app.broadcaster == id || s.graphHolds app.graph id

/-- What a receiver gets without waiting: a signal, or word that there will be none. -/
def received (s : Session) (receiver : Subscription) : Option (Option Signal) :=
  match s.world.pending? receiver with
  | some signal => some (some signal)
  | none => if s.holdsBroadcaster receiver.broadcaster then none else some none

/-- The answer of a task that is over. -/
def taskAnswer (s : Session) (id : Nat) : Option Answer :=
  match s.tasks[id]? with
  | some ⟨.over ending, _⟩ => some ending.answer
  | some ⟨.aborted, _⟩ => some (.word "aborted")
  | _ => none

/-- Looks at the time until which a step waits. -/
def pollTime (s : Session) (goal : Goal) (late : Answer) (time : Nat) :
    Option Answer × Goal × Session :=
  let (reached, world) := s.world.reached false time
  (if reached then some late else none, goal, { s with world })

/-- Looks whether a task is over. -/
def pollJoin (s : Session) (name : String) (id : Nat) (deadline : Option Nat) :
    Option Answer × Goal × Session :=
  let goal := Goal.task name id deadline
  let late := fun (s : Session) =>
    deadline.elim (none, goal, s) (s.pollTime goal (.word "still running"))
  if s.world.allowance = 0 then late (s.mapWorld World.postpone)
  else match s.taskAnswer id with
    | some answer =>
      (some answer, goal,
        { s with world := s.world.spend, names := s.names.filter fun e => e.1 != name })
    | none => late s

/-- Looks whether a receiver has something. -/
def pollReceiver (s : Session) (receiver : Subscription) (deadline : Nat) :
    Option Answer × Goal × Session :=
  let goal := Goal.signal receiver deadline
  let late := fun (s : Session) => s.pollTime goal (.word "nothing") deadline
  if s.world.allowance = 0 then late (s.mapWorld World.postpone)
  else match s.received receiver with
    | some signal =>
      (some (.signal signal), goal, s.mapWorld fun w => (w.take receiver).2.spend)
    | none => late s

/-- Looks whether a context is done. -/
def pollContext (s : Session) (ctx : Context) (deadline : Nat) : Option Answer × Goal × Session :=
  let goal := Goal.context ctx deadline
  let late := fun (s : Session) => s.pollTime goal (.word "not done") deadline
  if !s.world.canWatch ctx then late (s.mapWorld World.postpone)
  else match s.world.lookAt ctx with
    | (some reason, world) => (some (.contextDone reason), goal, { s with world })
    | (none, world) => late { s with world }

/-- Looks at what the step waits for. Returns an answer if there is one. -/
def pollGoal (s : Session) : Goal → Option Answer × Goal × Session
  | .activity frames =>
    match poll s.world frames with
    | (.over ending, world) => (some ending.answer, .activity [], { s with world })
    | (.waiting frames, world) => (none, .activity frames, { s with world })
  | .time time => s.pollTime (.time time) .ok time
  | .turn true => (some .ok, .turn true, s)
  | .turn false => (none, .turn true, s.mapWorld World.postpone)
  | .task name id deadline => s.pollJoin name id deadline
  | .signal receiver deadline => s.pollReceiver receiver deadline
  | .context ctx deadline => s.pollContext ctx deadline

/-- Something that the step waits for has come. -/
def goalReady (s : Session) : Goal → Bool
  | .activity frames => mayProceed s.world frames
  | .time time => time ≤ s.world.now
  | .turn _ => false
  | .task _ id deadline =>
    (s.taskAnswer id).isSome || deadline.any fun time => time ≤ s.world.now
  | .signal receiver deadline => (s.received receiver).isSome || deadline ≤ s.world.now
  | .context ctx deadline =>
    (s.world.scopes.done? s.world.now ctx).isSome || deadline ≤ s.world.now

/-- The times at which the step may go on. -/
def goalTimers : Goal → List Nat
  | .activity frames => timers frames
  | .time time => [time]
  | .turn _ => []
  | .task _ _ deadline => deadline.toList
  | .signal _ deadline => [deadline]
  | .context ctx deadline => deadline :: ctx.deadline.toList

/-- The next time at which something may go on. -/
def nextTime (s : Session) (goal : Goal) : Option Nat :=
  let ofTasks := s.tasks.toList.flatMap fun task => timers task.frames
  ((goalTimers goal ++ ofTasks).filter fun time => s.world.now < time).min?

/-- Moves the clock to the next time at which something may go on, if there is one. -/
def moveClock (s : Session) (goal : Goal) : Option Session :=
  (s.nextTime goal).map fun now => (s.mapWorld fun w => { w with now }.happen .clock).wake none

/-- Waits until the step has an answer. It is polled again in any case if it was put off. -/
def await : Nat → Session → Goal → (putOff : Bool) → Answer × Session
  | 0, s, _, _ => (.word "waits for ever", s)
  | fuel + 1, s, goal, putOff =>
    let (full, s) := s.round goal roundLength
    let s? := if full || putOff || !s.deferred.isEmpty then some s.resume
      else if s.goalReady goal then some s
      else s.moveClock goal
    match s? with
    | none => (.word "waits for ever", s)
    | some s =>
      if putOff || s.goalReady goal then
        match (s.mapWorld World.beginPoll).pollGoal goal with
        | (some answer, _, s) => (answer, s.wake none)
        | (none, goal, s) => await fuel (s.wake none) goal s.world.putOff
      else await fuel s goal false

/-- Does what a step has to wait for. What can be had at once is had before any task runs. -/
def begin (s : Session) (goal : Goal) : Answer × Session :=
  match s.pollGoal goal with
  | (some answer, _, s) => (answer, s.wake none)
  | (none, goal, s) => (s.wake none).await patience goal s.world.putOff

/-- Sets a task going under a name. -/
def spawn (s : Session) (name : String) (frames : List Frame) : Session :=
  { s with
    tasks := s.tasks.push ⟨.waiting frames, false⟩
    names := putNamed s.names name s.tasks.size
    queue := s.queue ++ [s.tasks.size] }

end Session

end ServiceHost.Rehearsal
