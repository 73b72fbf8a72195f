import ServiceHost.Rehearsal.World

/-!
Constructors and invoked functions of a rehearsal: the actions of a script as a program that makes
requests to the graph.
-/

namespace ServiceHost.Rehearsal

/-- The program of a rehearsal's constructor. -/
abbrev PartProgram : Type :=
  Program World Part

/-- Writes a line into the log and goes on. -/
def sayThen (line : String) (next : PartProgram) : PartProgram :=
  .read fun w => .write (w.say line) next

/-- Changes the world, and goes on with what the change returned. -/
def changeThen {α : Type} (change : World → α × World) (next : α → PartProgram) : PartProgram :=
  .read fun w => .write (change w).2 (next (change w).1)

/-- Goes on after a request, or passes its error on. A tolerant request logs the error instead. -/
def afterRequest {α : Type} (what : String) (tolerant : Bool) (answer : Except GraphError α)
    (next : Option α → PartProgram) : PartProgram :=
  match answer with
  | .ok value => next (some value)
  | .error e =>
    if tolerant then sayThen (what ++ ": \"" ++ e.kind ++ "\" " ++ e.message) (next none)
    else .finish (.error e.toFailure)

/-- The numbers collected so far, and the number of a component if one was found. -/
def collect (deps : List (Option Nat)) : Option (Option Nat) → List (Option Nat)
  | some serial => deps ++ [serial]
  | none => deps

/-- Makes the component of a constructor that has come to its end. -/
def finishPart (owner : Key) (deps : List (Option Nat)) : PartProgram :=
  changeThen (fun w => w.makePart owner.type owner.text deps) fun part => .finish (.ok part)

/-- Returns the numbers that an invoked function has collected. -/
def finishInvoked (deps : List (Option Nat)) : PartProgram :=
  .finish (.ok ⟨none, "", deps, none⟩)

/-- Appends a hook to the lifecycle among the arguments. -/
def appendHook (args : Args Part) (hook : HookScript HookAction) (next : PartProgram) :
    PartProgram :=
  match args.get "lifecycle" lifecycleType with
  | .error e => .finish (.error e.toFailure)
  | .ok part =>
    match part.handle with
    | some (.lifecycle id) =>
      changeThen (fun w => w.append id hook) fun
        | .ok () => next
        | .error e => .finish (.error e.toFailure)
    | _ => next

/-- Subscribes to the shutdown broadcaster among the arguments. -/
def subscribeReceiver (args : Args Part) (name : String) (next : PartProgram) : PartProgram :=
  match args.get "shutdowner" shutdownerType with
  | .error e => .finish (.error e.toFailure)
  | .ok part =>
    match part.handle with
    | some (.shutdowner id) =>
      changeThen (fun w =>
        let (s, w) := w.subscribe id
        ((), w.keepReceiver name s)) fun () => next
    | _ => next

/-- The line that describes arguments. -/
def argsLine (args : Args Part) : String :=
  "args owner=" ++ args.owner.text ++ " len=" ++ toString args.size ++ " empty=" ++
    toString (args.size == 0)

mutual

/-- Does a registration and goes on with its outcome. -/
def Registration.program :
    Registration BodyAction → (Except GraphError Unit → PartProgram) → PartProgram
  | .value key, next =>
    changeThen (fun w => w.makePart key.type "value" []) fun part => .supply key part next
  | .shared type, next =>
    changeThen (fun w => w.makePart type "shared" []) fun part => .supply (Key.of type) part next
  | .constructor key inputs body, next =>
    changeThen World.newCounter fun counter =>
      .provide key inputs (fun args => changeThen (fun w => w.count counter) fun call =>
        BodyAction.programAll body call args [] (finishPart args.owner)) next
  | .injectable type inputs body, next =>
    .provide (Key.of type) inputs (fun args =>
      changeThen (fun w => w.count (.type type)) fun call =>
        BodyAction.programAll body call args [] (finishPart args.owner)) next
  | .bundle steps, next => Registration.programAll steps next

/-- Does registrations in turn, up to the first that fails, and goes on with the outcome. -/
def Registration.programAll :
    List (Registration BodyAction) → (Except GraphError Unit → PartProgram) → PartProgram
  | [], next => next (.ok ())
  | step :: rest, next =>
    step.program fun
      | .ok () => Registration.programAll rest next
      | .error e => next (.error e)

/-- Takes an action in a call, and goes on with the numbers collected so far. -/
def BodyAction.program :
    BodyAction → Nat → Args Part → List (Option Nat) → (List (Option Nat) → PartProgram) →
      PartProgram
  | .during window action, call, args, deps, next =>
    if window.covers call then action.program call args deps next else next deps
  | .get field type tolerant, _, args, deps, next =>
    afterRequest ("get " ++ field) tolerant (args.get field type) fun part =>
      next (collect deps (part.map (·.serial)))
  | .optional field type tolerant, _, args, deps, next =>
    afterRequest ("optional " ++ field) tolerant (args.optional field type) fun found =>
      next (collect deps (found.map fun part => part.bind (·.serial)))
  | .resolve key tolerant, _, _, deps, next =>
    .resolve key fun answer =>
      afterRequest ("resolve " ++ key.text) tolerant answer fun found =>
        next (collect deps (found.map (·.value.serial)))
  | .register step tolerant, _, _, deps, next =>
    step.program fun answer =>
      afterRequest "register" tolerant answer fun done =>
        next (collect deps (done.map fun _ => none))
  | .fail failure, _, _, _, _ => .finish (.error failure)
  | .panic text, _, _, _, _ => .panic text
  | .log text, _, _, deps, next => sayThen text (next deps)
  | .block, _, _, deps, next => next deps
  | .describeArgs, _, args, deps, next => sayThen (argsLine args) (next deps)
  | .isCached key, _, _, deps, next =>
    .isCached key fun cached =>
      sayThen ("is_cached " ++ key.text ++ " = " ++ toString cached) (next deps)
  | .append hook, _, args, deps, next => appendHook args hook (next deps)
  | .subscribe name, _, args, deps, next => subscribeReceiver args name (next deps)

/-- Takes actions in turn. -/
def BodyAction.programAll :
    List BodyAction → Nat → Args Part → List (Option Nat) → (List (Option Nat) → PartProgram) →
      PartProgram
  | [], _, _, deps, next => next deps
  | action :: rest, call, args, deps, next =>
    action.program call args deps fun deps => BodyAction.programAll rest call args deps next

end

/-- The constructor with that body, whose calls are counted. -/
def construct (body : List BodyAction) (counter : Counter) (args : Args Part) : PartProgram :=
  changeThen (fun w => w.count counter) fun call =>
    BodyAction.programAll body call args [] (finishPart args.owner)

mutual

/-- Does a registration that a step makes. -/
def Registration.apply : Registration BodyAction → Workshop World Part →
    Except GraphError Unit × Workshop World Part
  | .value key, w =>
    let (part, world) := w.world.makePart key.type "value" []
    { w with world }.register key (.ofValue key part)
  | .shared type, w =>
    let (part, world) := w.world.makePart type "shared" []
    { w with world }.register (Key.of type) (.ofValue (Key.of type) part)
  | .constructor key inputs body, w =>
    let (counter, world) := w.world.newCounter
    { w with world }.register key (.ofRecipe inputs (construct body counter))
  | .injectable type inputs body, w =>
    w.register (Key.of type) (.ofRecipe inputs (construct body (.type type)))
  | .bundle steps, w => Registration.applyAll steps w

/-- Does registrations in turn, up to the first that fails. -/
def Registration.applyAll : List (Registration BodyAction) → Workshop World Part →
    Except GraphError Unit × Workshop World Part
  | [], w => (.ok (), w)
  | step :: rest, w =>
    match step.apply w with
    | (.ok (), w) => Registration.applyAll rest w
    | (.error e, w) => (.error e, w)

end

/-- The function of an invocation, which is called once. -/
def invokedProgram (body : List BodyAction) (args : Args Part) : PartProgram :=
  BodyAction.programAll body 1 args [] finishInvoked

/-- The log lines for what the graph reports. -/
def noteInLog : Notice → World → World
  | .constructing key, w => w.say ("construct " ++ key.text)
  | .invoking owner, w => w.say ("invoke " ++ owner.text)

end ServiceHost.Rehearsal
