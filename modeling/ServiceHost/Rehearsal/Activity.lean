import ServiceHost.Rehearsal.Frame
import ServiceHost.Text.JsonText

/-!
Polling an activity takes it as far as it can go without waiting. What a frame waits for is looked
at first, and then, from the inside out, whether a frame around it gives up. Once the allowance of
the poll is used up, whatever would take something out of a wait, or begin one, is put off to
another poll.
-/

namespace ServiceHost.Rehearsal

/-- The state of the lifecycle as JSON text. -/
def Snapshot.json (s : Snapshot) : String :=
  "\x7b\"hooks\":" ++ toString s.hooks ++ ",\"running\":" ++
    (match s.running with
    | none => "null"
    | some caller => Text.jsonString caller) ++
    ",\"started\":" ++ toString s.started ++ ",\"state\":" ++ Text.jsonString s.state.text ++
    ",\"t\":" ++ toString s.now ++ "\x7d"

/-- The outcome of a broadcast as JSON text. -/
def broadcastJson : Except ShutdownError Unit → String
  | .ok () => "\"ok\""
  | .error e =>
    "\x7b\"error\":" ++ Text.jsonString e.kind ++ ",\"message\":" ++ Text.jsonString e.message ++
      "\x7d"

/-- What the context around an action says about it. -/
def contextLine : Option ContextError → String
  | none => "ctx_err live"
  | some reason => "ctx_err " ++ reason.name

/-- A frame goes on, or waits, or is over, or ends the whole activity. -/
inductive Turn where
  /-- These frames take its place, and the first goes on. -/
  | go (frames : List Frame)
  /-- It waits. -/
  | wait
  /-- It is over. -/
  | hand (delivery : Delivery)
  | panic (text : String)

namespace Running

/-- The actions go on after one that is over. -/
def next (running : Running) (rest : List HookAction) : Turn :=
  .go [.acting running rest none]

/-- The callback begins to wait in the middle of its next action. -/
def begin (running : Running) (w : World) (actions : List HookAction) (wake : Option Nat) : Turn :=
  .go [.acting running actions (some ⟨w.polls, wake⟩)]

/-- The callback fails because its context is done. -/
def giveUp (reason : ContextError) : Turn :=
  .hand (.callback (.error (.plain reason.message)))

/-- The callback sleeps. -/
def sleepTurn (running : Running) (w : World) (millis : Nat) (pause : Option Pause)
    (rest : List HookAction) : Turn × World :=
  let wake := (pause.bind (·.wake)).getD (w.after millis)
  if w.allowance = 0 then (.wait, w.postpone)
  else if wake ≤ w.now then
    (running.next rest,
      w.spend.sayAt (running.callback.phase.text ++ " " ++ running.callback.label ++ " woke"))
  else if pause.isSome then (.wait, w)
  else (running.begin w (.sleep millis :: rest) (some wake), w)

/-- The callback sleeps, or fails as soon as its context is done. -/
def raceTurn (running : Running) (w : World) (millis : Nat) (pause : Option Pause)
    (rest : List HookAction) : Turn × World :=
  let wake := (pause.bind (·.wake)).getD (w.after millis)
  if w.allowance = 0 then (.wait, w.postpone)
  else if wake ≤ w.now then (running.next rest, w.spend)
  else match w.lookAt running.context with
    | (some reason, w) => (giveUp reason, w)
    | (none, w) =>
      if pause.isSome then (.wait, w)
      else (running.begin w (.race millis :: rest) (some wake), w)

/-- The callback waits until its context is done and fails. -/
def contextTurn (running : Running) (w : World) (pause : Option Pause) (rest : List HookAction) :
    Turn × World :=
  if !w.canWatch running.context then (.wait, w.postpone)
  else match w.lookAt running.context with
    | (some reason, w) => (giveUp reason, w)
    | (none, w) =>
      if pause.isSome then (.wait, w) else (running.begin w (.waitContext :: rest) none, w)

/-- The callback goes on with its next action. -/
def turn (running : Running) (w : World) (pause : Option Pause) :
    HookAction → List HookAction → Turn × World
  | .during window action, rest =>
    if window.covers running.call then (.go [.acting running (action :: rest) pause], w)
    else (running.next rest, w)
  | .sleep millis, rest => running.sleepTurn w millis pause rest
  | .race millis, rest => running.raceTurn w millis pause rest
  | .waitContext, rest => running.contextTurn w pause rest
  | .pending, _ => (.wait, w)
  | .fail failure, _ => (.hand (.callback (.error failure)), w)
  | .panic text, _ => (.panic text, w)
  | .log text, rest => (running.next rest, w.sayAt text)
  | .cancel none, rest => (running.next rest, w.cancel running.context)
  | .cancel (some name), rest =>
    let (target, w) := w.contextOr (some name)
    (running.next rest, w.cancel target)
  | .probe, rest => (running.next rest, w.say ("probe " ++ w.snapshot.json))
  | .contextError, rest =>
    (running.next rest, w.say (contextLine (w.contextError running.context)))
  | .append hook, rest =>
    match w.append running.lifecycle hook with
    | (.ok (), w) => (running.next rest, w)
    | (.error e, w) => (.hand (.callback (.error e.toFailure)), w)
  | .reenter phase, rest =>
    (.go [.launch (.pass running.lifecycle phase running.context), .acting running rest none], w)
  | .broadcast signal, rest =>
    let (result, w) := w.broadcast w.broadcaster signal
    (running.next rest, w.say ("broadcast " ++ broadcastJson result))

end Running

/-- A pass goes on after a step. -/
def passTurn (w : World) (lifecycle : Nat) (id : PassId) (ctx : Context) :
    PassStep Callback × Coordinator Callback → Turn × World
  | (.call callback _, c) =>
    let (frame, w) := beginCallback (w.setCoordinator lifecycle c) callback ctx
    (.go [frame, .pass lifecycle id ctx], w)
  | (.finish result, c) => (.hand (.pass result), w.leaveGate lifecycle c)
  | (.outOfRange index, c) =>
    (.panic ("no hook at " ++ toString index), w.leaveGate lifecycle c)

/-- A pass begins, if it is its turn. -/
def enterTurn (w : World) (lifecycle : Nat) (id : PassId) (ctx : Context) : Turn × World :=
  if w.allowance = 0 then (.wait, w.postpone)
  else match (w.coordinator lifecycle).enter id (w.reading ctx) with
    | none => (.wait, w)
    | some step => passTurn w.spend lifecycle id ctx step

/-- A run that waits for a signal goes on once one is there. -/
def runTurn (w : World) (app : App) (receiver : Subscription) (heard : Option Signal) :
    Turn × World :=
  if w.allowance = 0 then (.wait, w.postpone)
  else
    let (taken, w) := w.take receiver
    match taken <|> heard with
    | none => (.wait, { w with runWaited := true })
    | some signal =>
      (.go [.launch (.timedCall app .stopping), .run app receiver (.stopping signal) none], w.spend)

/-- A frame goes on. -/
def Frame.turn (w : World) : Frame → Turn × World
  | .launch what =>
    if what.needsAllowance && w.allowance == 0 then (.wait, w.postpone)
    else
      let (frames, w) := what.frames w
      (.go frames, w)
  | .acting _ [] _ => (.hand (.callback (.ok ())), w)
  | .acting running (action :: rest) pause => running.turn w pause action rest
  | .pass lifecycle id ctx => enterTurn w lifecycle id ctx
  | .run app receiver .waiting heard => runTurn w app receiver heard
  | _ => (.wait, w)

/-- A frame goes on with what the frame inside has handed to it. -/
def Frame.receive (w : World) : Frame → Delivery → Turn × World
  | .pass lifecycle id ctx, .callback result =>
    match (w.coordinator lifecycle).returned id result (w.reading ctx) with
    | none => (.wait, w)
    | some step => passTurn w lifecycle id ctx step
  | .acting running actions _, .pass (.ok ()) => (running.next actions, w)
  | .acting _ _ _, .pass (.error e) => (.hand (.callback (.error e.toFailure)), w)
  | .calling app call _, .pass result =>
    match call.stage.after result with
    | .finish result => (.hand (.pass result), w)
    | .rollBack start => (.go [.launch (.timedCall app (.rollingBack start))], w)
  | .run app receiver stage heard, .pass result =>
    match stage.after result with
    | .wait => (.go [.run app receiver .waiting heard], w)
    | .finish result => (.hand (.run result), w.unsubscribe receiver)
  | .require requirement, .pass (.error e) => (.panic (requirement.panic e), w)
  | _, delivery => (.hand delivery, w)

/-- What comes of a frame around one that waits. -/
inductive Watched where
  /-- It waits as well. -/
  | waiting (frame : Frame)
  /-- The context of a call is done. -/
  | timeout (app : App) (call : AppCall) (reason : ContextError)
  /-- A limit is reached. -/
  | limit

/-- Looks at a frame around one that waits. -/
def Frame.watch (hadAllowance : Bool) (w : World) : Frame → Watched × World
  | .calling app call since =>
    if !w.canWatch call.context then (.waiting (.calling app call since), w.postpone)
    else match w.lookAt call.context with
      | (some reason, w) => (.timeout app call reason, w)
      | (none, w) => (.waiting (.calling app call (since <|> some w.polls)), w)
  | .limit deadline =>
    match w.reached hadAllowance deadline with
    | (true, w) => (.limit, w)
    | (false, w) => (.waiting (.limit deadline), w)
  | frame => (.waiting frame, w)

/-- Looks at frames from the inside out, up to one that does not wait on: those inside it, what
comes of it, and the frames from it on. -/
def watchAll (hadAllowance : Bool) (w : World) :
    List Frame → List Frame × Option (Watched × List Frame) × World
  | [] => ([], none, w)
  | frame :: rest =>
    match frame.watch hadAllowance w with
    | (.waiting frame, w) =>
      let (inside, found, w) := watchAll hadAllowance w rest
      (frame :: inside, found, w)
    | (watched, w) => ([], some (watched, frame :: rest), w)

/-- How an activity ends that hands on its last delivery. -/
def Delivery.ending : Delivery → Ending
  | .callback _ => .done (.ok ())
  | .pass result => .done result
  | .run (.ok signal) => .signalled signal
  | .run (.error e) => .done (.error e)

/-- An activity after a poll. -/
inductive Polled where
  | waiting (frames : List Frame)
  | over (ending : Ending)

/-- Takes an activity as far as it goes in `fuel` steps. -/
def proceed (hadAllowance : Bool) :
    Nat → World → Option Delivery → List Frame → Polled × World
  | 0, w, _, frames => (.waiting frames, w)
  | _ + 1, w, none, [] => (.over (.done (.ok ())), w)
  | _ + 1, w, some delivery, [] => (.over delivery.ending, w)
  | fuel + 1, w, delivery, frame :: rest =>
    let (turn, w) := match delivery with
      | none => frame.turn w
      | some delivery => frame.receive w delivery
    match turn with
    | .go frames => proceed hadAllowance fuel w none (frames ++ rest)
    | .hand delivery => proceed hadAllowance fuel w (some delivery) rest
    | .panic text => (.over (.panicked text), dropFrames w (frame :: rest))
    | .wait =>
      match watchAll hadAllowance w (frame :: rest) with
      | (inside, some (.timeout app call reason, outside), w) =>
        let w := dropFrames w inside
        -- nobody else is polled before the lifecycle has been read
        let c := call.giveUp (w.coordinator app.lifecycle)
        let error := call.report reason c.lifecycle.running (c.lifecycle.records call.stage.phase)
        proceed hadAllowance fuel (w.leaveGate app.lifecycle c) (some (.pass (.error error)))
          outside
      | (inside, some (_, outside), w) => (.over .abandoned, dropFrames w (inside ++ outside))
      | (frames, none, w) => (.waiting frames, w)

/-- More steps than an activity takes between two waits. -/
def patience : Nat := 10000000

/-- Polls an activity. -/
def poll (w : World) (frames : List Frame) : Polled × World :=
  proceed (w.allowance != 0) patience w none frames

end ServiceHost.Rehearsal
