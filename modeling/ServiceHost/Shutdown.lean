/-!
Requests to stop. A broadcaster keeps a channel for every subscriber it ever had. A channel has room
for one signal: a broadcast puts its signal into every channel that is open and empty, leaves the
others as they are and counts them.
-/

namespace ServiceHost

/-- Why the application is asked to stop. Reference: `Signal`. -/
inductive Signal where
  | interrupt
  | terminate
deriving DecidableEq, Repr

/-- The name of a signal. -/
def Signal.text : Signal → String
  | .interrupt => "SIGINT"
  | .terminate => "SIGTERM"

/-- Why a broadcast did not reach everyone. Reference: `ShutdownError`. -/
inductive ShutdownError where
  /-- Nobody ever subscribed. -/
  | noSubscribers
  /-- So many of all subscribers did not get the signal. -/
  | undelivered (signal : Signal) (unsent total : Nat)
deriving DecidableEq, Repr

/-- The name of the cause. -/
def ShutdownError.kind : ShutdownError → String
  | .noSubscribers => "NoSubscribers"
  | .undelivered .. => "Undelivered"

/-- What a reader is told. -/
def ShutdownError.message : ShutdownError → String
  | .noSubscribers => "attempted to shutdown without any subscribers"
  | .undelivered signal unsent total =>
    "failed to send " ++ signal.text ++ " signal to " ++ toString unsent ++ " out of " ++
      toString total ++ " channels"

/-- The channel to one subscriber. -/
structure Channel where
  /-- The signal that was not taken yet. -/
  pending : Option Signal
  /-- The subscriber still holds its end. -/
  isOpen : Bool
deriving DecidableEq, Repr

namespace Channel

/-- A channel to a new subscriber. -/
def fresh : Channel :=
  ⟨none, true⟩

/-- A signal put into the channel would be delivered. -/
def hasRoom (c : Channel) : Bool :=
  c.isOpen && c.pending.isNone

/-- Puts a signal into the channel if there is room. -/
def offer (signal : Signal) (c : Channel) : Channel :=
  if c.hasRoom then { c with pending := some signal } else c

end Channel

/-- All subscribers there ever were, in the order in which they came. Reference: `Shutdowner`. -/
structure Broadcaster where
  channels : List Channel
deriving DecidableEq, Repr

namespace Broadcaster

/-- A broadcaster without subscribers. Reference: `Shutdowner::new`. -/
def empty : Broadcaster :=
  ⟨[]⟩

/-- The number of subscribers there ever were. Reference: `Shutdowner::subscriber_count`. -/
def subscriberCount (b : Broadcaster) : Nat :=
  b.channels.length

/-- Adds a subscriber. Its number is that of the subscribers before it.
Reference: `Shutdowner::register`. -/
def register (b : Broadcaster) : Nat × Broadcaster :=
  (b.channels.length, ⟨b.channels ++ [.fresh]⟩)

/-- Sends a signal to every subscriber with room for it. Reference: `Shutdowner::broadcast`. -/
def broadcast (b : Broadcaster) (signal : Signal) : Except ShutdownError Unit × Broadcaster :=
  if b.channels.isEmpty then (.error .noSubscribers, b)
  else
    let unsent := b.channels.countP fun c => !c.hasRoom
    let sent : Broadcaster := ⟨b.channels.map (Channel.offer signal)⟩
    if unsent = 0 then (.ok (), sent)
    else (.error (.undelivered signal unsent b.channels.length), sent)

/-- Asks the application to terminate. Reference: `Shutdowner::shutdown`. -/
def shutdown (b : Broadcaster) : Except ShutdownError Unit × Broadcaster :=
  b.broadcast .terminate

/-- The signal that waits for a subscriber. -/
def pending? (b : Broadcaster) (subscriber : Nat) : Option Signal :=
  b.channels[subscriber]?.bind (·.pending)

/-- A subscriber takes the signal that waits for it. Reference: `ShutdownReceiver::try_recv`. -/
def take (b : Broadcaster) (subscriber : Nat) : Option Signal × Broadcaster :=
  (b.pending? subscriber,
    ⟨b.channels.modify subscriber fun c => { c with pending := none }⟩)

/-- A subscriber goes away. -/
def close (b : Broadcaster) (subscriber : Nat) : Broadcaster :=
  ⟨b.channels.modify subscriber fun c => { c with isOpen := false }⟩

/-- The description for a reader of diagnostics. -/
def describe (b : Broadcaster) : String :=
  "Shutdowner \x7b subscribers: " ++ toString b.subscriberCount ++ " \x7d"

end Broadcaster

end ServiceHost
