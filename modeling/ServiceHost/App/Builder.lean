import ServiceHost.Graph.Resolve
import ServiceHost.Settings.Timeouts

/-!
Puts an application together. Registrations go into the graph one after another until one fails; the
first failure is kept and nothing is registered after it. Functions to invoke are set aside, and run
when the application is built, after all registrations, up to the first that fails.
-/

namespace ServiceHost

/-- The type of a lifecycle as a component. -/
def lifecycleType : ComponentType :=
  ⟨"keystone::lifecycle::manager::Lifecycle"⟩

/-- The type of a shutdown broadcaster as a component. -/
def shutdownerType : ComponentType :=
  ⟨"keystone::lifecycle::shutdown::Shutdowner"⟩

/-- A function to invoke, with its name and its inputs. -/
structure Invocation (σ ι : Type) where
  name : String
  inputs : Inputs
  function : Args ι → Program σ ι

/-- An application that is being put together. Reference: `AppBuilder`. -/
structure Builder (σ ι : Type) where
  workshop : Workshop σ ι
  timeouts : Timeouts
  invocations : List (Invocation σ ι)
  /-- The first registration that failed. -/
  failed : Option GraphError

namespace Builder

variable {σ ι : Type}

/-- Does registrations, unless one failed before. Reference: `AppBuilder::record`. -/
def record (b : Builder σ ι)
    (registrations : Workshop σ ι → Except GraphError Unit × Workshop σ ι) : Builder σ ι :=
  match b.failed with
  | some _ => b
  | none =>
    match registrations b.workshop with
    | (.ok (), workshop) => { b with workshop }
    | (.error e, workshop) => { b with workshop, failed := some e }

/-- Registers a value. Reference: `AppBuilder::supply` and `AppBuilder::supply_named`. -/
def supply (b : Builder σ ι) (key : Key) (value : ι) : Builder σ ι :=
  b.record fun w => w.register key (.ofValue key value)

/-- Registers a constructor with its inputs. Reference: `AppBuilder::provide` and
`AppBuilder::provide_named`. -/
def provide (b : Builder σ ι) (key : Key) (inputs : Inputs) (construct : Args ι → Program σ ι) :
    Builder σ ι :=
  b.record fun w => w.register key (.ofRecipe inputs construct)

/-- An application with nothing in its graph but its lifecycle and its shutdown broadcaster.
Reference: `AppBuilder::new`. -/
def new (world : σ) (lifecycle shutdowner : ι) : Builder σ ι :=
  ((⟨⟨.empty, none, world⟩, .standard, [], none⟩ : Builder σ ι).supply (Key.of lifecycleType)
    lifecycle).supply (Key.of shutdownerType) shutdowner

/-- Lets the functions and constructors make their requests to another graph. -/
def consulting (b : Builder σ ι) (graph : Graph σ ι) : Builder σ ι :=
  { b with workshop := { b.workshop with beside := some graph } }

/-- Sets the timeouts, in place of those set before. Reference: `AppBuilder::config`. -/
def withTimeouts (b : Builder σ ι) (timeouts : Timeouts) : Builder σ ι :=
  { b with timeouts }

/-- Sets a function aside to be invoked. Reference: `AppBuilder::invoke`. -/
def invoke (b : Builder σ ι) (invocation : Invocation σ ι) : Builder σ ι :=
  { b with invocations := b.invocations ++ [invocation] }

/-- Invokes functions in turn, up to the first that fails. -/
def invokeAll (note : Notice → σ → σ) (depth : Nat) :
    List (Invocation σ ι) → Workshop σ ι → Outcome GraphError Unit × Workshop σ ι
  | [], w => (.ok (), w)
  | i :: rest, w =>
    match invokeWithin note depth i.name i.inputs i.function w with
    | (.ok _, w) => invokeAll note depth rest w
    | (.error e, w) => (.error e, w)
    | (.interrupted why, w) => (.interrupted why, w)

/-- Builds the application, with calls nested to a depth at most. -/
def buildWithin (b : Builder σ ι) (note : Notice → σ → σ) (depth : Nat) :
    Outcome GraphError Unit × Workshop σ ι :=
  match b.failed with
  | some e => (.error e, b.workshop)
  | none => invokeAll note depth b.invocations b.workshop

/-- Builds the application. Reference: `AppBuilder::build`. -/
def build (b : Builder σ ι) (note : Notice → σ → σ) : Outcome GraphError Unit × Workshop σ ι :=
  b.buildWithin note (b.workshop.graph.size + 1)

end Builder

end ServiceHost
