import ServiceHost.Graph.Args

/-!
What a constructor does when it is called, as a tree of requests. It may read and change its
surroundings `σ`, ask a graph for components, register more of them there, and at the end return a
value of type `ι`, fail or panic. Each request is followed by a function of the answer to it.

Three requests that a constructor could make are left out: it invokes no function, and it does not
ask whether a key is registered or how many are.
-/

namespace ServiceHost

/-- The course of one call of a constructor or of an invoked function. -/
inductive Program (σ ι : Type) where
  /-- Returns a value or fails. -/
  | finish (result : Except Failure ι)
  /-- Panics, which no caller on the way out handles. -/
  | panic (text : String)
  /-- Reads the surroundings. -/
  | read (next : σ → Program σ ι)
  /-- Replaces the surroundings. -/
  | write (world : σ) (next : Program σ ι)
  /-- Asks whether a key would be resolved without a constructor being called. -/
  | isCached (key : Key) (next : Bool → Program σ ι)
  /-- Resolves a key. -/
  | resolve (key : Key) (next : Except GraphError (Instance ι) → Program σ ι)
  /-- Registers a value. -/
  | supply (key : Key) (value : ι) (next : Except GraphError Unit → Program σ ι)
  /-- Registers a constructor with its inputs. -/
  | provide (key : Key) (inputs : Inputs) (construct : Args ι → Program σ ι)
      (next : Except GraphError Unit → Program σ ι)

/-- The program makes no request to the graph, on any answer. -/
inductive Program.Detached {σ ι : Type} : Program σ ι → Prop where
  | finish (result : Except Failure ι) : Detached (.finish result)
  | panic (text : String) : Detached (.panic text)
  | read {next : σ → Program σ ι} (h : ∀ world, Detached (next world)) : Detached (.read next)
  | write (world : σ) {next : Program σ ι} (h : Detached next) : Detached (.write world next)

end ServiceHost
