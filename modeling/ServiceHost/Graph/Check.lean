import ServiceHost.Graph.Basic

/-!
The check that comes before any constructor is called. It walks the inputs of a node, depth first,
through constructors whose component is not there yet, and fails at the first required input that is
not registered and at the first input that leads back to a node on the way to it. A node is expanded
once: those that were walked to the end are remembered.

The walk is given a depth. The nodes on the way to a node have distinct registered keys, so the
number of nodes is depth enough.
-/

namespace ServiceHost

/-- The error for an input that leads back to `key`, which stands on the way `path`.
Reference: `circular`. -/
def circular (path : List Key) (key : Key) : GraphError :=
  .circularDependency (cycleText (path.dropWhile (· != key) ++ [key]))

namespace Graph

variable {σ ι : Type}

/-- The first required input that is not registered. -/
def firstMissing (g : Graph σ ι) (inputs : Inputs) : Option Param :=
  inputs.find? fun p => !p.optional && !g.contains p.key

/-- Walks inputs one after another, each that is registered by `visit`.
Reference: `Graph::visit`. -/
def visitInputs (g : Graph σ ι) (path : List Key)
    (visit : Key → Node σ ι → List Key → Except GraphError (List Key)) :
    Inputs → List Key → Except GraphError (List Key)
  | [], done => .ok done
  | p :: rest, done =>
    if p.key ∈ path then .error (circular path p.key)
    else match g.node? p.key with
      | none => visitInputs g path visit rest done
      | some node =>
        match visit p.key node done with
        | .ok done => visitInputs g path visit rest done
        | .error e => .error e

/-- Walks a node to the end. Returns the nodes that have been. Reference: `Graph::visit`. -/
def visit (g : Graph σ ι) : Nat → List Key → Key → Node σ ι → List Key →
    Except GraphError (List Key)
  | depth, path, key, node, done =>
    if key ∈ done || node.isCached then .ok done
    else match node, depth with
      | .value _, _ => .ok done
      | .recipe _ _ _, 0 => .ok done
      | .recipe inputs _ _, depth + 1 =>
        match g.firstMissing inputs with
        | some p => .error (.missingDependency p.key (some key))
        | none =>
          match g.visitInputs (path ++ [key]) (g.visit depth (path ++ [key])) inputs done with
          | .ok done => .ok (done ++ [key])
          | .error e => .error e

/-- Fails if something that the node needs is missing or leads back to itself.
Reference: `Graph::verify`. -/
def verify (g : Graph σ ι) (key : Key) (node : Node σ ι) : Except GraphError Unit :=
  match g.visit g.size [] key node [] with
  | .ok _ => .ok ()
  | .error e => .error e

end Graph

end ServiceHost
