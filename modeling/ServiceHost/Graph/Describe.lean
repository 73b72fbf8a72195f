import ServiceHost.Graph.Basic

/-!
The description of a graph for a reader of diagnostics: a line for each node, which says what it is,
what it needs and whether it is there.
-/

namespace ServiceHost

variable {σ ι : Type}

/-- The description of a node. -/
def Node.describe (key : Key) : Node σ ι → String
  | .value _ => "(value) " ++ key.text
  | .recipe inputs construct cache =>
    "(constructor) " ++ key.text ++ ", deps: [" ++
      Text.join ", " (inputs.map fun p => p.key.text) ++ "], cached: " ++
      toString (Node.recipe inputs construct cache : Node σ ι).isCached

/-- The descriptions of all nodes, in the order of registration. -/
def Graph.describeNodes (g : Graph σ ι) : List String :=
  g.entries.map fun e => e.2.describe e.1

/-- The number of lines that the description of a graph takes: three for a graph without nodes, and
otherwise one a node and four around them. -/
def Graph.descriptionLines (g : Graph σ ι) : Nat :=
  if g.size = 0 then 3 else g.size + 4

end ServiceHost
