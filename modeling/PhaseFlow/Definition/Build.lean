import PhaseFlow.Definition.Entries
import PhaseFlow.Executor.Registry

/-!
# Graphs of definitions

The graph of a definition has one node for each phase, one edge with the default stream
for each dependency, and the explicit edges. An explicit edge replaces the edge of a
dependency if both have the same stream.
-/

namespace PhaseFlow

namespace Definition

/-- The graph with the node of a phase. -/
def addPhase
    (registry : Registry)
    (now : Instant)
    (graph : Graph)
    (phase : PhaseEntry) :
    Result Graph :=
  match registry.resolve phase.executor with
  | .error fault => refuse fault
  | .ok capability => graph.addNode phase.name phase.phase phase.config capability now

/-- The graph with the edges of the dependencies of a phase. -/
def addDependencies
    (now : Instant)
    (graph : Graph)
    (phase : PhaseEntry) :
    Result Graph :=
  phase.dependencies.foldlM
    (fun graph dependency =>
      (graph.addEdge dependency phase.name .emptyObject now).map Prod.fst) graph

/-- The graph with an explicit edge. -/
def addEdge (now : Instant) (graph : Graph) (edge : EdgeEntry) : Result Graph :=
  (graph.addEdge edge.source edge.target edge.config now).map Prod.fst

/-- **The graph of a definition.** -/
def build
    (definition : Definition)
    (registry : Registry)
    (freshId : String)
    (now : Instant) :
    Result Graph := do
  let empty := Graph.create freshId definition.name now
  let nodes ← definition.phases.foldlM (addPhase registry now) empty
  let joined ← definition.phases.foldlM (addDependencies now) nodes
  definition.edges.foldlM (addEdge now) joined

end Definition

end PhaseFlow
