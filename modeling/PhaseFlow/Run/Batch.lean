import PhaseFlow.Executor.Registry
import PhaseFlow.Run.Pipeline

/-!
# Batches

A batch is a flat list of phases. Each names its executor inside its configuration and
the phases it depends on, which may stand later in the list; a dependency is an edge
with the default stream.
-/

namespace PhaseFlow

/-- One phase of a batch. -/
structure BatchPhase where
  name : String
  phase : String
  config : Json := .emptyObject
  dependencies : List String := []

namespace Batch

/-- The name of the executor that a configuration asks for. -/
def executorName (phase : BatchPhase) : Result String :=
  match phase.config.field? "executor" with
  | none => .ok ""
  | some (.str name) => .ok name
  | some _ => refuse (.batchExecutorNotText phase.name)

/-- The configuration of the node of a phase; null stands for an empty one. -/
def nodeConfig (phase : BatchPhase) : Json :=
  if phase.config.isNull then .emptyObject else phase.config

/-- The graph with the node of a phase. -/
def addPhase
    (registry : Registry)
    (now : Instant)
    (graph : Graph)
    (phase : BatchPhase) :
    Result Graph := do
  let name ← executorName phase
  match registry.resolve name with
  | .error fault => refuse fault
  | .ok capability => graph.addNode phase.name phase.phase (nodeConfig phase) capability now

/-- The graph with the edges of a phase. -/
def addDependencies
    (now : Instant)
    (graph : Graph)
    (phase : BatchPhase) :
    Result Graph :=
  phase.dependencies.foldlM
    (fun graph dependency =>
      (graph.addEdge dependency phase.name .emptyObject now).map Prod.fst) graph

/-- The graph of a batch. -/
def build
    (phases : List BatchPhase)
    (registry : Registry)
    (name freshId : String)
    (now : Instant) :
    Result Graph := do
  let nodes ← phases.foldlM (addPhase registry now) (Graph.create freshId name now)
  phases.foldlM (addDependencies now) nodes

/-- The name of the graph of a batch that names none. -/
def defaultName : String :=
  "batch"

/-- The run of a batch; refused when its graph cannot be built. -/
def run
    (phases : List BatchPhase)
    (input : Json)
    (options : RunOptions)
    (registry : Registry)
    (freshId : String)
    (now : Instant) :
    Result Run.Report :=
  (build phases registry defaultName freshId now).map fun graph =>
    Run.run graph input options [] now

end Batch

end PhaseFlow
