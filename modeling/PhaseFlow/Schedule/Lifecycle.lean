import PhaseFlow.Schedule.Order

/-!
# Lifecycle summary

The phases of a graph, the dependencies between them, and the orders in which they are
started and stopped.
-/

namespace PhaseFlow

/-- One dependency between two phases. -/
structure Dependency where
  source : String
  target : String
  stream : String
  active : Bool
  deriving DecidableEq

/-- The dependency that an edge makes. -/
def Dependency.ofEdge (edge : Edge) : Dependency :=
  ⟨edge.source, edge.target, edge.stream, edge.active⟩

/-- The dependency as a JSON object. -/
def Dependency.toJson (dependency : Dependency) : Json :=
  .object [("source", .str dependency.source), ("target", .str dependency.target),
    ("stream", .str dependency.stream), ("active", .bool dependency.active)]

/-- The summary of a graph: the nodes, ascending, a dependency for each edge, in the
order of the edge ids, and the orders of starting and of stopping. -/
structure Lifecycle where
  phases : List String
  dependencies : List Dependency
  startup : List String
  shutdown : List String

namespace Lifecycle

/-- The summary of a graph that has an execution order. -/
def ofGraph (graph : Graph) : Result Lifecycle :=
  (Schedule.executionOrder graph).map fun order =>
    { phases := graph.nodes.keys
      dependencies := graph.edges.values.map Dependency.ofEdge
      startup := order
      shutdown := order.reverse }

/-- The summary as a JSON object. -/
def toJson (summary : Lifecycle) : Json :=
  .object [("phases", Json.texts summary.phases),
    ("dependencies", .arr (summary.dependencies.map Dependency.toJson)),
    ("startup_order", Json.texts summary.startup),
    ("shutdown_order", Json.texts summary.shutdown)]

end Lifecycle

end PhaseFlow
