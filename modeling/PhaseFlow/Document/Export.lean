import PhaseFlow.Graph.Store

/-!
# Graphs as documents

A document is a JSON object that holds everything about a graph except the functions of
its executors, which are named. Moments are whole milliseconds.
-/

namespace PhaseFlow

namespace Document

/-- The name of the format. -/
def format : String :=
  "phasegraph/1"

/-- A moment in a document. -/
def ofInstant (instant : Instant) : Json :=
  .int instant.toMilliseconds.toInt

/-- A counter in a document. -/
def ofCounter (count : UInt64) : Json :=
  .int count.toNat

/-- A node in a document. -/
def ofNode (node : Node) : Json :=
  .object [("id", .str node.id), ("phase", .str node.phase), ("config", node.config),
    ("executor", .str node.executor.name), ("status", .str node.status.name),
    ("created_at", ofInstant node.createdAt),
    ("last_run", (node.lastRun.map ofInstant).getD .null),
    ("run_count", ofCounter node.runCount), ("error_count", ofCounter node.errorCount)]

/-- An edge in a document. -/
def ofEdge (edge : Edge) : Json :=
  .object [("id", .str edge.id), ("source", .str edge.source), ("target", .str edge.target),
    ("stream", .str edge.stream), ("config", edge.settings.toJson),
      ("active", .bool edge.active),
    ("messages_passed", ofCounter edge.messages),
      ("bytes_transferred", ofCounter edge.bytes),
    ("created_at", ofInstant edge.createdAt)]

/-- The metadata of a graph in a document. -/
def ofMetadata (metadata : Metadata) : Json :=
  .object [("name", .str metadata.name), ("version", .str metadata.version),
    ("created_at", ofInstant metadata.createdAt)]

/-- The state of the latest run in a document. -/
def ofState (state : RunState) : Json :=
  .object [("running", .bool state.running), ("current_phase", .str state.currentPhase),
    ("execution_order", Json.texts state.executionOrder),
      ("last_error", .str state.lastError)]

/-- **The document of a graph.** -/
def ofGraph (graph : Graph) : Json :=
  .object [("format", .str format), ("id", .str graph.id),
    ("metadata", ofMetadata graph.metadata), ("state", ofState graph.state),
    ("nodes", .arr (graph.nodes.values.map ofNode)),
    ("edges", .arr (graph.edges.values.map ofEdge))]

/-- The document of a graph as a text, compact for a negative indentation. -/
def textOf (graph : Graph) (indentation : Int) : String :=
  (ofGraph graph).text indentation

end Document

end PhaseFlow
