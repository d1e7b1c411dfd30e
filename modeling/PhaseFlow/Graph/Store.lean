import PhaseFlow.Graph.Edge
import PhaseFlow.Graph.Node
import PhaseFlow.KeyMap

/-!
# Graphs

A graph holds nodes by id and edges by id, descriptive metadata, and the state of its
latest run. Operations return the changed graph; an operation that is refused returns no
graph, so nothing has changed.
-/

namespace PhaseFlow

/-- Descriptive data of a graph. -/
structure Metadata where
  name : String
  version : String
  createdAt : Instant
  deriving DecidableEq

/-- The version of a graph that names none. -/
def Metadata.defaultVersion : String :=
  "1.0.0"

/-- The state of the latest run of a graph. The nodes being executed are joined by
commas. -/
structure RunState where
  running : Bool := false
  currentPhase : String := ""
  executionOrder : List String := []
  lastError : String := ""
  deriving DecidableEq

/-- A pipeline: nodes joined by named streams. -/
structure Graph where
  id : String
  metadata : Metadata
  nodes : KeyMap Node := KeyMap.empty
  edges : KeyMap Edge := KeyMap.empty
  state : RunState := {}

/-- Sums over a graph, those of counters modulo `2 ^ 64`. The categories of the phases
ascend. -/
structure GraphStats where
  nodes : Nat
  edges : Nat
  phases : List String
  running : Bool
  runs : UInt64
  errors : UInt64
  messages : UInt64
  bytes : UInt64

namespace Graph

/-- The empty graph of a name, with a fresh id. -/
def create (freshId name : String) (now : Instant) : Graph :=
  { id := freshId
    metadata := ⟨name, Metadata.defaultVersion, now⟩ }

/-- The empty graph of a known id and metadata; an empty id is replaced by a fresh
one. -/
def restore (freshId id : String) (metadata : Metadata) : Graph :=
  { id := if id = "" then freshId else id
    metadata := metadata }

/-! ## Nodes -/

/-- Whether a node is present. -/
def hasNode (graph : Graph) (id : String) : Bool :=
  graph.nodes.contains id

/-- The node of an id; `operation` is the label of a refusal. -/
def nodeFor (graph : Graph) (operation id : String) : Result Node :=
  match graph.nodes.get? id with
  | some node => .ok node
  | none => .error (.unknownNode operation id)

/-- The node of an id. -/
def node (graph : Graph) (id : String) : Result Node :=
  graph.nodeFor "get-node" id

/-- The graph with a node that is given in full. -/
def insertNode (graph : Graph) (node : Node) : Result Graph :=
  if node.id = "" then refuse .emptyNodeId
  else if graph.hasNode node.id then .error (.duplicateNode node.id)
  else .ok { graph with nodes := graph.nodes.insert node.id node }

/-- The graph with a new node. A null configuration stands for an empty one. -/
def addNode
    (graph : Graph)
    (id phase : String)
    (config : Json)
    (executor : Capability)
    (now : Instant) :
    Result Graph :=
  if id = "" then refuse .emptyNodeId
  else
    match config with
    | .obj _ => graph.insertNode (Node.fresh id phase config executor now)
    | .null => graph.insertNode (Node.fresh id phase .emptyObject executor now)
    | _ => refuse (.nodeConfigNotObject id)

/-- The graph with the node of an id changed. -/
def modifyNode (graph : Graph) (id : String) (change : Node → Node) : Graph :=
  { graph with nodes := graph.nodes.modify id change }

/-- The graph with another executor at a node. -/
def setExecutor
    (graph : Graph)
    (id : String)
    (executor : Capability) :
    Result Graph :=
  (graph.node id).map fun _ =>
    graph.modifyNode id fun node => { node with executor := executor }

/-- The graph without a node and the edges at it, and the number of these edges. -/
def removeNode (graph : Graph) (id : String) : Result (Graph × Nat) :=
  (graph.nodeFor "remove-node" id).map fun _ =>
    let kept := graph.edges.filter fun _ edge => !edge.touches id
    ({ graph with
        nodes := graph.nodes.erase id
        edges := kept }, graph.edges.size - kept.size)

/-! ## Edges -/

/-- Whether an edge is present. -/
def hasEdge (graph : Graph) (id : String) : Bool :=
  graph.edges.contains id

/-- The edge of an id. -/
def edge (graph : Graph) (id : String) : Result Edge :=
  match graph.edges.get? id with
  | some edge => .ok edge
  | none => .error (.unknownEdge id)

/-- The graph with an edge that is given in full but for its id; an edge of the same id
is replaced. Also returns the edge as stored. -/
def insertEdge (graph : Graph) (edge : Edge) : Result (Graph × Edge) := do
  let _ ← graph.nodeFor "add-edge" edge.source
  let _ ← graph.nodeFor "add-edge" edge.target
  let stored := edge.normalized
  .ok ({ graph with edges := graph.edges.insert stored.id stored }, stored)

/-- The stream that an edge configuration names. -/
def streamOf (config : Json) : Except ConfigurationFault String :=
  match config.field? "stream" with
  | none => .ok Edge.defaultStream
  | some (.str stream) => if stream = "" then .error .badStream else .ok stream
  | some _ => .error .badStream

/-- The graph with a new edge, whose stream and settings stand in a configuration. Also
returns the edge as stored. -/
def addEdge
    (graph : Graph)
    (source target : String)
    (config : Json)
    (now : Instant) :
    Result (Graph × Edge) :=
  if config.isObject || config.isNull then
    match streamOf config with
    | .error fault => refuse fault
    | .ok stream =>
        match StreamSettings.ofJson config with
        | .error fault => refuse fault
        | .ok settings => graph.insertEdge (Edge.fresh source target stream settings now)
  else refuse .edgeConfigNotObject

/-- The graph with the edge of an id changed. -/
def modifyEdge (graph : Graph) (id : String) (change : Edge → Edge) : Graph :=
  { graph with edges := graph.edges.modify id change }

/-- The graph without an edge. -/
def removeEdge (graph : Graph) (id : String) : Graph :=
  { graph with edges := graph.edges.erase id }

/-! ## The whole graph -/

/-- The sums over a graph. -/
def stats (graph : Graph) : GraphStats :=
  let nodes := graph.nodes.values
  let edges := graph.edges.values
  { nodes := nodes.length
    edges := edges.length
    phases := KeyMap.distinct (nodes.map Node.phase)
    running := graph.state.running
    runs := (nodes.map Node.runCount).foldl (· + ·) 0
    errors := (nodes.map Node.errorCount).foldl (· + ·) 0
    messages := (edges.map Edge.messages).foldl (· + ·) 0
    bytes := (edges.map Edge.bytes).foldl (· + ·) 0 }

/-- The graph as if it had never been run. -/
def reset (graph : Graph) : Graph :=
  { graph with
    nodes := graph.nodes.map Node.reset
    edges := graph.edges.map Edge.reset
    state := {} }

end Graph

end PhaseFlow
