import PhaseFlow.Proofs.Graph.Operation

/-!
# Operations that change a graph in place

An operation that works on a graph in place reads it, writes it, and may raise at any
point; what it has written by then stays written. So a refused operation leaves the
graph as it was only if every check comes before the first write.

`Graph.Operation.perform` is each operation as a sequence of checks and writes.

Main statement: `on_perform`, each operation does in place what `Graph.attempt` answers,
all of it or nothing.
-/

namespace PhaseFlow

/-- What is done to a graph in place. Raising an error does not take back what has been
written. -/
abbrev InPlace (α : Type) :=
  ExceptT Error (StateM Graph) α

namespace InPlace

variable {α β : Type}

/-- The answer, and the graph that is left. -/
def on (program : InPlace α) (graph : Graph) : Except Error α × Graph :=
  program.run.run graph

/-- Raises an error unless a condition holds. -/
def require (condition : Bool) (error : Error) : InPlace Unit :=
  if condition then pure () else throw error

/-- Goes on with settings that have been accepted. -/
def accept (settings : Except ConfigurationFault α) : InPlace α :=
  match settings with
  | .ok value => pure value
  | .error fault => throw (.configuration fault)

/-- Writes the graph. -/
def write (change : Graph → Graph) : InPlace Unit :=
  modify change

/-- A program goes on from what the one before it has left; a refused one leaves what it
has written. -/
@[simp] theorem on_bind (program : InPlace α) (next : α → InPlace β) (graph : Graph) :
    (program >>= next).on graph =
      match program.on graph with
      | (.ok value, left) => (next value).on left
      | (.error error, left) => (.error error, left) := by
  have hbind : (program >>= next).on graph =
      (match program.on graph with
        | (result, left) => (ExceptT.bindCont next result).run left) := rfl
  rw [hbind]
  cases program.on graph with
  | mk result left => cases result <;> rfl

@[simp] theorem on_pure
    (value : α)
    (graph : Graph) :
    (pure value : InPlace α).on graph = (.ok value, graph) :=
  rfl

@[simp] theorem on_get
    (graph : Graph) :
    (get : InPlace Graph).on graph = (.ok graph, graph) :=
  rfl

/-- A requirement writes nothing, whether it holds or not. -/
@[simp] theorem on_require
    (condition : Bool)
    (error : Error)
    (graph : Graph) :
    (require condition error).on graph =
      (if condition then .ok () else .error error, graph) := by
  cases condition <;> rfl

@[simp] theorem on_accept
    (settings : Except ConfigurationFault α)
    (graph : Graph) :
    (accept settings).on graph = (settings.mapError .configuration, graph) := by
  cases settings <;> rfl

@[simp] theorem on_write
    (change : Graph → Graph)
    (graph : Graph) :
    (write change).on graph = (.ok (), change graph) :=
  rfl

end InPlace

namespace Graph

open InPlace

/-! ## The operations, step by step -/

/-- A node that is given in full. -/
def insertNodeInPlace (node : Node) : InPlace Unit := do
  require (node.id != "") (.configuration .emptyNodeId)
  require (!(← get).hasNode node.id) (.duplicateNode node.id)
  write fun graph => { graph with nodes := graph.nodes.insert node.id node }

/-- A new node. -/
def addNodeInPlace
    (id phase : String)
    (config : Json)
    (executor : Capability)
    (now : Instant) :
    InPlace Unit := do
  require (id != "") (.configuration .emptyNodeId)
  require (config.isObject || config.isNull) (.configuration (.nodeConfigNotObject id))
  insertNodeInPlace
    (Node.fresh id phase (if config.isObject then config else .emptyObject) executor now)

/-- Another executor at a node. -/
def setExecutorInPlace (id : String) (executor : Capability) : InPlace Unit := do
  require ((← get).hasNode id) (.unknownNode "get-node" id)
  write fun graph => graph.modifyNode id fun node => { node with executor := executor }

/-- A node less, and then its edges. -/
def removeNodeInPlace (id : String) : InPlace Unit := do
  require ((← get).hasNode id) (.unknownNode "remove-node" id)
  write fun graph => { graph with nodes := graph.nodes.erase id }
  write fun graph =>
    { graph with edges := graph.edges.filter fun _ edge => !edge.touches id }

/-- An edge that is given in full. -/
def insertEdgeInPlace (edge : Edge) : InPlace Unit := do
  require ((← get).hasNode edge.source) (.unknownNode "add-edge" edge.source)
  require ((← get).hasNode edge.target) (.unknownNode "add-edge" edge.target)
  write fun graph =>
    { graph with edges := graph.edges.insert edge.normalized.id edge.normalized }

/-- A new edge. -/
def addEdgeInPlace
    (source target : String)
    (config : Json)
    (now : Instant) :
    InPlace Unit := do
  require (config.isObject || config.isNull) (.configuration .edgeConfigNotObject)
  let stream ← accept (streamOf config)
  let settings ← accept (StreamSettings.ofJson config)
  insertEdgeInPlace (Edge.fresh source target stream settings now)

/-- What an operation does to a graph in place. -/
def Operation.perform : Operation → InPlace Unit
  | .addNode id phase config executor now => addNodeInPlace id phase config executor now
  | .insertNode node => insertNodeInPlace node
  | .setExecutor id executor => setExecutorInPlace id executor
  | .removeNode id => removeNodeInPlace id
  | .addEdge source target config now => addEdgeInPlace source target config now
  | .insertEdge edge => insertEdgeInPlace edge
  | .removeEdge id => write fun graph => graph.removeEdge id
  | .editNode id change _ => write fun graph => graph.modifyNode id change
  | .editEdge id change _ => write fun graph => graph.modifyEdge id change
  | .describe metadata => write fun graph => { graph with metadata := metadata }
  | .setState state => write fun graph => { graph with state := state }
  | .reset => write Graph.reset

/-! ## All or nothing -/

/-- What is left of an operation that either changes a graph as answered or not at
all. -/
def settle (graph : Graph) : Result Graph → Except Error Unit × Graph
  | .ok next => (.ok (), next)
  | .error error => (.error error, graph)

/-- The writes of an insertion leave what the operation returns, or the graph as it
was. -/
theorem on_insertNodeInPlace
    (graph : Graph)
    (node : Node) :
    (insertNodeInPlace node).on graph = graph.settle (graph.insertNode node) := by
  unfold insertNodeInPlace insertNode
  by_cases hid : node.id = ""
  · simp [hid, settle, refuse]
  · cases hnode : graph.hasNode node.id <;> simp [hid, hnode, settle]

theorem on_addNodeInPlace
    (graph : Graph)
    (id phase : String)
    (config : Json)
    (executor : Capability)
    (now : Instant) :
    (addNodeInPlace id phase config executor now).on graph =
      graph.settle (graph.addNode id phase config executor now) := by
  unfold addNodeInPlace addNode
  by_cases hid : id = ""
  · simp [hid, settle, refuse]
  · cases config <;>
      simp [hid, Json.isObject, Json.isNull, on_insertNodeInPlace, settle, refuse]

theorem on_setExecutorInPlace
    (graph : Graph)
    (id : String)
    (executor : Capability) :
    (setExecutorInPlace id executor).on graph =
      graph.settle (graph.setExecutor id executor) := by
  unfold setExecutorInPlace setExecutor node nodeFor hasNode KeyMap.contains
  cases hnode : graph.nodes.get? id <;> simp [hnode, settle, Except.map]

/-- The node is erased before its edges, and nothing is erased if there is no node. -/
theorem on_removeNodeInPlace
    (graph : Graph)
    (id : String) :
    (removeNodeInPlace id).on graph =
      graph.settle ((graph.removeNode id).map Prod.fst) := by
  unfold removeNodeInPlace removeNode nodeFor hasNode KeyMap.contains
  cases hnode : graph.nodes.get? id <;> simp [hnode, settle, Except.map]

theorem on_insertEdgeInPlace
    (graph : Graph)
    (edge : Edge) :
    (insertEdgeInPlace edge).on graph =
      graph.settle ((graph.insertEdge edge).map Prod.fst) := by
  have hanswer : graph.insertEdge edge =
      if (graph.nodes.get? edge.source).isNone then .error
        (.unknownNode "add-edge" edge.source)
      else if (graph.nodes.get? edge.target).isNone then .error
        (.unknownNode "add-edge" edge.target)
      else .ok ({ graph with
        edges := graph.edges.insert edge.normalized.id edge.normalized },
          edge.normalized) := by
    unfold insertEdge nodeFor
    cases graph.nodes.get? edge.source <;> cases graph.nodes.get? edge.target <;> rfl
  rw [hanswer]
  unfold insertEdgeInPlace hasNode KeyMap.contains
  cases hsource : graph.nodes.get? edge.source with
  | none => simp [hsource, settle, Except.map]
  | some source =>
      cases htarget : graph.nodes.get? edge.target <;>
        simp [hsource, htarget, settle, Except.map]

/-- Every check of an edge that is added comes before its only write. -/
theorem on_addEdgeInPlace
    (graph : Graph)
    (source target : String)
    (config : Json)
    (now : Instant) :
    (addEdgeInPlace source target config now).on graph =
      graph.settle ((graph.addEdge source target config now).map Prod.fst) := by
  unfold addEdgeInPlace addEdge
  cases config.isObject || config.isNull with
  | false => simp [settle, refuse, Except.map]
  | true =>
      cases streamOf config with
      | error fault => rfl
      | ok stream =>
          cases StreamSettings.ofJson config with
          | error fault => rfl
          | ok settings => exact on_insertEdgeInPlace graph _

/-- **An operation is done in place as it is answered, or nothing is done.** -/
theorem on_perform
    (graph : Graph)
    (operation : Operation) :
    operation.perform.on graph = graph.settle (graph.attempt operation) := by
  cases operation with
  | addNode id phase config executor now =>
      exact on_addNodeInPlace graph id phase config executor now
  | insertNode node => exact on_insertNodeInPlace graph node
  | setExecutor id executor => exact on_setExecutorInPlace graph id executor
  | removeNode id => exact on_removeNodeInPlace graph id
  | addEdge source target config now =>
      exact on_addEdgeInPlace graph source target config now
  | insertEdge edge => exact on_insertEdgeInPlace graph edge
  | _ => rfl

end Graph

end PhaseFlow
