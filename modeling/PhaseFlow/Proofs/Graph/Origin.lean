import PhaseFlow.Definition.Build
import PhaseFlow.Document.Import
import PhaseFlow.Identifier
import PhaseFlow.Proofs.Definition.Stamps
import PhaseFlow.Proofs.Run.Record
import PhaseFlow.Proofs.Schedule.Tables
import PhaseFlow.Run.Batch

/-!
# Where graphs come from

A graph is made empty, read from a document, or built from a definition or a batch, and
then it is changed and run. All this can be done by operations: documents, definitions
and batches insert node after node and edge after edge, and a run, however it ends,
edits the statistics of the nodes and edges and the state. So every graph obtained is
reachable (`Obtained.reachable`), and it is well-formed.

Main statement: `obtained_well_formed`.
-/

namespace PhaseFlow

/-! ## Identifiers -/

namespace Identifier

/-- A text that is made of sixteen random bytes. -/
def Drawn (text : String) : Prop :=
  ∃ bytes : List UInt8, bytes.length = 16 ∧ text = version4 bytes

/-- An identifier that is drawn is not empty. -/
theorem Drawn.ne_empty {text : String} (h : Drawn text) : text ≠ "" := by
  obtain ⟨bytes, hlength, rfl⟩ := h
  cases bytes with
  | nil => cases hlength
  | cons byte rest =>
      intro hempty
      have hlist := congrArg String.toList hempty
      simp [version4, digitsFrom, startsGroup, byteDigits] at hlist

end Identifier

namespace Graph

/-! ## Accepted operations -/

/-- An accepted operation leads to a reachable graph. -/
theorem Reachable.attempt
    {graph next : Graph}
    (h : graph.Reachable)
    (operation : Operation)
    (hnext : graph.attempt operation = .ok next) :
    next.Reachable := by
  have happly : graph.apply operation = next := by
    unfold Graph.apply
    rw [hnext]
  rw [← happly]
  exact h.apply operation

theorem Reachable.addNode
    {graph next : Graph}
    (h : graph.Reachable)
    {id phase : String} {config : Json} {executor : Capability} {now : Instant}
    (hnext : graph.addNode id phase config executor now = .ok next) :
    next.Reachable :=
  h.attempt (.addNode id phase config executor now) hnext

theorem Reachable.addEdge
    {graph next : Graph}
    (h : graph.Reachable)
    {source target : String} {config : Json} {now : Instant}
    (hnext : (graph.addEdge source target config now).map Prod.fst = .ok next) :
    next.Reachable :=
  h.attempt (.addEdge source target config now) hnext

/-- One edge with the default stream for each dependency. -/
theorem Reachable.addDependencies
    {graph next : Graph}
    (h : graph.Reachable)
    {dependencies : List String} {target : String} {now : Instant}
    (hnext :
        dependencies.foldlM (fun graph source =>
            (graph.addEdge source target .emptyObject now).map Prod.fst) graph =
          .ok next) :
    next.Reachable :=
  Answer.foldlM_induction (fun _ _ _ hgraph hedge => hgraph.addEdge hedge)
    dependencies h hnext

/-! ## Edits of all nodes and all edges -/

variable {nodeChange : String → Node → Node} {edgeChange : String → Edge → Edge}

/-- Changes of distinct nodes are one change of all of them. -/
theorem after_editNodes
    (hkeeps : ∀ id node, (nodeChange id node).id = node.id) :
    ∀ (ids : List String) (graph : Graph),
      graph.after (ids.map fun id => .editNode id (nodeChange id) (hkeeps id)) =
        { graph with
          nodes :=
            ids.foldl (fun nodes id => nodes.modify id (nodeChange id)) graph.nodes }
  | [], _ => rfl
  | id :: rest, graph => after_editNodes hkeeps rest (graph.modifyNode id (nodeChange id))

theorem after_editEdges
    (hkeeps :
        ∀ id edge,
          (edgeChange id edge).id = edge.id ∧
          (edgeChange id edge).triple = edge.triple) :
    ∀ (ids : List String) (graph : Graph),
      graph.after (ids.map fun id => .editEdge id (edgeChange id) (hkeeps id)) =
        { graph with
          edges :=
            ids.foldl (fun edges id => edges.modify id (edgeChange id)) graph.edges }
  | [], _ => rfl
  | id :: rest, graph => after_editEdges hkeeps rest (graph.modifyEdge id (edgeChange id))

/-- Whatever changes nodes and edges within their identity, and the state, is a history
of edits. -/
theorem Reachable.of_edits
    {graph next : Graph}
    (h : graph.Reachable)
    (hid : next.id = graph.id)
    (hmetadata : next.metadata = graph.metadata)
    (hnode : ∀ id node, (nodeChange id node).id = node.id)
    (hnodes : ∀ id, next.nodes.get? id = (graph.nodes.get? id).map (nodeChange id))
    (hedge :
        ∀ id edge,
          (edgeChange id edge).id = edge.id ∧
          (edgeChange id edge).triple = edge.triple)
    (hedges : ∀ id, next.edges.get? id = (graph.edges.get? id).map (edgeChange id)) :
    next.Reachable := by
  have hedited := ((h.after (graph.nodes.keys.map fun id =>
    .editNode id (nodeChange id) (hnode id))).after (graph.edges.keys.map fun id =>
      .editEdge id (edgeChange id) (hedge id))).apply (.setState next.state)
  rw [after_editNodes, after_editEdges, KeyMap.foldl_modify_keys hnodes] at hedited
  obtain ⟨id, metadata, nodes, edges, state⟩ := next
  dsimp only at hid hmetadata hedges
  subst hid hmetadata
  rw [KeyMap.foldl_modify_keys hedges] at hedited
  exact hedited

/-- **A run is a history of edits**, however it ends. -/
theorem Reachable.run
    {graph : Graph}
    (h : graph.Reachable)
    (input : Json)
    (options : RunOptions)
    (observers : Run.Observers)
    (now : Instant) :
    (Run.run graph input options observers now).graph.Reachable := by
  obtain ⟨outcomes, hrecorded⟩ :=
    Run.recorded_of_run h.wellFormed input options observers now
  have hid := congrArg Graph.id hrecorded.reset
  have hmetadata := congrArg Graph.metadata hrecorded.reset
  have hnode : ∀ id node, (Run.nodeOf now outcomes [] id node).id = node.id := by
    intro id node
    have hreset : (Run.nodeOf now outcomes [] id node).reset = node.reset :=
      Run.reset_nodeOf id node
    have hsame := congrArg Node.id hreset
    exact hsame
  have hedge : ∀ edge, (Run.edgeAfter outcomes edge).id = edge.id ∧
      (Run.edgeAfter outcomes edge).triple = edge.triple := by
    intro edge
    have hreset : (Run.edgeAfter outcomes edge).reset = edge.reset :=
      Run.reset_edgeAfter edge
    have hsame := congrArg Edge.id hreset
    have htriple := congrArg Edge.triple hreset
    exact ⟨hsame, htriple⟩
  exact h.of_edits hid hmetadata hnode hrecorded.nodes (fun _ => hedge) hrecorded.edges

end Graph

/-! ## Documents, definitions and batches -/

namespace Document

variable {registry : Registry} {now : Instant} {graph next : Graph}

theorem reachable_addNode
    {entry : Json}
    (h : graph.Reachable)
    (hnext : addNode registry now graph entry = .ok next) :
    next.Reachable := by
  obtain ⟨node, -, hinsert⟩ := Answer.bind_eq_ok_iff.1 hnext
  refine h.attempt (.insertNode node) ?_
  exact Answer.mapError_eq_ok_iff.1 hinsert

theorem reachable_addEdge
    {entry : Json}
    (h : graph.Reachable)
    (hnext : addEdge now graph entry = .ok next) :
    next.Reachable := by
  obtain ⟨edge, -, hinsert⟩ := Answer.bind_eq_ok_iff.1 hnext
  obtain ⟨answer, hanswer, rfl⟩ := Answer.map_eq_ok_iff.1 hinsert
  refine h.attempt (.insertEdge edge) (Answer.map_eq_ok_iff.2 ⟨answer, ?_, rfl⟩)
  exact Answer.mapError_eq_ok_iff.1 hanswer

/-- A graph that is imported is reachable. -/
theorem reachable_toGraph
    {freshId : String}
    (hfresh : freshId ≠ "")
    {document : Json}
    (h : toGraph registry freshId now document = .ok graph) :
    graph.Reachable := by
  rw [toGraph_of_formatObjection (formatObjection_default _)] at h
  have hread : toGraph? registry freshId now document = .ok graph :=
    Answer.mapError_eq_ok_iff.1 h
  unfold toGraph? at hread
  split at hread
  · cases hread
  · obtain ⟨-, -, hread⟩ := Answer.bind_eq_ok_iff.1 hread
    obtain ⟨metadata, -, hread⟩ := Answer.bind_eq_ok_iff.1 hread
    obtain ⟨id, -, hread⟩ := Answer.bind_eq_ok_iff.1 hread
    obtain ⟨state, -, hread⟩ := Answer.bind_eq_ok_iff.1 hread
    obtain ⟨nodes, hnodes, hedges⟩ := Answer.bind_eq_ok_iff.1 hread
    have hempty := (Graph.Reachable.restore id metadata hfresh).apply (.setState state)
    have hinserted := Answer.foldlM_induction
      (fun _ _ _ hgraph hnode => reachable_addNode hgraph hnode) (entriesOf document "nodes")
      hempty hnodes
    exact Answer.foldlM_induction
      (fun _ _ _ hgraph hedge => reachable_addEdge hgraph hedge) (entriesOf document "edges")
      hinserted hedges

end Document

namespace Definition

variable {registry : Registry} {now : Instant} {graph : Graph}

/-- A graph that is built is reachable. -/
theorem reachable_build
    {definition : Definition} {freshId : String}
    (hfresh : freshId ≠ "")
    (h : definition.build registry freshId now = .ok graph) :
    graph.Reachable :=
  build_induction (Graph.Reachable.create definition.name now hfresh)
    (fun hgraph hnext => hgraph.addNode hnext) (fun hgraph hnext => hgraph.addEdge hnext) h

end Definition

namespace Batch

variable {registry : Registry} {now : Instant} {graph next : Graph}

theorem reachable_addPhase
    {phase : BatchPhase}
    (h : graph.Reachable)
    (hnext : addPhase registry now graph phase = .ok next) :
    next.Reachable := by
  obtain ⟨name, -, hnext⟩ := Answer.bind_eq_ok_iff.1 hnext
  split at hnext
  · cases hnext
  · exact h.addNode hnext

theorem reachable_build
    {phases : List BatchPhase} {name freshId : String}
    (hfresh : freshId ≠ "")
    (h : build phases registry name freshId now = .ok graph) :
    graph.Reachable := by
  obtain ⟨nodes, hnodes, hedges⟩ := Answer.bind_eq_ok_iff.1 h
  have hempty := Graph.Reachable.create name now hfresh
  have hphases := Answer.foldlM_induction
    (fun _ _ _ hgraph hphase => reachable_addPhase hgraph hphase) phases hempty hnodes
  exact Answer.foldlM_induction
    (fun _ _ _ hgraph hphase => hgraph.addDependencies hphase) phases hphases hedges

end Batch

/-! ## Graphs that are obtained -/

namespace Graph

/-- The graphs that are made, changed and run. Fresh ids are drawn at random, and
whoever changes a graph keeps what identifies its nodes and edges. -/
inductive Obtained : Graph → Prop
  | created
      {freshId : String}
      (hfresh : Identifier.Drawn freshId)
      (name : String)
      (now : Instant) :
      Obtained (Graph.create freshId name now)
  | restored
      {freshId : String}
      (hfresh : Identifier.Drawn freshId)
      (id : String)
      (metadata : Metadata) :
      Obtained (Graph.restore freshId id metadata)
  | imported
      {freshId : String}
      (hfresh : Identifier.Drawn freshId)
      {registry : Registry} {now : Instant} {document : Json} {graph : Graph}
      (h : Document.toGraph registry freshId now document = .ok graph) :
      Obtained graph
  | built
      {freshId : String}
      (hfresh : Identifier.Drawn freshId)
      {registry : Registry} {now : Instant} {definition : Definition}
      {graph : Graph}
      (h : definition.build registry freshId now = .ok graph) :
      Obtained graph
  | batched
      {freshId : String}
      (hfresh : Identifier.Drawn freshId)
      {registry : Registry} {now : Instant} {phases : List BatchPhase}
      {name : String} {graph : Graph}
      (h : Batch.build phases registry name freshId now = .ok graph) :
      Obtained graph
  | changed
      {graph : Graph}
      (h : Obtained graph)
      (operation : Operation) :
      Obtained (graph.apply operation)
  | ran
      {graph : Graph}
      (h : Obtained graph)
      (input : Json)
      (options : RunOptions)
      (observers : Run.Observers)
      (now : Instant) :
      Obtained (Run.run graph input options observers now).graph

/-- **Operations build whatever is obtained.** -/
theorem Obtained.reachable
    {graph : Graph}
    (h : graph.Obtained) :
    graph.Reachable := by
  induction h with
  | created hfresh name now => exact .create name now hfresh.ne_empty
  | restored hfresh id metadata => exact .restore id metadata hfresh.ne_empty
  | imported hfresh h => exact Document.reachable_toGraph hfresh.ne_empty h
  | built hfresh h => exact Definition.reachable_build hfresh.ne_empty h
  | batched hfresh h => exact Batch.reachable_build hfresh.ne_empty h
  | changed _ operation ih => exact ih.apply operation
  | ran _ input options observers now ih => exact ih.run input options observers now

/-- **Every graph obtained is well-formed**, and the tables from which the scheduler
places its nodes have the nodes as their keys before the first round and after any
number of them. -/
theorem obtained_well_formed
    {graph : Graph}
    (h : graph.Obtained) :
    graph.WellFormed ∧
    ∀ rounds,
      ((Schedule.Tables.initial graph).advance rounds).degrees.keys =
        graph.nodes.keys ∧
      ((Schedule.Tables.initial graph).advance rounds).successors.keys =
        graph.nodes.keys ∧
      ((Schedule.Tables.initial graph).advance rounds).order =
        ((Schedule.Frontier.initial graph).advance graph rounds).placed :=
  ⟨h.reachable.wellFormed, Schedule.Tables.keys_advance h.reachable.wellFormed⟩

/-- A document without id, with a node that fails and an edge without stream. -/
def sketch : Json :=
  .object [("id", .str ""),
    ("nodes", .arr [.object [("id", .str "a"), ("executor", .str "constant")],
      .object [("id", .str "b")]]),
    ("edges",
      .arr [.object [("source", .str "a"), ("target", .str "b"),
      ("stream", .str "")]])]

/-- The graph of the document is run, which fails, and loses the node that has
failed. -/
theorem obtained_well_formed_sketch :
    ∃ graph,
      Document.toGraph Registry.builtin
        (Identifier.version4 (List.replicate 16 0)) ⟨0⟩ sketch =
        .ok graph ∧
      (Run.run graph .null {} [] ⟨0⟩).outcome.isOk = false ∧
      ((Run.run graph .null {} [] ⟨0⟩).graph.apply (.removeNode "a")).Obtained ∧
      ((Run.run graph .null {} [] ⟨0⟩).graph.apply (.removeNode "a")).WellFormed := by
  obtain ⟨graph, hread, hfailed⟩ : ∃ graph, Document.toGraph Registry.builtin
      (Identifier.version4 (List.replicate 16 0)) ⟨0⟩ sketch = .ok graph ∧
        (Run.run graph .null {} [] ⟨0⟩).outcome.isOk = false := ⟨_, rfl, rfl⟩
  have hdrawn : Identifier.Drawn (Identifier.version4 (List.replicate 16 0)) := ⟨_, rfl, rfl⟩
  have hobtained :=
    ((Obtained.imported hdrawn hread).ran .null {} [] ⟨0⟩).changed (.removeNode "a")
  exact ⟨graph, hread, hfailed, hobtained, (obtained_well_formed hobtained).1⟩

end Graph

end PhaseFlow
