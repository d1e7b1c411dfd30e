import PhaseFlow.Proofs.Document.RoundTrip
import PhaseFlow.Proofs.Json.Canonical
import PhaseFlow.Proofs.Json.RoundTrip

/-!
# Restored graphs

A graph that is written down and read back is the same graph but for fractions of
milliseconds (`Graph.SameInMilliseconds`), whether the document itself is handed over or
its text (`restores_documents`). A text can be read back because documents are
canonical: their objects are built by insertion, and their numbers are words
(`isCanonical_ofGraph`).
-/

namespace PhaseFlow

namespace Document

/-! ## Documents are canonical -/

theorem isCanonical_ofInstant
    (instant : Instant) :
    (ofInstant instant).IsCanonical := by
  have hlow := instant.toMilliseconds.le_toInt
  have hhigh := instant.toMilliseconds.toInt_lt
  constructor <;> omega

theorem isCanonical_ofCounter
    (count : UInt64) :
    (ofCounter count).IsCanonical := by
  have hlt := count.toNat_lt
  constructor <;> omega

theorem isCanonical_texts
    (items : List String) :
    (Json.texts items).IsCanonical := by
  refine Json.allCanonical_iff.2 ?_
  intro item hitem
  obtain ⟨text, -, rfl⟩ := List.mem_map.1 hitem
  trivial

/-- The entry of a node is canonical if its configuration is. -/
theorem isCanonical_ofNode
    {node : Node}
    (hconfig : node.config.IsCanonical) :
    (ofNode node).IsCanonical := by
  have hlast : ((node.lastRun.map ofInstant).getD .null).IsCanonical := by
    cases node.lastRun with
    | none => trivial
    | some instant => exact isCanonical_ofInstant instant
  refine Json.isCanonical_object ?_
  simp only [List.forall_mem_cons, hconfig, hlast, isCanonical_ofInstant,
    isCanonical_ofCounter]
  simp [Json.IsCanonical]

theorem isCanonical_ofSettings
    (settings : StreamSettings) :
    settings.toJson.IsCanonical := by
  refine Json.isCanonical_object ?_
  have hsize := isCanonical_ofCounter settings.bufferSize
  unfold ofCounter at hsize
  simp only [List.forall_mem_cons, hsize]
  simp [Json.IsCanonical]

/-- The entry of an edge is canonical. -/
theorem isCanonical_ofEdge (edge : Edge) : (ofEdge edge).IsCanonical := by
  refine Json.isCanonical_object ?_
  simp only [List.forall_mem_cons, isCanonical_ofSettings, isCanonical_ofInstant,
    isCanonical_ofCounter]
  simp [Json.IsCanonical]

/-- **The document of a graph is canonical** if the configurations of its nodes are. -/
theorem isCanonical_ofGraph
    {graph : Graph}
    (hconfig : ∀ {id node}, graph.nodes.get? id = some node → node.config.IsCanonical) :
    (ofGraph graph).IsCanonical := by
  have hmetadata : (ofMetadata graph.metadata).IsCanonical := by
    refine Json.isCanonical_object ?_
    simp only [List.forall_mem_cons, isCanonical_ofInstant]
    simp [Json.IsCanonical]
  have hstate : (ofState graph.state).IsCanonical := by
    refine Json.isCanonical_object ?_
    simp only [List.forall_mem_cons, isCanonical_texts]
    simp [Json.IsCanonical]
  have hnodes : (Json.arr (graph.nodes.values.map ofNode)).IsCanonical := by
    refine Json.allCanonical_iff.2 ?_
    intro entry hentry
    obtain ⟨node, hnode, rfl⟩ := List.mem_map.1 hentry
    obtain ⟨id, hid⟩ := (graph.nodes.mem_values_iff node).1 hnode
    exact isCanonical_ofNode (hconfig hid)
  have hedges : (Json.arr (graph.edges.values.map ofEdge)).IsCanonical := by
    refine Json.allCanonical_iff.2 ?_
    intro entry hentry
    obtain ⟨edge, -, rfl⟩ := List.mem_map.1 hentry
    exact isCanonical_ofEdge edge
  refine Json.isCanonical_object ?_
  simp only [List.forall_mem_cons, hmetadata, hstate, hnodes, hedges]
  simp [Json.IsCanonical]

end Document

/-! ## Graphs that agree in whole milliseconds -/

/-- The nodes agree in everything, moments being compared in whole milliseconds. -/
structure Node.SameInMilliseconds (found node : Node) : Prop where
  id : found.id = node.id
  phase : found.phase = node.phase
  config : found.config = node.config
  executor : found.executor = node.executor
  status : found.status = node.status
  createdAt : found.createdAt.toMilliseconds = node.createdAt.toMilliseconds
  lastRun :
    found.lastRun.map Instant.toMilliseconds = node.lastRun.map Instant.toMilliseconds
  runCount : found.runCount = node.runCount
  errorCount : found.errorCount = node.errorCount

/-- The edges agree in everything, moments being compared in whole milliseconds. -/
structure Edge.SameInMilliseconds (found edge : Edge) : Prop where
  id : found.id = edge.id
  source : found.source = edge.source
  target : found.target = edge.target
  stream : found.stream = edge.stream
  bufferSize : found.settings.bufferSize = edge.settings.bufferSize
  backpressure : found.settings.backpressure = edge.settings.backpressure
  multiplex : found.settings.multiplex = edge.settings.multiplex
  active : found.active = edge.active
  messages : found.messages = edge.messages
  bytes : found.bytes = edge.bytes
  createdAt : found.createdAt.toMilliseconds = edge.createdAt.toMilliseconds

/-- The graphs agree in everything, moments being compared in whole milliseconds: what
one of them has under an id, the other one has too. -/
structure Graph.SameInMilliseconds (found graph : Graph) : Prop where
  id : found.id = graph.id
  name : found.metadata.name = graph.metadata.name
  version : found.metadata.version = graph.metadata.version
  createdAt :
    found.metadata.createdAt.toMilliseconds = graph.metadata.createdAt.toMilliseconds
  state : found.state = graph.state
  nodes :
    ∀ id,
      Option.Rel Node.SameInMilliseconds (found.nodes.get? id) (graph.nodes.get? id)
  edges :
    ∀ id,
      Option.Rel Edge.SameInMilliseconds (found.edges.get? id) (graph.edges.get? id)

/-- Rounding the moments of a node to milliseconds changes nothing else. -/
theorem Node.sameInMilliseconds_inMilliseconds
    (node : Node) :
    node.inMilliseconds.SameInMilliseconds node := by
  obtain ⟨id, phase, config, executor, status, createdAt, lastRun, runCount,
    errorCount⟩ := node
  refine ⟨rfl, rfl, rfl, rfl, rfl, createdAt.toMilliseconds_inMilliseconds, ?_, rfl, rfl⟩
  cases lastRun with
  | none => rfl
  | some instant => exact congrArg some instant.toMilliseconds_inMilliseconds

theorem Edge.sameInMilliseconds_inMilliseconds
    (edge : Edge) :
    edge.inMilliseconds.SameInMilliseconds edge := by
  obtain ⟨id, source, target, stream, settings, active, messages, bytes, createdAt⟩ := edge
  exact ⟨rfl, rfl, rfl, rfl, rfl, rfl, rfl, rfl, rfl, rfl,
    createdAt.toMilliseconds_inMilliseconds⟩

/-- Rounding all moments of a graph to milliseconds changes nothing else. -/
theorem Graph.sameInMilliseconds_inMilliseconds
    (graph : Graph) :
    graph.inMilliseconds.SameInMilliseconds graph := by
  obtain ⟨id, ⟨name, version, createdAt⟩, nodes, edges, state⟩ := graph
  show Graph.SameInMilliseconds ⟨id, ⟨name, version, createdAt.inMilliseconds⟩,
    nodes.map Node.inMilliseconds, edges.map Edge.inMilliseconds, state⟩ _
  refine ⟨rfl, rfl, rfl, createdAt.toMilliseconds_inMilliseconds, rfl, ?_, ?_⟩
  · intro id
    show Option.Rel _ ((nodes.map Node.inMilliseconds).get? id) (nodes.get? id)
    rw [KeyMap.get?_map]
    cases nodes.get? id with
    | none => exact Option.Rel.none
    | some node => exact Option.Rel.some node.sameInMilliseconds_inMilliseconds
  · intro id
    show Option.Rel _ ((edges.map Edge.inMilliseconds).get? id) (edges.get? id)
    rw [KeyMap.get?_map]
    cases edges.get? id with
    | none => exact Option.Rel.none
    | some edge => exact Option.Rel.some edge.sameInMilliseconds_inMilliseconds

namespace Document

/-- **Reading undoes writing.** The graph that is read from the document of a graph
agrees with it in whole milliseconds and has the same document. If the configurations
are canonical, then the same graph is read from the text of the document, whatever the
indentation. -/
theorem restores_documents
    {registry : Registry} {graph : Graph}
    (hreachable : graph.Reachable)
    (hgraph : Restorable registry graph)
    (freshId : String)
    (now : Instant) :
    ∃ found,
      toGraph registry freshId now (ofGraph graph) = .ok found ∧
      found.SameInMilliseconds graph ∧
      ofGraph found = ofGraph graph ∧
      ((∀ {id node},
            graph.nodes.get? id = some node → node.config.IsCanonical) →
        ∀ indentation,
          graphOfText registry freshId now (textOf graph indentation) =
            .ok found) := by
  have hread := toGraph_ofGraph hreachable.wellFormed hgraph freshId now
  refine ⟨graph.inMilliseconds, hread, graph.sameInMilliseconds_inMilliseconds,
    ofGraph_inMilliseconds graph, ?_⟩
  intro hconfig indentation
  have htext : Json.parse false (textOf graph indentation).toUTF8 = .ok (ofGraph graph) :=
    Json.parse_text (isCanonical_ofGraph hconfig) indentation
  rw [graphOfText, graphOfBytes, htext]
  exact hread

/-- A constant that has run once, two thousandths of a second and a bit after the start,
and feeds a node that has never run through an inactive stream of three messages. -/
def usedGraph : Graph :=
  (Graph.create "g" "used" ⟨1500000⟩).after
    [.addNode "one" "source" (.object [("value", .int 1)])
        (.custom "constant" Registry.constant) ⟨0⟩,
      .addNode "sink" "sink" .null .passThrough ⟨-1500000⟩,
      .addEdge "one" "sink"
        (.object [("buffer_size", .int 3), ("backpressure", .str "block")]) ⟨7⟩,
      .editNode "one" (fun node => node.succeeded ⟨2000001⟩) (fun _ => rfl),
      .editEdge "one->sink:data" (fun edge => { edge with active := false, messages := 3 })
        (fun _ => ⟨rfl, rfl⟩),
      .setState { executionOrder := ["one", "sink"], lastError := "none" }]

theorem reachable_usedGraph : usedGraph.Reachable :=
  (Graph.Reachable.create "used" ⟨1500000⟩ (by decide)).after _

/-- The nodes of the example can be restored by the built-in registry. -/
theorem nodes_usedGraph
    {id : String} {node : Node}
    (h : usedGraph.nodes.get? id = some node) :
    node.config.isObject = true ∧
    node.config.IsCanonical ∧
    ∃ name, Registry.builtin.resolve name = .ok node.executor := by
  have hmem : (id, node) ∈ usedGraph.nodes.entries :=
    (usedGraph.nodes.mem_entries_iff id node).2 h
  have hvalue : (Json.object [("value", .int 1)]).IsCanonical := by
    refine Json.isCanonical_object ?_
    simp [Json.IsCanonical, Json.FitsWord]
  rcases List.mem_cons.1 hmem with heq | hmem
  · cases heq
    exact ⟨rfl, hvalue, "constant", rfl⟩
  · cases List.mem_singleton.1 hmem
    exact ⟨rfl, ⟨List.Pairwise.nil, trivial⟩, "", rfl⟩

theorem restores_documents_usedGraph :
    usedGraph.Reachable ∧
    Restorable Registry.builtin usedGraph ∧
    ∃ found,
      found.SameInMilliseconds usedGraph ∧
      ∀ indentation,
        graphOfText Registry.builtin "fresh" ⟨9⟩
          (textOf usedGraph indentation) =
          .ok found := by
  have hrestorable : Restorable Registry.builtin usedGraph :=
    ⟨fun h => (nodes_usedGraph h).1, fun h => (nodes_usedGraph h).2.2⟩
  obtain ⟨found, -, hsame, -, htext⟩ :=
    restores_documents reachable_usedGraph hrestorable "fresh" ⟨9⟩
  exact ⟨reachable_usedGraph, hrestorable, found, hsame,
    htext fun h => (nodes_usedGraph h).2.1⟩

end Document

end PhaseFlow
