import PhaseFlow.Document.Import
import PhaseFlow.Proofs.Graph.WellFormed

/-!
# Reading back what was written

The document of a graph holds everything about it but fractions of milliseconds. So
reading the document gives the graph with its moments cut down to whole milliseconds
(`toGraph_ofGraph`), whose document is the same again (`ofGraph_inMilliseconds`).

The writer and the reader go field by field: `field?_object` says what a written object
holds, and `toNode_ofNode`, `toEdge_ofEdge`, `toMetadata_ofGraph` and `toState_ofGraph`
are one lemma for each part. The entries are put back one after the other
(`foldlM_addNode`, `foldlM_addEdge`).
-/

namespace PhaseFlow

/-! ## Whole milliseconds -/

/-- The moment without its fraction of a millisecond. -/
def Instant.inMilliseconds (instant : Instant) : Instant :=
  ofMilliseconds instant.toMilliseconds

/-- The node with its moments in whole milliseconds. -/
def Node.inMilliseconds (node : Node) : Node :=
  { node with
    createdAt := node.createdAt.inMilliseconds
    lastRun := node.lastRun.map Instant.inMilliseconds }

theorem Node.id_inMilliseconds
    (node : Node) :
    node.inMilliseconds.id = node.id := by
  cases node
  rfl

/-- The edge with its moment in whole milliseconds. -/
def Edge.inMilliseconds (edge : Edge) : Edge :=
  { edge with createdAt := edge.createdAt.inMilliseconds }

theorem Edge.id_inMilliseconds
    (edge : Edge) :
    edge.inMilliseconds.id = edge.id := by
  cases edge
  rfl

/-- The edge without its id. -/
def Edge.unnamed (edge : Edge) : Edge :=
  { edge with id := "" }

theorem Edge.source_unnamed_inMilliseconds
    (edge : Edge) :
    edge.inMilliseconds.unnamed.source = edge.source := by
  cases edge
  rfl

theorem Edge.target_unnamed_inMilliseconds
    (edge : Edge) :
    edge.inMilliseconds.unnamed.target = edge.target := by
  cases edge
  rfl

/-- The metadata with its moment in whole milliseconds. -/
def Metadata.inMilliseconds (metadata : Metadata) : Metadata :=
  ⟨metadata.name, metadata.version, metadata.createdAt.inMilliseconds⟩

/-- The graph with all its moments in whole milliseconds. -/
def Graph.inMilliseconds (graph : Graph) : Graph where
  id := graph.id
  metadata := graph.metadata.inMilliseconds
  nodes := graph.nodes.map Node.inMilliseconds
  edges := graph.edges.map Edge.inMilliseconds
  state := graph.state

/-- Cutting a whole number of millions out of a word stays in the range of the word. -/
theorem tdiv_mul_range
    (time : Int)
    (hlow : -0x8000000000000000 ≤ time)
    (hhigh : time < 0x8000000000000000) :
    -0x8000000000000000 ≤ time.tdiv 1000000 * 1000000 ∧
    time.tdiv 1000000 * 1000000 < 0x8000000000000000 := by
  rcases Int.le_total 0 time with hsign | hsign
  · rw [Int.tdiv_eq_ediv_of_nonneg hsign]
    omega
  · obtain ⟨size, rfl⟩ : ∃ size, time = -size := ⟨-time, by omega⟩
    rw [Int.neg_tdiv, Int.tdiv_eq_ediv_of_nonneg (by omega)]
    omega

/-- **Cutting a moment down does not change its milliseconds.** -/
theorem Instant.toMilliseconds_inMilliseconds
    (instant : Instant) :
    instant.inMilliseconds.toMilliseconds = instant.toMilliseconds := by
  unfold inMilliseconds ofMilliseconds toMilliseconds
  dsimp only
  generalize instant.nanoseconds = time
  have hdiv : ∀ word : Int64, (word / 1000000).toInt = word.toInt.tdiv 1000000 := by
    intro word
    exact Int64.toInt_div_of_ne_right word 1000000 (by decide)
  obtain ⟨hlow, hhigh⟩ := tdiv_mul_range time.toInt time.le_toInt time.toInt_lt
  have hmul : (time / 1000000 * 1000000).toInt = time.toInt.tdiv 1000000 * 1000000 := by
    rw [Int64.toInt_mul, hdiv]
    show ((time.toInt.tdiv 1000000) * 1000000).bmod (2 ^ 64) = _
    rw [Int.bmod_eq_of_le] <;> omega
  rw [← Int64.toInt_inj, hdiv, hmul, hdiv, Int.mul_tdiv_cancel _ (by decide)]

namespace Document

/-- An entry shows whole milliseconds only. -/
theorem ofInstant_inMilliseconds
    (instant : Instant) :
    ofInstant instant.inMilliseconds = ofInstant instant := by
  rw [ofInstant, ofInstant, instant.toMilliseconds_inMilliseconds]

/-- The entry of a node does not change when its moments are rounded. -/
theorem ofNode_inMilliseconds
    (node : Node) :
    ofNode node.inMilliseconds = ofNode node := by
  unfold ofNode Node.inMilliseconds
  dsimp only
  rw [ofInstant_inMilliseconds, Option.map_map]
  have hmoment : ofInstant ∘ Instant.inMilliseconds = ofInstant :=
    funext ofInstant_inMilliseconds
  rw [hmoment]

theorem ofEdge_inMilliseconds
    (edge : Edge) :
    ofEdge edge.inMilliseconds = ofEdge edge := by
  unfold ofEdge Edge.inMilliseconds
  dsimp only
  rw [ofInstant_inMilliseconds]

/-- **Fractions of milliseconds do not show in a document.** -/
theorem ofGraph_inMilliseconds
    (graph : Graph) :
    ofGraph graph.inMilliseconds = ofGraph graph := by
  have hnodes : (graph.nodes.map Node.inMilliseconds).values.map ofNode =
      graph.nodes.values.map ofNode := by
    have hnode : ofNode ∘ Node.inMilliseconds = ofNode := funext ofNode_inMilliseconds
    rw [KeyMap.values_map, List.map_map, hnode]
  have hedges : (graph.edges.map Edge.inMilliseconds).values.map ofEdge =
      graph.edges.values.map ofEdge := by
    have hedge : ofEdge ∘ Edge.inMilliseconds = ofEdge := funext ofEdge_inMilliseconds
    rw [KeyMap.values_map, List.map_map, hedge]
  have hmetadata : ofMetadata graph.metadata.inMilliseconds = ofMetadata graph.metadata := by
    obtain ⟨name, version, createdAt⟩ := graph.metadata
    unfold ofMetadata Metadata.inMilliseconds
    dsimp only
    rw [ofInstant_inMilliseconds]
  obtain ⟨id, metadata, nodes, edges, state⟩ := graph
  unfold ofGraph Graph.inMilliseconds
  dsimp only at hnodes hedges hmetadata ⊢
  rw [hnodes, hedges, hmetadata]

/-! ## Reading single fields -/

/-- What an object that is built from a list of fields holds. -/
theorem field?_object
    (fields : List (String × Json))
    (key : String) :
    (Json.object fields).field? key =
      fields.foldl
        (fun found field => if field.1 = key then some field.2 else found) none := by
  have hfold : ∀ entries : List (String × Json),
      Entries.find? key (fields.foldl (fun entries field =>
        Entries.insert field.1 field.2 entries) entries) =
        fields.foldl (fun found field => if field.1 = key then some field.2 else found)
          (Entries.find? key entries) := by
    induction fields with
    | nil => exact fun _ => rfl
    | cons field rest ih =>
        intro entries
        rw [List.foldl_cons, List.foldl_cons, ih, Entries.find?_insert]
  exact hfold []

theorem field_object {α : Type} (fields : List (String × Json)) (key : String)
    (read : Json → Except Json.AccessError α) :
    (Json.object fields).field key read =
      match (Json.object fields).field? key with
      | some found => read found
      | none => .error (.missingField key) :=
  rfl

theorem fieldOr_object {α : Type} (fields : List (String × Json)) (key : String)
    (fallback : α)
    (read : Json → Except Json.AccessError α) :
    (Json.object fields).fieldOr key fallback read =
      match (Json.object fields).field? key with
      | some found => read found
      | none => .ok fallback :=
  rfl

/-- A counter is read back as it was, also above the integers with a sign. -/
theorem asWord_ofCounter
    (count : UInt64) :
    (ofCounter count).asWord = .ok count := by
  have hlt := count.toNat_lt
  have hword : UInt64.ofInt (count.toNat : Int) = count := by
    unfold UInt64.ofInt
    rw [Int.emod_eq_of_lt (by omega) (by exact_mod_cast hlt)]
    simp
  simp [ofCounter, Json.asWord, Json.asInt, Except.map, hword]

/-- A moment is read back in whole milliseconds. -/
theorem asSignedWord_ofInstant
    (instant : Instant) :
    (ofInstant instant).asSignedWord = .ok instant.toMilliseconds := by
  simp [ofInstant, Json.asSignedWord, Json.asInt, Except.map]

theorem asTexts_texts
    (items : List String) :
    (Json.texts items).asTexts = .ok items := by
  have hmap : (items.map Json.str).mapM Json.asText = .ok items := by
    induction items with
    | nil => rfl
    | cons item rest ih =>
        rw [List.map_cons, List.mapM_cons, ih]
        rfl
  simpa [Json.texts, Json.asTexts, Json.asArray, bind, Except.bind] using hmap

/-- A registry gives a resolved capability again under its own name. -/
theorem resolve_name
    {registry : Registry} {name : String} {capability : Capability}
    (h : registry.resolve name = .ok capability) :
    registry.resolve capability.name = .ok capability := by
  by_cases hidentity : name = "" ∨ name = Capability.passThroughName
  · rw [registry.resolve_of_identity hidentity] at h
    cases h
    exact registry.resolve_of_identity (.inr rfl)
  · rcases registry.resolve_of_other hidentity with ⟨-, hresolve⟩ | ⟨executor, -, hresolve⟩
    · rw [hresolve] at h
      cases h
    · obtain rfl := Except.ok.inj (hresolve.symm.trans h)
      exact hresolve

/-! ## Reading the parts -/

theorem instantField_eq
    {value : Json} {key : String} {instant : Instant}
    (fallback : Instant)
    (h : value.field? key = some (ofInstant instant)) :
    instantField value key fallback = .ok instant.inMilliseconds := by
  simp [instantField, h, access, asSignedWord_ofInstant, Except.map, Answer.mapError_ok,
    Instant.inMilliseconds]

theorem optionalInstant_eq
    {value : Json} {key : String} {instant? : Option Instant}
    (h : value.field? key = some ((instant?.map ofInstant).getD .null)) :
    optionalInstant value key = .ok (instant?.map Instant.inMilliseconds) := by
  cases instant? with
  | none => simp [optionalInstant, h]
  | some instant =>
      have hfound : value.field? key = some (ofInstant instant) := h
      have hword := asSignedWord_ofInstant instant
      unfold optionalInstant
      rw [hfound]
      simp only [ofInstant] at hword ⊢
      simp [hword, access, Except.map, Answer.mapError_ok, Instant.inMilliseconds]

/-- **A node is read back**, if its executor has its name from the registry. -/
theorem toNode_ofNode
    {registry : Registry} {node : Node}
    (now : Instant)
    (hconfig : node.config.isObject = true)
    (hexecutor : ∃ name, registry.resolve name = .ok node.executor) :
    toNode registry now (ofNode node) = .ok node.inMilliseconds := by
  obtain ⟨name, hname⟩ := hexecutor
  have hresolve := resolve_name hname
  have hcreated :
      instantField (ofNode node) "created_at" now =
        .ok node.createdAt.inMilliseconds :=
    instantField_eq now (by simp [ofNode, field?_object])
  have hlast : optionalInstant (ofNode node) "last_run" =
      .ok (node.lastRun.map Instant.inMilliseconds) :=
    optionalInstant_eq (by simp [ofNode, field?_object])
  unfold toNode
  rw [hcreated, hlast]
  simp [ofNode, field_object, fieldOr_object, field?_object, access, Json.asText,
    Json.asAny, hconfig,
    hresolve, asWord_ofCounter, Answer.mapError_ok, bind, Except.bind, Node.inMilliseconds]

/-- The settings of a stream are read back. -/
theorem ofJson_toJson
    (settings : StreamSettings) :
    StreamSettings.ofJson settings.toJson = .ok settings := by
  have hobject : ∃ fields, settings.toJson = .obj fields := ⟨_, rfl⟩
  obtain ⟨fields, hfields⟩ := hobject
  have hsize : StreamSettings.bufferSizeOf settings.toJson = .ok settings.bufferSize := by
    simp [StreamSettings.bufferSizeOf, StreamSettings.toJson, field?_object]
  have hpolicy :
      StreamSettings.backpressureOf settings.toJson = .ok settings.backpressure := by
    simp [StreamSettings.backpressureOf, StreamSettings.toJson, field?_object]
  have hmultiplex : StreamSettings.multiplexOf settings.toJson = .ok settings.multiplex := by
    simp [StreamSettings.multiplexOf, StreamSettings.toJson, field?_object]
  rw [hfields] at hsize hpolicy hmultiplex ⊢
  simp [StreamSettings.ofJson, hsize, hpolicy, hmultiplex, bind, Except.bind]

/-- **An edge is read back**, but for its id. -/
theorem toEdge_ofEdge
    (edge : Edge)
    (now : Instant) :
    toEdge now (ofEdge edge) = .ok edge.inMilliseconds.unnamed := by
  have hcreated :
      instantField (ofEdge edge) "created_at" now =
        .ok edge.createdAt.inMilliseconds :=
    instantField_eq now (by simp [ofEdge, field?_object])
  unfold toEdge
  rw [hcreated]
  obtain ⟨id, source, target, stream, settings, active, messages, bytes, createdAt⟩ := edge
  simp [ofEdge, field_object, fieldOr_object, field?_object, access, Json.asText,
    Json.asBool,
    Json.asAny, ofJson_toJson, asWord_ofCounter, Answer.mapError_ok, bind, Except.bind,
    Edge.inMilliseconds, Edge.unnamed]

theorem toMetadata_ofGraph
    (graph : Graph)
    (now : Instant) :
    toMetadata now (ofGraph graph) = .ok graph.inMilliseconds.metadata := by
  have hfield : (ofGraph graph).field? "metadata" = some (ofMetadata graph.metadata) := by
    simp [ofGraph, field?_object]
  have hcreated : instantField (ofMetadata graph.metadata) "created_at" now =
      .ok graph.metadata.createdAt.inMilliseconds :=
    instantField_eq now (by simp [ofMetadata, field?_object])
  unfold toMetadata
  rw [hfield]
  dsimp only
  rw [hcreated]
  simp [ofMetadata, fieldOr_object, field?_object, access, Json.asText,
    Answer.mapError_ok, bind,
    Except.bind, Graph.inMilliseconds, Metadata.inMilliseconds]

/-- The state of the latest run is read back. -/
theorem toState_ofGraph
    (graph : Graph) :
    toState (ofGraph graph) = .ok graph.state := by
  have hfield : (ofGraph graph).field? "state" = some (ofState graph.state) := by
    simp [ofGraph, field?_object]
  unfold toState
  rw [hfield]
  simp [ofState, fieldOr_object, field?_object, access, Json.asText, Json.asBool,
    asTexts_texts, Answer.mapError_ok, bind, Except.bind]

/-! ## Putting the entries back -/

/-- Nodes with distinct free ids are all added. -/
theorem foldlM_addNode
    {registry : Registry} {now : Instant} :
    ∀ (nodes : List Node) (graph : Graph),
      (∀ node ∈ nodes,
          node.config.isObject = true ∧
          ∃ name, registry.resolve name = .ok node.executor) →
      (∀ node ∈ nodes, node.id ≠ "" ∧ graph.hasNode node.id = false) →
      (nodes.map Node.id).Nodup →
      (nodes.map ofNode).foldlM (addNode registry now) graph =
        .ok { graph with
          nodes :=
            nodes.foldl (fun map node => map.insert node.id node.inMilliseconds)
              graph.nodes }
  | [], graph, _, _, _ => rfl
  | node :: rest, graph, hnodes, hnew, hnodup => by
      obtain ⟨hconfig, hexecutor⟩ := hnodes node List.mem_cons_self
      obtain ⟨hid, hfresh⟩ := hnew node List.mem_cons_self
      rw [List.map_cons, List.nodup_cons] at hnodup
      have hadd : addNode registry now graph (ofNode node) =
          .ok { graph with nodes := graph.nodes.insert node.id node.inMilliseconds } := by
        have hinsert : graph.insertNode node.inMilliseconds =
            .ok { graph with nodes := graph.nodes.insert node.id node.inMilliseconds } := by
          simp [Graph.insertNode, Node.id_inMilliseconds, hid, hfresh]
        simp [addNode, toNode_ofNode now hconfig hexecutor, hinsert, bind, Except.bind,
          Answer.mapError_ok]
      rw [List.map_cons, List.foldlM_cons, hadd]
      refine foldlM_addNode rest _
        (fun other hother => hnodes other (List.mem_cons_of_mem _ hother)) ?_ hnodup.2
      intro other hother
      obtain ⟨hotherId, hotherFresh⟩ := hnew other (List.mem_cons_of_mem _ hother)
      have hne : node.id ≠ other.id := by
        intro heq
        exact hnodup.1 (List.mem_map.2 ⟨other, hother, heq.symm⟩)
      refine ⟨hotherId, ?_⟩
      unfold Graph.hasNode KeyMap.contains at hotherFresh ⊢
      rw [KeyMap.get?_insert, if_neg hne]
      exact hotherFresh

/-- The id of an edge is made again as it was. -/
theorem normalized_unnamed_inMilliseconds
    {edge : Edge}
    (h : edge.normalized = edge) :
    edge.inMilliseconds.unnamed.normalized = edge.inMilliseconds := by
  have hmoments :
      edge.inMilliseconds.unnamed.normalized = edge.normalized.inMilliseconds := by
    cases edge
    rfl
  rw [hmoments, h]

/-- Edges in their normal form whose ends are there are all added. -/
theorem foldlM_addEdge
    {now : Instant} :
    ∀ (edges : List Edge) (graph : Graph),
      (∀ edge ∈ edges,
          edge.normalized = edge ∧
          graph.hasNode edge.source = true ∧
          graph.hasNode edge.target = true) →
      (edges.map ofEdge).foldlM (addEdge now) graph =
        .ok { graph with
          edges :=
            edges.foldl (fun map edge => map.insert edge.id edge.inMilliseconds)
              graph.edges }
  | [], graph, _ => rfl
  | edge :: rest, graph, hedges => by
      obtain ⟨hnormal, hsource, htarget⟩ := hedges edge List.mem_cons_self
      have hadd : addEdge now graph (ofEdge edge) =
          .ok { graph with edges := graph.edges.insert edge.id edge.inMilliseconds } := by
        have hinsert : graph.insertEdge edge.inMilliseconds.unnamed =
            .ok ({ graph with edges := graph.edges.insert edge.id edge.inMilliseconds },
              edge.inMilliseconds) := by
          have hnormalized := normalized_unnamed_inMilliseconds hnormal
          rw [Graph.insertEdge_eq_ok_iff, hnormalized, edge.id_inMilliseconds,
            edge.source_unnamed_inMilliseconds, edge.target_unnamed_inMilliseconds]
          exact ⟨hsource, htarget, rfl, rfl⟩
        simp [addEdge, toEdge_ofEdge, hinsert, bind, Except.bind, Answer.mapError_ok,
          Except.map]
      rw [List.map_cons, List.foldlM_cons, hadd]
      exact foldlM_addEdge rest _ fun other hother =>
        hedges other (List.mem_cons_of_mem _ hother)

/-! ## The whole graph -/

/-- The edges of a well-formed graph are in their normal form. -/
theorem normalized_eq
    {graph : Graph}
    (h : graph.WellFormed)
    {id : String} {edge : Edge}
    (hedge : graph.edges.get? id = some edge) :
    edge.normalized = edge := by
  have hid := h.edge_idOf hedge
  simp [Edge.normalized, h.stream_ne_empty hedge, ← hid]

/-- Whether a graph can be read back: its configurations are objects, and its executors
come from the registry. -/
structure Restorable (registry : Registry) (graph : Graph) : Prop where
  config : ∀ {id node}, graph.nodes.get? id = some node → node.config.isObject = true
  executor : ∀ {id node}, graph.nodes.get? id = some node →
    ∃ name, registry.resolve name = .ok node.executor

theorem toGraph?_ofGraph
    {registry : Registry} {graph : Graph}
    (hwell : graph.WellFormed)
    (hgraph : Restorable registry graph)
    (freshId : String)
    (now : Instant) :
    toGraph? registry freshId now (ofGraph graph) = .ok graph.inMilliseconds := by
  have hobject : (ofGraph graph).isObject = true := rfl
  have hformat : checkFormat (ofGraph graph) = .ok () := by
    simp [checkFormat, ofGraph, field?_object, Json.isText]
  have hid : access ((ofGraph graph).fieldOr "id" freshId Json.asText) = .ok graph.id := by
    simp [ofGraph, fieldOr_object, field?_object, access, Json.asText, Answer.mapError_ok]
  have hnodeEntries : entriesOf (ofGraph graph) "nodes" = graph.nodes.values.map ofNode := by
    simp [entriesOf, ofGraph, field?_object, Json.elements]
  have hedgeEntries : entriesOf (ofGraph graph) "edges" = graph.edges.values.map ofEdge := by
    simp [entriesOf, ofGraph, field?_object, Json.elements]
  have hstart : { Graph.restore freshId graph.id graph.inMilliseconds.metadata with
      state := graph.state } = { graph.inMilliseconds with
        nodes := KeyMap.empty
        edges := KeyMap.empty } := by
    have hid := hwell.id_ne_empty
    cases graph
    simp [Graph.restore, hid, Graph.inMilliseconds]
  have hnodes : (graph.nodes.values.map ofNode).foldlM (addNode registry now)
      { graph.inMilliseconds with
        nodes := KeyMap.empty
        edges := KeyMap.empty } = .ok { graph.inMilliseconds with edges :=
          KeyMap.empty } := by
    rw [foldlM_addNode graph.nodes.values, KeyMap.foldl_insert_values hwell.node_id]
    · rfl
    · intro node hnode
      obtain ⟨id, hid⟩ := (graph.nodes.mem_values_iff node).1 hnode
      exact ⟨hgraph.config hid, hgraph.executor hid⟩
    · intro node hnode
      obtain ⟨id, hid⟩ := (graph.nodes.mem_values_iff node).1 hnode
      rw [hwell.node_id hid]
      exact ⟨hwell.node_id_ne_empty hid, rfl⟩
    · rw [KeyMap.map_values_of_own hwell.node_id]
      exact graph.nodes.nodup_keys
  have hedges : (graph.edges.values.map ofEdge).foldlM (addEdge now)
      { graph.inMilliseconds with edges := KeyMap.empty } = .ok graph.inMilliseconds := by
    rw [foldlM_addEdge graph.edges.values, KeyMap.foldl_insert_values hwell.edge_id]
    · rfl
    · intro edge hedge
      obtain ⟨id, hid⟩ := (graph.edges.mem_values_iff edge).1 hedge
      have hsame :
          ∀ node,
            Graph.hasNode { graph.inMilliseconds with edges := KeyMap.empty }
              node =
              graph.hasNode node := by
        intro node
        cases graph
        simp [Graph.hasNode, Graph.inMilliseconds, KeyMap.contains, KeyMap.get?_map]
      rw [hsame, hsame]
      exact ⟨normalized_eq hwell hid, hwell.hasNode_source hid, hwell.hasNode_target hid⟩
  simp only [toGraph?, hobject, hformat, toMetadata_ofGraph, hid, toState_ofGraph, hstart,
    hnodeEntries, hedgeEntries, hnodes, hedges, bind, Except.bind, Bool.not_true,
      Bool.false_eq_true,
    if_false]

/-- **Reading the document of a graph gives the graph back**, its moments in whole
milliseconds. -/
theorem toGraph_ofGraph
    {registry : Registry} {graph : Graph}
    (hwell : graph.WellFormed)
    (hgraph : Restorable registry graph)
    (freshId : String)
    (now : Instant) :
    toGraph registry freshId now (ofGraph graph) = .ok graph.inMilliseconds := by
  rw [toGraph_of_formatObjection (formatObjection_default _), toGraph?_ofGraph hwell hgraph]
  rfl

end Document

end PhaseFlow
