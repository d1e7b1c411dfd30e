import PhaseFlow.Proofs.Answer
import PhaseFlow.Proofs.Graph.Operation
import PhaseFlow.Proofs.KeyMap

/-!
# Well-formed graphs

What every graph keeps, whatever is done to it: it has an id, nodes and edges are stored
under their own ids, the id of an edge is made of its triple, streams have names, and
both ends of an edge are nodes of the graph.

There is one lemma for each way in which a graph is changed; `Graph.WellFormed.attempt`
collects them, and `Graph.Reachable.wellFormed` is the induction over a history of
operations.
-/

namespace PhaseFlow

namespace Graph

/-- Nodes and edges are stored as what they are, and edges end at nodes. -/
structure WellFormed (graph : Graph) : Prop where
  id_ne_empty : graph.id ≠ ""
  node_id : ∀ {id node}, graph.nodes.get? id = some node → node.id = id
  node_id_ne_empty : ∀ {id node}, graph.nodes.get? id = some node → id ≠ ""
  edge_id : ∀ {id edge}, graph.edges.get? id = some edge → edge.id = id
  edge_idOf : ∀ {id edge}, graph.edges.get? id = some edge →
    edge.id = Edge.idOf edge.source edge.target edge.stream
  stream_ne_empty : ∀ {id edge}, graph.edges.get? id = some edge → edge.stream ≠ ""
  hasNode_source :
    ∀ {id edge}, graph.edges.get? id = some edge → graph.hasNode edge.source = true
  hasNode_target :
    ∀ {id edge}, graph.edges.get? id = some edge → graph.hasNode edge.target = true

theorem hasNode_iff
    {graph : Graph} {id : String} :
    graph.hasNode id = true ↔ ∃ node, graph.nodes.get? id = some node :=
  graph.nodes.contains_iff id

theorem WellFormed.get?_id
    {graph : Graph}
    (h : graph.WellFormed)
    {edge : Edge}
    (hedge : edge ∈ graph.edges.values) :
    graph.edges.get? edge.id = some edge := by
  obtain ⟨id, hid⟩ := (graph.edges.mem_values_iff edge).1 hedge
  rwa [h.edge_id hid]

/-- The ids of the stored edges are the keys, in the same order. -/
theorem WellFormed.map_id_values
    {graph : Graph}
    (h : graph.WellFormed) :
    graph.edges.values.map Edge.id = graph.edges.keys :=
  KeyMap.map_values_of_own h.edge_id

/-! ## Two graphs with the same skeleton -/

/-- The nodes of `next` are those of `graph`, each with the same id. -/
def SameNodeIds (graph next : Graph) : Prop :=
  ∀ id, (next.nodes.get? id).map Node.id = (graph.nodes.get? id).map Node.id

/-- The edges of `next` are those of `graph`, each with the same id and triple. -/
def SameEdgeIds (graph next : Graph) : Prop :=
  ∀ id, (next.edges.get? id).map (fun edge => (edge.id, edge.triple)) =
    (graph.edges.get? id).map fun edge => (edge.id, edge.triple)

/-- Every node comes from one of the same id in the graph before. -/
theorem SameNodeIds.get?_eq_some
    {graph next : Graph} {id : String} {node : Node}
    (h : SameNodeIds graph next)
    (hnode : next.nodes.get? id = some node) :
    ∃ old, graph.nodes.get? id = some old ∧ old.id = node.id := by
  have hid := h id
  rw [hnode] at hid
  exact Option.map_eq_some_iff.1 hid.symm

theorem SameNodeIds.hasNode
    {graph next : Graph}
    (h : SameNodeIds graph next)
    (id : String) :
    next.hasNode id = graph.hasNode id := by
  have hid := congrArg Option.isSome (h id)
  simpa [Graph.hasNode, KeyMap.contains] using hid

/-- Every edge comes from one of the same id and the same triple in the graph before. -/
theorem SameEdgeIds.get?_eq_some
    {graph next : Graph} {id : String} {edge : Edge}
    (h : SameEdgeIds graph next)
    (hedge : next.edges.get? id = some edge) :
    ∃ old,
      graph.edges.get? id = some old ∧
      old.id = edge.id ∧
      old.source = edge.source ∧
      old.target = edge.target ∧
      old.stream = edge.stream := by
  have hid := h id
  rw [hedge] at hid
  obtain ⟨old, hold, hsame⟩ := Option.map_eq_some_iff.1 hid.symm
  simp only [Edge.triple, Prod.mk.injEq] at hsame
  exact ⟨old, hold, hsame.1, hsame.2.1, hsame.2.2.1, hsame.2.2.2⟩

/-- The invariant is about the skeleton only. -/
theorem WellFormed.of_same
    {graph next : Graph}
    (h : graph.WellFormed)
    (hid : next.id = graph.id)
    (hnodes : SameNodeIds graph next)
    (hedges : SameEdgeIds graph next) :
    next.WellFormed where
  id_ne_empty := hid ▸ h.id_ne_empty
  node_id hnode := by
    obtain ⟨old, hold, hsame⟩ := hnodes.get?_eq_some hnode
    rw [← hsame]
    exact h.node_id hold
  node_id_ne_empty hnode := by
    obtain ⟨old, hold, -⟩ := hnodes.get?_eq_some hnode
    exact h.node_id_ne_empty hold
  edge_id hedge := by
    obtain ⟨old, hold, hsame, -⟩ := hedges.get?_eq_some hedge
    rw [← hsame]
    exact h.edge_id hold
  edge_idOf hedge := by
    obtain ⟨old, hold, hsame, hsource, htarget, hstream⟩ := hedges.get?_eq_some hedge
    rw [← hsame, ← hsource, ← htarget, ← hstream]
    exact h.edge_idOf hold
  stream_ne_empty hedge := by
    obtain ⟨old, hold, -, -, -, hstream⟩ := hedges.get?_eq_some hedge
    rw [← hstream]
    exact h.stream_ne_empty hold
  hasNode_source hedge := by
    obtain ⟨old, hold, -, hsource, -⟩ := hedges.get?_eq_some hedge
    rw [hnodes.hasNode, ← hsource]
    exact h.hasNode_source hold
  hasNode_target hedge := by
    obtain ⟨old, hold, -, -, htarget, -⟩ := hedges.get?_eq_some hedge
    rw [hnodes.hasNode, ← htarget]
    exact h.hasNode_target hold

theorem SameNodeIds.refl (graph : Graph) : SameNodeIds graph graph :=
  fun _ => rfl

theorem SameEdgeIds.refl (graph : Graph) : SameEdgeIds graph graph :=
  fun _ => rfl

theorem sameNodeIds_modifyNode
    (graph : Graph)
    (id : String)
    {change : Node → Node}
    (hchange : ∀ node, (change node).id = node.id) :
    SameNodeIds graph (graph.modifyNode id change) := by
  intro other
  unfold modifyNode
  rw [KeyMap.get?_modify]
  split
  · next heq =>
      subst heq
      cases graph.nodes.get? id <;> simp [hchange]
  · rfl

theorem sameEdgeIds_modifyEdge
    (graph : Graph)
    (id : String)
    {change : Edge → Edge}
    (hchange :
        ∀ edge, (change edge).id = edge.id ∧ (change edge).triple = edge.triple) :
    SameEdgeIds graph (graph.modifyEdge id change) := by
  intro other
  unfold modifyEdge
  rw [KeyMap.get?_modify]
  split
  · next heq =>
      subst heq
      cases graph.edges.get? id <;> simp [hchange]
  · rfl

/-! ## The operations keep the invariant -/

/-- A graph with an id and nothing else is well-formed. -/
theorem wellFormed_of_no_nodes
    {graph : Graph}
    (hid : graph.id ≠ "")
    (hnodes : graph.nodes = KeyMap.empty)
    (hedges : graph.edges = KeyMap.empty) :
    graph.WellFormed where
  id_ne_empty := hid
  node_id hnode := by simp [hnodes] at hnode
  node_id_ne_empty hnode := by simp [hnodes] at hnode
  edge_id hedge := by simp [hedges] at hedge
  edge_idOf hedge := by simp [hedges] at hedge
  stream_ne_empty hedge := by simp [hedges] at hedge
  hasNode_source hedge := by simp [hedges] at hedge
  hasNode_target hedge := by simp [hedges] at hedge

/-- A node that is inserted has a free id, so it is stored under its own. -/
theorem WellFormed.insertNode
    {graph next : Graph} {node : Node}
    (h : graph.WellFormed)
    (hnext : graph.insertNode node = .ok next) :
    next.WellFormed := by
  obtain ⟨hid, -, rfl⟩ := insertNode_eq_ok_iff.1 hnext
  have hget : ∀ {id found}, (graph.nodes.insert node.id node).get? id = some found →
      (node.id = id ∧ node = found) ∨ graph.nodes.get? id = some found := by
    intro id found hfound
    rw [KeyMap.get?_insert] at hfound
    split at hfound
    · next heq => exact Or.inl ⟨heq, Option.some.inj hfound⟩
    · exact Or.inr hfound
  have hkept : ∀ {id}, graph.hasNode id = true →
      (graph.nodes.insert node.id node).contains id = true := by
    intro id hold
    rw [KeyMap.contains, KeyMap.get?_insert]
    split
    · rfl
    · exact hold
  exact
    { id_ne_empty := h.id_ne_empty
      node_id := by
        intro id found hfound
        rcases hget hfound with ⟨heq, rfl⟩ | hold
        · exact heq
        · exact h.node_id hold
      node_id_ne_empty := by
        intro id found hfound
        rcases hget hfound with ⟨rfl, -⟩ | hold
        · exact hid
        · exact h.node_id_ne_empty hold
      edge_id := h.edge_id
      edge_idOf := h.edge_idOf
      stream_ne_empty := h.stream_ne_empty
      hasNode_source := fun hedge => hkept (h.hasNode_source hedge)
      hasNode_target := fun hedge => hkept (h.hasNode_target hedge) }

/-- No edge is left without an end, since the edges of the node go with it. -/
theorem WellFormed.removeNode
    {graph next : Graph} {id : String} {count : Nat}
    (h : graph.WellFormed)
    (hnext : graph.removeNode id = .ok (next, count)) :
    next.WellFormed := by
  obtain ⟨-, rfl, -⟩ := removeNode_eq_ok_iff.1 hnext
  have hnode : ∀ {other node}, (graph.nodes.erase id).get? other = some node →
      graph.nodes.get? other = some node := by
    intro other node hnode
    rw [KeyMap.get?_erase] at hnode
    split at hnode
    · cases hnode
    · exact hnode
  have hedge : ∀ {key edge},
      (graph.edges.filter fun _ edge => !edge.touches id).get? key = some edge →
        graph.edges.get? key = some edge ∧ edge.source ≠ id ∧ edge.target ≠ id := by
    intro key edge hedge
    rw [KeyMap.get?_filter, Option.filter_eq_some_iff] at hedge
    simpa [Edge.touches] using hedge
  have hkept : ∀ {other}, other ≠ id → graph.hasNode other = true →
      (graph.nodes.erase id).contains other = true := by
    intro other hne hold
    rw [KeyMap.contains, KeyMap.get?_erase, if_neg (Ne.symm hne)]
    exact hold
  exact
    { id_ne_empty := h.id_ne_empty
      node_id := fun hfound => h.node_id (hnode hfound)
      node_id_ne_empty := fun hfound => h.node_id_ne_empty (hnode hfound)
      edge_id := fun hfound => h.edge_id (hedge hfound).1
      edge_idOf := fun hfound => h.edge_idOf (hedge hfound).1
      stream_ne_empty := fun hfound => h.stream_ne_empty (hedge hfound).1
      hasNode_source := fun hfound =>
        hkept (hedge hfound).2.1 (h.hasNode_source (hedge hfound).1)
      hasNode_target := fun hfound =>
        hkept (hedge hfound).2.2 (h.hasNode_target (hedge hfound).1) }

theorem normalized_stream_ne_empty
    (edge : Edge) :
    edge.normalized.stream ≠ "" := by
  simp only [Edge.normalized]
  split
  · decide
  · assumption

/-- An edge that is inserted ends at nodes, and its normal form has a stream and the id
of its triple. -/
theorem WellFormed.insertEdge
    {graph next : Graph} {edge stored : Edge}
    (h : graph.WellFormed)
    (hnext : graph.insertEdge edge = .ok (next, stored)) :
    next.WellFormed := by
  obtain ⟨hsource, htarget, rfl, rfl⟩ := insertEdge_eq_ok_iff.1 hnext
  have hget : ∀ {id found}, (graph.edges.insert edge.normalized.id edge.normalized).get? id =
      some found → (edge.normalized.id = id ∧ edge.normalized = found) ∨
        graph.edges.get? id = some found := by
    intro id found hfound
    rw [KeyMap.get?_insert] at hfound
    split at hfound
    · next heq => exact Or.inl ⟨heq, Option.some.inj hfound⟩
    · exact Or.inr hfound
  exact
    { id_ne_empty := h.id_ne_empty
      node_id := h.node_id
      node_id_ne_empty := h.node_id_ne_empty
      edge_id := by
        intro id found hfound
        rcases hget hfound with ⟨heq, rfl⟩ | hold
        · exact heq
        · exact h.edge_id hold
      edge_idOf := by
        intro id found hfound
        rcases hget hfound with ⟨-, rfl⟩ | hold
        · rfl
        · exact h.edge_idOf hold
      stream_ne_empty := by
        intro id found hfound
        rcases hget hfound with ⟨-, rfl⟩ | hold
        · exact normalized_stream_ne_empty edge
        · exact h.stream_ne_empty hold
      hasNode_source := by
        intro id found hfound
        rcases hget hfound with ⟨-, rfl⟩ | hold
        · exact hsource
        · exact h.hasNode_source hold
      hasNode_target := by
        intro id found hfound
        rcases hget hfound with ⟨-, rfl⟩ | hold
        · exact htarget
        · exact h.hasNode_target hold }

theorem WellFormed.removeEdge
    {graph : Graph}
    (h : graph.WellFormed)
    (id : String) :
    (graph.removeEdge id).WellFormed := by
  have hedge : ∀ {key edge}, (graph.edges.erase id).get? key = some edge →
      graph.edges.get? key = some edge := by
    intro key edge hedge
    rw [KeyMap.get?_erase] at hedge
    split at hedge
    · cases hedge
    · exact hedge
  exact
    { id_ne_empty := h.id_ne_empty
      node_id := h.node_id
      node_id_ne_empty := h.node_id_ne_empty
      edge_id := fun hfound => h.edge_id (hedge hfound)
      edge_idOf := fun hfound => h.edge_idOf (hedge hfound)
      stream_ne_empty := fun hfound => h.stream_ne_empty (hedge hfound)
      hasNode_source := fun hfound => h.hasNode_source (hedge hfound)
      hasNode_target := fun hfound => h.hasNode_target (hedge hfound) }

/-- Whatever keeps the id of a node keeps a graph well-formed. -/
theorem WellFormed.modifyNode
    {graph : Graph}
    (h : graph.WellFormed)
    (id : String)
    {change : Node → Node}
    (hchange : ∀ node, (change node).id = node.id) :
    (graph.modifyNode id change).WellFormed :=
  h.of_same rfl (sameNodeIds_modifyNode graph id hchange) (SameEdgeIds.refl graph)

theorem WellFormed.modifyEdge
    {graph : Graph}
    (h : graph.WellFormed)
    (id : String)
    {change : Edge → Edge}
    (hchange :
        ∀ edge, (change edge).id = edge.id ∧ (change edge).triple = edge.triple) :
    (graph.modifyEdge id change).WellFormed :=
  h.of_same rfl (SameNodeIds.refl graph) (sameEdgeIds_modifyEdge graph id hchange)

/-- Erasing statistics does not touch what makes a graph well-formed. -/
theorem wellFormed_reset_iff
    {graph : Graph} :
    graph.reset.WellFormed ↔ graph.WellFormed := by
  have hnodes :
      ∀ id,
        (graph.reset.nodes.get? id).map Node.id =
          (graph.nodes.get? id).map Node.id := by
    intro id
    simp only [Graph.reset, KeyMap.get?_map, Option.map_map]
    rfl
  have hedges : ∀ id, (graph.reset.edges.get? id).map (fun edge => (edge.id, edge.triple)) =
      (graph.edges.get? id).map fun edge => (edge.id, edge.triple) := by
    intro id
    simp only [Graph.reset, KeyMap.get?_map, Option.map_map]
    rfl
  exact ⟨fun h => h.of_same rfl (fun id => (hnodes id).symm) fun id => (hedges id).symm,
    fun h => h.of_same rfl hnodes hedges⟩

/-- **Every accepted operation keeps the invariant.** -/
theorem WellFormed.attempt
    {graph next : Graph} {operation : Operation}
    (h : graph.WellFormed)
    (hnext : graph.attempt operation = .ok next) :
    next.WellFormed := by
  cases operation with
  | addNode id phase config executor now =>
      obtain ⟨given, -, -, hinsert⟩ := addNode_eq_ok hnext
      exact h.insertNode hinsert
  | insertNode node => exact h.insertNode hnext
  | setExecutor id executor =>
      obtain ⟨-, rfl⟩ := setExecutor_eq_ok_iff.1 hnext
      exact h.modifyNode id fun _ => rfl
  | removeNode id =>
      obtain ⟨⟨_, count⟩, hremove, rfl⟩ := Answer.map_eq_ok_iff.1 hnext
      exact h.removeNode hremove
  | addEdge source target config now =>
      obtain ⟨⟨_, stored⟩, hadd, rfl⟩ := Answer.map_eq_ok_iff.1 hnext
      obtain ⟨stream, settings, -, -, -, hinsert⟩ := addEdge_eq_ok hadd
      exact h.insertEdge hinsert
  | insertEdge edge =>
      obtain ⟨⟨_, stored⟩, hinsert, rfl⟩ := Answer.map_eq_ok_iff.1 hnext
      exact h.insertEdge hinsert
  | removeEdge id =>
      cases hnext
      exact h.removeEdge id
  | editNode id change keeps =>
      cases hnext
      exact h.modifyNode id keeps
  | editEdge id change keeps =>
      cases hnext
      exact h.modifyEdge id keeps
  | describe metadata =>
      cases hnext
      exact h.of_same rfl (SameNodeIds.refl graph) (SameEdgeIds.refl graph)
  | setState state =>
      cases hnext
      exact h.of_same rfl (SameNodeIds.refl graph) (SameEdgeIds.refl graph)
  | reset =>
      cases hnext
      exact wellFormed_reset_iff.2 h

theorem WellFormed.apply
    {graph : Graph}
    (h : graph.WellFormed)
    (operation : Operation) :
    (graph.apply operation).WellFormed := by
  unfold Graph.apply
  split
  · next next hnext => exact h.attempt hnext
  · exact h

/-- **Whatever operations build is well-formed.** -/
theorem Reachable.wellFormed
    {graph : Graph}
    (h : graph.Reachable) :
    graph.WellFormed := by
  induction h with
  | create name now hid => exact wellFormed_of_no_nodes hid rfl rfl
  | @restore freshId id metadata hid =>
      refine wellFormed_of_no_nodes ?_ rfl rfl
      unfold Graph.restore
      split
      · exact hid
      · assumption
  | apply _ operation ih => exact ih.apply operation

/-- Operations keep a graph well-formed. -/
theorem WellFormed.after
    {graph : Graph}
    (h : graph.WellFormed) :
    ∀ history : List Operation, (graph.after history).WellFormed := by
  intro history
  induction history generalizing graph with
  | nil => exact h
  | cons operation rest ih => exact ih (h.apply operation)

end Graph

end PhaseFlow
