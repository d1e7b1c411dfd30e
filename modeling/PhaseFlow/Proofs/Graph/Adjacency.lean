import PhaseFlow.Graph.Adjacency
import PhaseFlow.Proofs.Graph.WellFormed

/-!
# The edges at a node

All views of a graph at a node describe one relation: which nodes are joined by stored
edges, whatever their streams and whether or not data flows along them (`Graph.Joins`).

* `mem_incoming`, `mem_outgoing`, `mem_predecessors`, `mem_successors` and
  `mem_neighbors` say what is in a view; a node that is joined with itself is its own
  neighbour.
* An edge that touches a node comes in or goes out, and only the loops do both
  (`length_incoming_add_length_outgoing`). So removing a node takes away as many edges
  as come in and go out, the loops counted once (`removeNode_of_hasNode`).

Main statement: `views_agree_and_removal_cuts`.
-/

namespace PhaseFlow

namespace Graph

/-- Some edge, active or not, leads from one node to another. -/
def Joins (graph : Graph) (source target : String) : Prop :=
  ∃ edge ∈ graph.edges.values, edge.source = source ∧ edge.target = target

theorem WellFormed.hasNode_of_joins
    {graph : Graph}
    (h : graph.WellFormed)
    {source target : String}
    (hjoins : graph.Joins source target) :
    graph.hasNode source = true ∧ graph.hasNode target = true := by
  obtain ⟨edge, hedge, rfl, rfl⟩ := hjoins
  have hfound := h.get?_id hedge
  exact ⟨h.hasNode_source hfound, h.hasNode_target hfound⟩

variable {graph : Graph}

/-! ## What is in a view -/

/-- The edges that come in are the stored ones with the node as their target. -/
theorem mem_incoming
    {id : String} {edge : Edge} :
    edge ∈ graph.incoming id ↔ edge ∈ graph.edges.values ∧ edge.target = id := by
  rw [incoming, List.mem_filter, decide_eq_true_iff]

theorem mem_outgoing
    {id : String} {edge : Edge} :
    edge ∈ graph.outgoing id ↔ edge ∈ graph.edges.values ∧ edge.source = id := by
  rw [outgoing, List.mem_filter, decide_eq_true_iff]

/-- The predecessors are the nodes that an edge joins to this one. -/
theorem mem_predecessors
    {id source : String} :
    source ∈ graph.predecessors id ↔ graph.Joins source id := by
  rw [predecessors, KeyMap.mem_distinct, List.mem_map]
  constructor
  · rintro ⟨edge, hedge, rfl⟩
    obtain ⟨hstored, htarget⟩ := mem_incoming.1 hedge
    exact ⟨edge, hstored, rfl, htarget⟩
  · rintro ⟨edge, hstored, hsource, htarget⟩
    exact ⟨edge, mem_incoming.2 ⟨hstored, htarget⟩, hsource⟩

theorem mem_successors
    {id target : String} :
    target ∈ graph.successors id ↔ graph.Joins id target := by
  rw [successors, KeyMap.mem_distinct, List.mem_map]
  constructor
  · rintro ⟨edge, hedge, rfl⟩
    obtain ⟨hstored, hsource⟩ := mem_outgoing.1 hedge
    exact ⟨edge, hstored, hsource, rfl⟩
  · rintro ⟨edge, hstored, hsource, htarget⟩
    exact ⟨edge, mem_outgoing.2 ⟨hstored, hsource⟩, htarget⟩

/-- A loop has only one other end, which is the node itself. -/
theorem otherEnd_eq_some_iff
    {id other : String} {edge : Edge} :
    otherEnd id edge = some other ↔
      (edge.source = other ∧ edge.target = id) ∨
      (edge.source = id ∧ edge.target = other) := by
  unfold otherEnd
  by_cases hsource : edge.source = id
  · rw [if_pos hsource, Option.some.injEq]
    constructor
    · exact fun htarget => .inr ⟨hsource, htarget⟩
    · rintro (⟨rfl, hloop⟩ | ⟨-, htarget⟩)
      · exact hloop.trans hsource.symm
      · exact htarget
  · rw [if_neg hsource]
    by_cases htarget : edge.target = id
    · simp [hsource, htarget]
    · simp [hsource, htarget]

/-- The neighbours are the predecessors and the successors. -/
theorem mem_neighbors
    {id other : String} :
    other ∈ graph.neighbors id ↔ graph.Joins other id ∨ graph.Joins id other := by
  rw [neighbors, KeyMap.mem_distinct, List.mem_filterMap]
  constructor
  · rintro ⟨edge, hstored, hend⟩
    exact (otherEnd_eq_some_iff.1 hend).imp (fun hin => ⟨edge, hstored, hin⟩)
      fun hout => ⟨edge, hstored, hout⟩
  · rintro (⟨edge, hstored, hin⟩ | ⟨edge, hstored, hout⟩)
    · exact ⟨edge, hstored, otherEnd_eq_some_iff.2 (.inl hin)⟩
    · exact ⟨edge, hstored, otherEnd_eq_some_iff.2 (.inr hout)⟩

/-- What the views of a graph at a node tell of the stored edges. -/
structure ViewsAgree (graph : Graph) (id : String) : Prop where
  incoming_iff : ∀ edge, edge ∈ graph.incoming id ↔
    graph.edges.get? edge.id = some edge ∧ edge.target = id
  outgoing_iff : ∀ edge, edge ∈ graph.outgoing id ↔
    graph.edges.get? edge.id = some edge ∧ edge.source = id
  incoming_iff_outgoing : ∀ edge, edge ∈ graph.incoming id ↔
    edge ∈ graph.outgoing edge.source ∧ edge.target = id
  predecessors_iff : ∀ other, other ∈ graph.predecessors id ↔
    ∃ edge ∈ graph.incoming id, edge.source = other
  successors_iff : ∀ other, other ∈ graph.successors id ↔
    ∃ edge ∈ graph.outgoing id, edge.target = other
  converse : ∀ other, other ∈ graph.predecessors id ↔ id ∈ graph.successors other
  neighbors_iff : ∀ other, other ∈ graph.neighbors id ↔
    other ∈ graph.predecessors id ∨ other ∈ graph.successors id
  ascending :
    Text.Ascending (graph.predecessors id) ∧
    Text.Ascending (graph.successors id) ∧
    Text.Ascending (graph.neighbors id)
  hasNode :
    ∀ other ∈ graph.neighbors id, graph.hasNode id = true ∧ graph.hasNode other = true

theorem WellFormed.mem_values_iff
    (h : graph.WellFormed)
    {edge : Edge} :
    edge ∈ graph.edges.values ↔ graph.edges.get? edge.id = some edge :=
  ⟨h.get?_id, fun hget => (graph.edges.mem_values_iff edge).2 ⟨_, hget⟩⟩

/-- In a well-formed graph, every view at a node follows from the stored edges. -/
theorem WellFormed.viewsAgree
    (h : graph.WellFormed)
    (id : String) :
    graph.ViewsAgree id where
  incoming_iff edge := by rw [mem_incoming, h.mem_values_iff]
  outgoing_iff edge := by rw [mem_outgoing, h.mem_values_iff]
  incoming_iff_outgoing edge := by
    rw [mem_incoming, mem_outgoing]
    exact and_congr_left fun _ => (and_iff_left rfl).symm
  predecessors_iff other := by rw [predecessors, KeyMap.mem_distinct, List.mem_map]
  successors_iff other := by rw [successors, KeyMap.mem_distinct, List.mem_map]
  converse other := by rw [mem_predecessors, mem_successors]
  neighbors_iff other := by rw [mem_neighbors, mem_predecessors, mem_successors]
  ascending := ⟨KeyMap.ascending_distinct _, KeyMap.ascending_distinct _,
    KeyMap.ascending_distinct _⟩
  hasNode other hother := by
    rcases mem_neighbors.1 hother with hin | hout
    · exact (h.hasNode_of_joins hin).symm
    · exact h.hasNode_of_joins hout

/-! ## Counting edges -/

/-- The edges from a node to itself. -/
def loops (graph : Graph) (id : String) : List Edge :=
  (graph.incoming id).filter fun edge => edge.source = id

/-- A loop comes in and goes out. -/
theorem mem_loops
    {id : String} {edge : Edge} :
    edge ∈ graph.loops id ↔ edge ∈ graph.incoming id ∧ edge ∈ graph.outgoing id := by
  rw [loops, List.mem_filter, decide_eq_true_iff, mem_incoming, mem_outgoing]
  constructor
  · rintro ⟨⟨hstored, htarget⟩, hsource⟩
    exact ⟨⟨hstored, htarget⟩, hstored, hsource⟩
  · rintro ⟨hin, -, hsource⟩
    exact ⟨hin, hsource⟩

/-- **Every edge at a node comes in or goes out, and the loops do both.** -/
theorem length_incoming_add_length_outgoing
    (graph : Graph)
    (id : String) :
    (graph.incoming id).length + (graph.outgoing id).length =
      (graph.edges.values.filter fun edge => edge.touches id).length +
        (graph.loops id).length := by
  unfold loops incoming outgoing
  induction graph.edges.values with
  | nil => rfl
  | cons edge rest ih =>
      by_cases hsource : edge.source = id <;> by_cases htarget : edge.target = id <;>
        simp [Edge.touches, hsource, htarget] at ih ⊢ <;> omega

theorem size_filter
    (graph : Graph)
    (keep : Edge → Bool) :
    (graph.edges.filter fun _ edge => keep edge).size =
      (graph.edges.values.filter keep).length := by
  rw [KeyMap.values, List.filter_map, List.length_map]
  rfl

/-- The edges that are lost are those that touch the node. -/
theorem size_edges_sub_kept
    (graph : Graph)
    (id : String) :
    graph.edges.size -
      (graph.edges.filter fun _ edge => !edge.touches id).size =
      (graph.edges.values.filter fun edge => edge.touches id).length := by
  have hsize : graph.edges.size = graph.edges.values.length := (List.length_map _).symm
  have hsplit := graph.edges.values.length_eq_length_filter_add fun edge => edge.touches id
  rw [graph.size_filter fun edge => !edge.touches id, hsize, hsplit]
  exact Nat.add_sub_cancel _ _

/-! ## Removing a node -/

/-- A graph without a node: the other nodes and the edges that did not touch it are as
they were. -/
structure CutOff (graph : Graph) (id : String) (next : Graph) : Prop where
  nodes :
    ∀ other,
      next.nodes.get? other = if other = id then none else graph.nodes.get? other
  edges : ∀ key, next.edges.get? key =
    (graph.edges.get? key).filter fun edge => edge.source ≠ id ∧ edge.target ≠ id
  rest :
    next.id = graph.id ∧ next.metadata = graph.metadata ∧ next.state = graph.state

/-- A node is removed together with the edges that come in or go out. -/
theorem removeNode_of_hasNode
    {id : String}
    (hnode : graph.hasNode id = true) :
    ∃ next,
      graph.removeNode id =
        .ok (next,
          (graph.incoming id).length + (graph.outgoing id).length -
            (graph.loops id).length) ∧
      graph.CutOff id next := by
  refine ⟨_, removeNode_eq_ok_iff.2 ⟨hnode, rfl, ?_⟩, ?_, ?_, rfl, rfl, rfl⟩
  · rw [size_edges_sub_kept, length_incoming_add_length_outgoing]
    exact Nat.add_sub_cancel _ _
  · intro other
    rw [KeyMap.get?_erase]
    by_cases hother : other = id
    · rw [if_pos hother, if_pos hother.symm]
    · rw [if_neg hother, if_neg (Ne.symm hother)]
  · intro key
    rw [KeyMap.get?_filter]
    congr 1
    funext edge
    simp [Edge.touches]

theorem removeNode_eq_error
    {id : String}
    (hnode : graph.hasNode id = false) :
    graph.removeNode id = .error (.unknownNode "remove-node" id) := by
  have hnone : graph.nodes.get? id = none :=
    Option.isSome_eq_false_iff.1 hnode |> Option.isNone_iff_eq_none.1
  rw [removeNode, nodeFor, hnone]
  rfl

/-- **The views at a node agree, and removing it is a clean cut.** -/
theorem views_agree_and_removal_cuts
    {graph : Graph}
    (h : graph.Reachable)
    (id : String) :
    graph.ViewsAgree id ∧
    (graph.hasNode id = true →
      ∃ next count,
        graph.removeNode id = .ok (next, count) ∧
        count + (graph.loops id).length =
          (graph.incoming id).length + (graph.outgoing id).length ∧
        (∀ edge,
            edge ∈ graph.loops id ↔
              edge ∈ graph.incoming id ∧ edge ∈ graph.outgoing id) ∧
        graph.CutOff id next) ∧
    (graph.hasNode id = false →
      graph.removeNode id = .error (.unknownNode "remove-node" id)) := by
  refine ⟨h.wellFormed.viewsAgree id, fun hnode => ?_, removeNode_eq_error⟩
  obtain ⟨next, hremove, hcut⟩ := removeNode_of_hasNode hnode
  refine ⟨next, _, hremove, Nat.sub_add_cancel ?_, fun edge => mem_loops, hcut⟩
  exact Nat.le_trans (List.length_filter_le _ _) (Nat.le_add_right _ _)

/-- A node that feeds itself, two streams from it to another node, and a stream back. -/
def knotted : Graph :=
  (Graph.create "g" "knotted" ⟨0⟩).after
    [.addNode "a" "" .null .passThrough ⟨0⟩, .addNode "b" "" .null .passThrough ⟨0⟩,
      .addEdge "a" "a" .null ⟨0⟩, .addEdge "a" "b" (.object [("stream", .str "x")]) ⟨0⟩,
      .addEdge "a" "b" (.object [("stream", .str "y")]) ⟨0⟩, .addEdge "b" "a" .null ⟨0⟩]

theorem reachable_knotted : knotted.Reachable :=
  (Reachable.create "knotted" ⟨0⟩ (by decide)).after _

theorem views_agree_and_removal_cuts_knotted :
    knotted.Reachable ∧
    knotted.neighbors "a" = ["a", "b"] ∧
    knotted.ViewsAgree "a" ∧
    ∃ next, knotted.removeNode "a" = .ok (next, 4) ∧ knotted.CutOff "a" next := by
  have hin : (knotted.incoming "a").length = 2 := rfl
  have hout : (knotted.outgoing "a").length = 3 := rfl
  have hloops : (knotted.loops "a").length = 1 := rfl
  obtain ⟨hviews, hcut, -⟩ := views_agree_and_removal_cuts reachable_knotted "a"
  obtain ⟨next, count, hremove, hcount, -, hnext⟩ := hcut rfl
  obtain rfl : count = 4 := by omega
  exact ⟨reachable_knotted, rfl, hviews, next, hremove, hnext⟩

end Graph

end PhaseFlow
