import PhaseFlow.Definition.Build
import PhaseFlow.Proofs.Answer
import PhaseFlow.Proofs.KeyMap
import PhaseFlow.Proofs.Schedule.Cycle

/-!
# A definition builds the same graph at any time

A graph bears the identifier that it was given and the time at which it was made, on all
its parts. Nothing else in it depends on them (`build_stamped`): whether a definition
can be built, and whether the graph has a cycle, is the same at any time and for any
identifier.
-/

namespace PhaseFlow

/-- The node as if made at another time. -/
def Node.madeAt (now : Instant) (node : Node) : Node :=
  { node with createdAt := now }

/-- The edge as if made at another time. -/
def Edge.madeAt (now : Instant) (edge : Edge) : Edge :=
  { edge with createdAt := now }

@[simp] theorem Node.id_madeAt
    (now : Instant)
    (node : Node) :
    (node.madeAt now).id = node.id :=
  rfl

@[simp] theorem Edge.source_madeAt
    (now : Instant)
    (edge : Edge) :
    (edge.madeAt now).source = edge.source :=
  rfl

@[simp] theorem Edge.target_madeAt
    (now : Instant)
    (edge : Edge) :
    (edge.madeAt now).target = edge.target :=
  rfl

namespace Graph

/-- The graph with another identifier, as if made at another time. -/
def stamped (freshId : String) (now : Instant) (graph : Graph) : Graph :=
  { graph with
    id := freshId
    metadata := { graph.metadata with createdAt := now }
    nodes := graph.nodes.map (Node.madeAt now)
    edges := graph.edges.map (Edge.madeAt now) }

variable {graph : Graph} {freshId : String} {now : Instant}

/-- Stamps do not change which nodes there are. -/
@[simp] theorem hasNode_stamped
    (id : String) :
    (graph.stamped freshId now).hasNode id = graph.hasNode id := by
  unfold hasNode KeyMap.contains stamped
  rw [KeyMap.get?_map, Option.isSome_map]

/-! ## Operations -/

/-- Stamping and inserting a node commute. -/
theorem insertNode_stamped
    (node : Node) :
    (graph.stamped freshId now).insertNode (node.madeAt now) =
      (graph.insertNode node).map (stamped freshId now) := by
  unfold insertNode
  rw [Node.id_madeAt, hasNode_stamped]
  split
  · rfl
  · split
    · rfl
    · simp only [Except.map, stamped, KeyMap.map_insert]

/-- A node that is added later is the one that is added now, but for its stamp. -/
theorem addNode_stamped
    (id phase : String)
    (config : Json)
    (executor : Capability)
    (begun : Instant) :
    (graph.stamped freshId now).addNode id phase config executor now =
      (graph.addNode id phase config executor begun).map (stamped freshId now) := by
  unfold addNode
  split
  · rfl
  · cases config with
    | obj fields =>
        exact insertNode_stamped (Node.fresh id phase (.obj fields) executor begun)
    | null => exact insertNode_stamped (Node.fresh id phase .emptyObject executor begun)
    | _ => rfl

theorem insertEdge_stamped
    (edge : Edge) :
    ((graph.stamped freshId now).insertEdge (edge.madeAt now)).map Prod.fst =
      ((graph.insertEdge edge).map Prod.fst).map (stamped freshId now) := by
  have hget : ∀ id, (graph.stamped freshId now).nodes.get? id =
      (graph.nodes.get? id).map (Node.madeAt now) :=
    fun id => KeyMap.get?_map _ _ id
  unfold insertEdge nodeFor
  rw [Edge.source_madeAt, Edge.target_madeAt, hget, hget]
  cases graph.nodes.get? edge.source with
  | none => rfl
  | some source =>
      cases graph.nodes.get? edge.target with
      | none => rfl
      | some target =>
          exact congrArg
            (fun edges =>
                (Except.ok { graph.stamped freshId now with edges := edges } :
                    Result Graph))
            (KeyMap.map_insert graph.edges (Edge.madeAt now) edge.normalized.id
                edge.normalized).symm

/-- An edge that is added later is the one that is added now, but for its stamp. -/
theorem addEdge_stamped
    (source target : String)
    (config : Json)
    (begun : Instant) :
    ((graph.stamped freshId now).addEdge source target config now).map
      Prod.fst =
      ((graph.addEdge source target config begun).map Prod.fst).map
        (stamped freshId now) := by
  unfold addEdge
  split
  · split
    · rfl
    · split
      · rfl
      · exact insertEdge_stamped (Edge.fresh source target _ _ begun)
  · rfl

/-! ## Cycles -/

theorem joins_stamped : (graph.stamped freshId now).Joins = graph.Joins := by
  funext source target
  unfold Joins stamped
  rw [KeyMap.values_map]
  simp

/-- Stamps neither make nor break a cycle. -/
theorem hasCycle_stamped :
    (graph.stamped freshId now).HasCycle ↔ graph.HasCycle := by
  unfold HasCycle OnCycle
  rw [joins_stamped]

end Graph

namespace Definition

/-- If stamping commutes with every step, it commutes with all of them. -/
theorem foldlM_stamped
    {α : Type} {freshId : String} {now : Instant}
    {step other : Graph → α → Result Graph}
    (h :
        ∀ graph item,
          step (graph.stamped freshId now) item =
            (other graph item).map (Graph.stamped freshId now))
    (items : List α)
    (graph : Graph) :
    items.foldlM step (graph.stamped freshId now) =
      (items.foldlM other graph).map (Graph.stamped freshId now) := by
  induction items generalizing graph with
  | nil => rfl
  | cons item rest ih =>
      rw [List.foldlM_cons, List.foldlM_cons, h]
      cases other graph item with
      | error error => rfl
      | ok next => exact ih next

/-- If stamping commutes with what follows an answer, it commutes with the whole. -/
theorem bind_stamped
    {freshId : String} {now : Instant} {answer : Result Graph}
    {next other : Graph → Result Graph}
    (h :
        ∀ graph,
          next (graph.stamped freshId now) =
            (other graph).map (Graph.stamped freshId now)) :
    answer.map (Graph.stamped freshId now) >>= next =
      (answer >>= other).map (Graph.stamped freshId now) := by
  cases answer with
  | error error => rfl
  | ok graph => exact h graph

variable {registry : Registry} {freshId : String} {now begun : Instant}

theorem addPhase_stamped
    (graph : Graph)
    (phase : PhaseEntry) :
    addPhase registry now (graph.stamped freshId now) phase =
      (addPhase registry begun graph phase).map (Graph.stamped freshId now) := by
  unfold addPhase
  cases registry.resolve phase.executor with
  | error fault => rfl
  | ok capability => exact Graph.addNode_stamped _ _ _ _ _

theorem addDependencies_stamped
    (graph : Graph)
    (phase : PhaseEntry) :
    addDependencies now (graph.stamped freshId now) phase =
      (addDependencies begun graph phase).map (Graph.stamped freshId now) :=
  foldlM_stamped (fun _ _ => Graph.addEdge_stamped _ _ _ _) _ _

theorem addEdge_stamped
    (graph : Graph)
    (edge : EdgeEntry) :
    addEdge now (graph.stamped freshId now) edge =
      (addEdge begun graph edge).map (Graph.stamped freshId now) :=
  Graph.addEdge_stamped _ _ _ _

/-- **A definition builds the same graph at any time.** -/
theorem build_stamped
    (definition : Definition)
    (registry : Registry)
    (freshId other : String)
    (now begun : Instant) :
    definition.build registry freshId now =
      (definition.build registry other begun).map (Graph.stamped freshId now) := by
  have hempty : Graph.create freshId definition.name now =
      (Graph.create other definition.name begun).stamped freshId now := rfl
  unfold build
  dsimp only
  rw [hempty, foldlM_stamped addPhase_stamped]
  refine bind_stamped fun nodes => ?_
  rw [foldlM_stamped addDependencies_stamped]
  exact bind_stamped fun joined => foldlM_stamped addEdge_stamped _ _

/-! ## What is kept while a graph is built -/

/-- What the empty graph has and more nodes and edges keep, the graph of a definition
has. -/
theorem build_induction
    {keeps : Graph → Prop} {definition : Definition}
    (hempty : keeps (Graph.create freshId definition.name now))
    (hnode :
        ∀ {graph next id phase config executor},
          keeps graph →
          graph.addNode id phase config executor now = .ok next →
          keeps next)
    (hedge :
        ∀ {graph next source target config},
          keeps graph →
          (graph.addEdge source target config now).map Prod.fst = .ok next →
          keeps next)
    {graph : Graph}
    (h : definition.build registry freshId now = .ok graph) :
    keeps graph := by
  obtain ⟨nodes, hnodes, h⟩ := Answer.bind_eq_ok_iff.1 h
  obtain ⟨joined, hjoined, hedges⟩ := Answer.bind_eq_ok_iff.1 h
  have hphases : keeps nodes := by
    refine Answer.foldlM_induction (fun graph phase next hgraph hphase => ?_)
      definition.phases hempty hnodes
    unfold addPhase at hphase
    split at hphase
    · cases hphase
    · exact hnode hgraph hphase
  have hdependencies : keeps joined := by
    refine Answer.foldlM_induction (fun graph phase next hgraph hphase => ?_)
      definition.phases hphases hjoined
    exact Answer.foldlM_induction (fun _ _ _ hgraph hadd => hedge hgraph hadd)
      phase.dependencies hgraph hphase
  exact Answer.foldlM_induction (fun _ _ _ hgraph hadd => hedge hgraph hadd)
    definition.edges hdependencies hedges

end Definition

end PhaseFlow
