import PhaseFlow.Proofs.Definition.Stamps
import PhaseFlow.Proofs.Run.History
import PhaseFlow.Run.Batch

/-!
# A batch is a definition without explicit edges

A batch names its executors inside the configurations of its phases, a definition names
them beside. Where every such entry is a text, each phase of the batch makes the node
that its entry in a definition makes (`addPhase_eq`), null standing for an empty
configuration in one place or the other, and the dependencies are joined in the same
way. So the two builders take the same steps and are refused at the same step, for the
same reason (`build_eq`); only the identifiers and the times are their own.

Main statement: `batch_agrees_with_definition`.
-/

namespace PhaseFlow

/-! ## The same but for its stamps -/

/-- The graphs have never run, and are equal but for their identifiers and the times at
which their parts were made. -/
structure Graph.Twins (graph twin : Graph) : Prop where
  name : graph.metadata.name = twin.metadata.name
  version : graph.metadata.version = twin.metadata.version
  state : graph.state = twin.state
  hasNode : ∀ id, graph.hasNode id = twin.hasNode id
  node :
    ∀ {id node other},
      graph.nodes.get? id = some node →
      twin.nodes.get? id = some other →
      (node.id = other.id ∧
        node.phase = other.phase ∧
        node.config = other.config ∧
        node.executor = other.executor) ∧
      node.reset = node ∧
      other.reset = other
  hasEdge : ∀ id, graph.hasEdge id = twin.hasEdge id
  edge :
    ∀ {id edge other},
      graph.edges.get? id = some edge →
      twin.edges.get? id = some other →
      (edge.id = other.id ∧
        edge.source = other.source ∧
        edge.target = other.target ∧
        edge.stream = other.stream ∧
        edge.settings = other.settings ∧
        edge.active = other.active) ∧
      edge.reset = edge ∧
      other.reset = other

theorem Graph.Pristine.of_stamped
    {graph : Graph} {freshId : String} {now : Instant}
    (h : graph.Pristine) :
    (graph.stamped freshId now).Pristine where
  nodes {id node} hnode := by
    rw [Graph.stamped, KeyMap.get?_map] at hnode
    obtain ⟨old, hold, rfl⟩ := Option.map_eq_some_iff.1 hnode
    exact congrArg (Node.madeAt now) (h.nodes hold)
  edges {key edge} hedge := by
    rw [Graph.stamped, KeyMap.get?_map] at hedge
    obtain ⟨old, hold, rfl⟩ := Option.map_eq_some_iff.1 hedge
    exact congrArg (Edge.madeAt now) (h.edges hold)

theorem Graph.Pristine.twins_stamped
    {graph : Graph}
    (h : graph.Pristine)
    (freshId : String)
    (now : Instant) :
    Graph.Twins (graph.stamped freshId now) graph where
  name := rfl
  version := rfl
  state := rfl
  hasNode id := Graph.hasNode_stamped id
  node {id node other} hnode hother := by
    have hpristine := h.of_stamped.nodes hnode
    rw [Graph.stamped, KeyMap.get?_map, hother] at hnode
    cases hnode
    exact ⟨⟨rfl, rfl, rfl, rfl⟩, hpristine, h.nodes hother⟩
  hasEdge id := by
    rw [Graph.hasEdge, Graph.hasEdge, KeyMap.contains, Graph.stamped, KeyMap.get?_map,
      Option.isSome_map]
    rfl
  edge {id edge other} hedge hother := by
    have hpristine := h.of_stamped.edges hedge
    rw [Graph.stamped, KeyMap.get?_map, hother] at hedge
    cases hedge
    exact ⟨⟨rfl, rfl, rfl, rfl, rfl, rfl⟩, hpristine, h.edges hother⟩

/-! ## Phases -/

namespace BatchPhase

/-- The configuration names an executor by a text or names none. -/
def NamesByText (phase : BatchPhase) : Prop :=
  ∀ value, phase.config.field? "executor" = some value → ∃ name, value = .str name

/-- The executor that the configuration names by a text; empty if there is none. -/
def executor (phase : BatchPhase) : String :=
  match phase.config.field? "executor" with
  | some (.str name) => name
  | _ => ""

/-- The phase as a definition has it. -/
def entry (phase : BatchPhase) : PhaseEntry :=
  { name := phase.name
    phase := phase.phase
    executor := phase.executor
    config := phase.config
    dependencies := phase.dependencies }

end BatchPhase

namespace Batch

variable {registry : Registry} {now : Instant}

theorem executorName_eq
    {phase : BatchPhase}
    (h : phase.NamesByText) :
    executorName phase = .ok phase.executor := by
  unfold executorName BatchPhase.executor
  cases hfield : phase.config.field? "executor" with
  | none => rfl
  | some value =>
      obtain ⟨name, rfl⟩ := h value hfield
      rfl

/-- Null stands for an empty configuration, whoever replaces it. -/
theorem addNode_nodeConfig
    (graph : Graph)
    (phase : BatchPhase)
    (capability : Capability) :
    graph.addNode phase.name phase.phase (nodeConfig phase) capability now =
      graph.addNode phase.name phase.phase phase.config capability now := by
  unfold nodeConfig
  split
  · next hnull =>
      rw [Json.isNull_iff.1 hnull]
      rfl
  · rfl

/-- **A phase of a batch makes the node that its entry makes**, or is refused as its
entry is. -/
theorem addPhase_eq
    {phase : BatchPhase}
    (h : phase.NamesByText)
    (graph : Graph) :
    addPhase registry now graph phase =
      Definition.addPhase registry now graph phase.entry := by
  have hentry : phase.entry.executor = phase.executor := rfl
  unfold addPhase Definition.addPhase
  rw [executorName_eq h, hentry]
  dsimp only [bind, Except.bind]
  cases registry.resolve phase.executor with
  | error fault => rfl
  | ok capability => exact addNode_nodeConfig graph phase capability

theorem foldlM_addPhase
    {phases : List BatchPhase}
    (h : ∀ phase ∈ phases, phase.NamesByText)
    (graph : Graph) :
    phases.foldlM (addPhase registry now) graph =
      (phases.map BatchPhase.entry).foldlM (Definition.addPhase registry now)
        graph := by
  induction phases generalizing graph with
  | nil => rfl
  | cons phase rest ih =>
      rw [List.forall_mem_cons] at h
      rw [List.map_cons, List.foldlM_cons, List.foldlM_cons, addPhase_eq h.1]
      cases Definition.addPhase registry now graph phase.entry with
      | error error => rfl
      | ok next => exact ih h.2 next

theorem foldlM_addDependencies
    (phases : List BatchPhase)
    (graph : Graph) :
    phases.foldlM (addDependencies now) graph =
      (phases.map BatchPhase.entry).foldlM (Definition.addDependencies now)
        graph := by
  rw [List.foldlM_map]
  rfl

/-- **The two builders take the same steps.** -/
theorem build_eq
    {phases : List BatchPhase} {definition : Definition}
    (htext : ∀ phase ∈ phases, phase.NamesByText)
    (hphases : definition.phases = phases.map BatchPhase.entry)
    (hedges : definition.edges = [])
    (registry : Registry)
    (freshId : String)
    (now : Instant) :
    build phases registry definition.name freshId now =
      definition.build registry freshId now := by
  unfold build Definition.build
  rw [hphases, hedges, foldlM_addPhase htext]
  simp only [foldlM_addDependencies, List.foldlM_nil, bind_pure]

end Batch

/-- What a definition builds has never run. -/
theorem Definition.pristine_build
    {definition : Definition} {registry : Registry} {freshId : String}
    {now : Instant} {graph : Graph}
    (h : definition.build registry freshId now = .ok graph) :
    graph.Pristine := by
  refine build_induction (Graph.pristine_create freshId definition.name now)
    (fun hgraph hnext => hgraph.addNode hnext) ?_ h
  intro graph next source target config hgraph hnext
  obtain ⟨⟨_, stored⟩, hadd, rfl⟩ := Answer.map_eq_ok_iff.1 hnext
  exact hgraph.addEdge hadd

/-- **A batch and the definition of the same phases build the same graph**, or are
refused for the same reason. -/
theorem batch_agrees_with_definition
    {phases : List BatchPhase} {definition : Definition}
    (htext : ∀ phase ∈ phases, phase.NamesByText)
    (hphases : definition.phases = phases.map BatchPhase.entry)
    (hedges : definition.edges = [])
    (registry : Registry)
    (freshId other : String)
    (now begun : Instant) :
    (∃ error,
        Batch.build phases registry definition.name freshId now =
          .error error ∧
        definition.build registry other begun = .error error) ∨
    ∃ graph twin,
      Batch.build phases registry definition.name freshId now = .ok graph ∧
      definition.build registry other begun = .ok twin ∧
      graph.Twins twin := by
  rw [Batch.build_eq htext hphases hedges registry freshId now,
    Definition.build_stamped definition registry freshId other now begun]
  cases hbuild : definition.build registry other begun with
  | error error => exact .inl ⟨error, rfl, rfl⟩
  | ok twin =>
      have hpristine := Definition.pristine_build hbuild
      exact .inr ⟨twin.stamped freshId now, twin, rfl, rfl,
        hpristine.twins_stamped freshId now⟩

/-- A phase that depends on a later one and on itself, one without a configuration that
depends on an earlier one, and one with a value of its own. -/
def relay : List BatchPhase :=
  [{ name := "first", phase := "load", dependencies := ["last", "first"] },
    { name := "second", phase := "", config := .null, dependencies := ["first"] },
    { name := "last", phase := "store"
      config := .object [("executor", .str "constant"), ("value", .int 3)] }]

/-- The same phases as a definition. -/
def relayDefinition : Definition where
  name := "relay"
  description := ""
  phases := relay.map BatchPhase.entry
  edges := []
  options := {}
  logging := {}

theorem batch_agrees_with_definition_relay :
    (∀ phase ∈ relay, phase.NamesByText) ∧
    ∃ graph twin,
      Batch.build relay Registry.builtin "relay" "g" ⟨0⟩ = .ok graph ∧
      relayDefinition.build Registry.builtin "h" ⟨5⟩ = .ok twin ∧
      graph.Twins twin := by
  have htext : ∀ phase ∈ relay, phase.NamesByText := by
    simp only [relay, List.forall_mem_cons]
    refine ⟨nofun, nofun, ?_, nofun⟩
    intro value hvalue
    exact ⟨"constant", (Option.some.inj hvalue).symm⟩
  refine ⟨htext, ?_⟩
  have hphases : relayDefinition.phases = relay.map BatchPhase.entry := rfl
  rcases batch_agrees_with_definition htext hphases rfl Registry.builtin "g" "h" ⟨0⟩ ⟨5⟩ with
    ⟨error, herror, -⟩ | hagree
  · cases herror
  · exact hagree

end PhaseFlow
