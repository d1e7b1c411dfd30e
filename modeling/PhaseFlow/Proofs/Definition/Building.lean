import PhaseFlow.Definition.Build
import PhaseFlow.Proofs.Definition.Reading
import PhaseFlow.Proofs.Executor.Registration
import PhaseFlow.Proofs.Graph.Operation
import PhaseFlow.Proofs.KeyMap

/-!
# A definition that was read can be built

The checks made while a definition is read are all that the graph asks for later: every
node and every edge finds its place. Only what the checks do not look at can still be
refused, an executor that nobody has registered or the settings of an explicit stream.

* `Graph.StreamFault` says which settings of a stream are at fault (`addEdge_cases`).
* `Definition.BuiltAs` says what the graph of a definition consists of, and
  `Definition.RefusedFor` why there is none (`build_cases`).
-/

namespace PhaseFlow

theorem Json.exists_fields
    {value : Json}
    (h : value.isObject = true) :
    ∃ fields, value = .obj fields := by
  cases value <;> first | exact ⟨_, rfl⟩ | cases h

/-! ## Streams -/

/-- What is at fault with the settings of a stream. -/
inductive Graph.StreamFault (config : Json) : ConfigurationFault → Prop
  | stream
      {value : Json}
      (h : config.field? "stream" = some value)
      (hbad : ∀ text, value = .str text → text = "") :
      StreamFault config .badStream
  | bufferSize
      {value : Json}
      (h : config.field? "buffer_size" = some value)
      (hbad : ∀ size, value = .int size → size < 0) :
      StreamFault config .badBufferSize
  | policy
      {text : String}
      (h : config.field? "backpressure" = some (.str text))
      (hbad : ∀ policy : Backpressure, policy.name ≠ text) :
      StreamFault config (.unknownBackpressure text)
  | policyKind
      {value : Json}
      (h : config.field? "backpressure" = some value)
      (hbad : ∀ text, value ≠ .str text) :
      StreamFault config .backpressureNotText
  | multiplex
      {value : Json}
      (h : config.field? "multiplex" = some value)
      (hbad : ∀ flag, value ≠ .bool flag) :
      StreamFault config .multiplexNotBoolean

namespace Graph

theorem streamOf_cases
    (config : Json) :
    ((∃ stream, streamOf config = .ok stream) ∧
      ¬ StreamFault config .badStream) ∨
    (streamOf config = .error .badStream ∧ StreamFault config .badStream) := by
  unfold streamOf
  split
  · next hnone =>
      exact .inl
        ⟨⟨_, rfl⟩, fun hfault => by cases hfault with | stream h => simp [hnone] at h⟩
  · next text hsome =>
      split
      · next hempty =>
          exact .inr ⟨rfl, .stream hsome fun other heq => by cases heq; exact hempty⟩
      · next hne =>
          refine .inl ⟨⟨_, rfl⟩, fun hfault => ?_⟩
          cases hfault with
          | stream h hbad =>
              rw [hsome, Option.some.injEq] at h
              exact hne (hbad text h.symm)
  · next value hkind hsome =>
      exact .inr ⟨rfl, .stream hsome fun text heq => absurd heq (hkind text)⟩

theorem bufferSizeOf_cases
    (config : Json) :
    ((∃ size, StreamSettings.bufferSizeOf config = .ok size) ∧
      ¬ StreamFault config .badBufferSize) ∨
    (StreamSettings.bufferSizeOf config = .error .badBufferSize ∧
      StreamFault config .badBufferSize) := by
  unfold StreamSettings.bufferSizeOf
  split
  · next hnone =>
      exact .inl ⟨⟨_, rfl⟩,
        fun hfault => by cases hfault with | bufferSize h => simp [hnone] at h⟩
  · next size hsome =>
      split
      · next hnegative =>
          exact .inr ⟨rfl, .bufferSize hsome fun other heq => by cases heq; exact hnegative⟩
      · next hnatural =>
          refine .inl ⟨⟨_, rfl⟩, fun hfault => ?_⟩
          cases hfault with
          | bufferSize h hbad =>
              rw [hsome, Option.some.injEq] at h
              exact hnatural (hbad size h.symm)
  · next value hkind hsome =>
      exact .inr ⟨rfl, .bufferSize hsome fun size heq => absurd heq (hkind size)⟩

theorem ofName_cases
    (text : String) :
    (∃ policy : Backpressure,
        policy.name = text ∧ Backpressure.ofName text = .ok policy) ∨
    ((∀ policy : Backpressure, policy.name ≠ text) ∧
      Backpressure.ofName text = .error (.unknownBackpressure text)) := by
  by_cases hknown : ∃ policy : Backpressure, policy.name = text
  · obtain ⟨policy, rfl⟩ := hknown
    exact .inl ⟨policy, rfl, Backpressure.ofName_name policy⟩
  · have hunknown : ∀ policy : Backpressure, policy.name ≠ text := fun policy heq =>
      hknown ⟨policy, heq⟩
    refine .inr ⟨hunknown, ?_⟩
    have hdropOldest : text ≠ "drop_oldest" := (hunknown .dropOldest).symm
    have hblock : text ≠ "block" := (hunknown .block).symm
    have hthrottle : text ≠ "throttle" := (hunknown .throttle).symm
    rw [Backpressure.ofName, if_neg hdropOldest, if_neg hblock, if_neg hthrottle]

theorem backpressureOf_cases
    (config : Json) :
    ((∃ policy, StreamSettings.backpressureOf config = .ok policy) ∧
      (∀ text, ¬ StreamFault config (.unknownBackpressure text)) ∧
      ¬ StreamFault config .backpressureNotText) ∨
    ∃ fault,
      StreamSettings.backpressureOf config = .error fault ∧
      StreamFault config fault := by
  unfold StreamSettings.backpressureOf
  split
  · next hnone =>
      refine .inl ⟨⟨_, rfl⟩, fun text hfault => ?_, fun hfault => ?_⟩
      · cases hfault with | policy h => simp [hnone] at h
      · cases hfault with | policyKind h => simp [hnone] at h
  · next text hsome =>
      rcases ofName_cases text with ⟨policy, hname, hpolicy⟩ | ⟨hunknown, herror⟩
      · refine .inl ⟨⟨policy, hpolicy⟩, fun other hfault => ?_, fun hfault => ?_⟩
        · cases hfault with
          | policy h hbad =>
              rw [hsome, Option.some.injEq, Json.str.injEq] at h
              exact hbad policy (hname.trans h)
        · cases hfault with
          | policyKind h hbad =>
              rw [hsome, Option.some.injEq] at h
              exact hbad text h.symm
      · exact .inr ⟨_, herror, .policy hsome hunknown⟩
  · next value hkind hsome =>
      exact .inr ⟨_, rfl, .policyKind hsome fun text heq => hkind text heq⟩

theorem multiplexOf_cases
    (config : Json) :
    ((∃ flag, StreamSettings.multiplexOf config = .ok flag) ∧
      ¬ StreamFault config .multiplexNotBoolean) ∨
    (StreamSettings.multiplexOf config = .error .multiplexNotBoolean ∧
      StreamFault config .multiplexNotBoolean) := by
  unfold StreamSettings.multiplexOf
  split
  · next hnone =>
      exact .inl ⟨⟨_, rfl⟩,
        fun hfault => by cases hfault with | multiplex h => simp [hnone] at h⟩
  · next flag hsome =>
      refine .inl ⟨⟨_, rfl⟩, fun hfault => ?_⟩
      cases hfault with
      | multiplex h hbad =>
          rw [hsome, Option.some.injEq] at h
          exact hbad flag h.symm
  · next value hkind hsome =>
      exact .inr ⟨rfl, .multiplex hsome fun flag heq => hkind flag heq⟩

/-- The settings of a stream are refused for a fault of theirs only. -/
theorem settings_cases
    {config : Json}
    (hobject : config.isObject = true) :
    (∃ stream settings,
        streamOf config = .ok stream ∧
        StreamSettings.ofJson config = .ok settings ∧
        ∀ fault, ¬ StreamFault config fault) ∨
    ∃ fault,
      (streamOf config = .error fault ∨
        ((∃ stream, streamOf config = .ok stream) ∧
          StreamSettings.ofJson config = .error fault)) ∧
      StreamFault config fault := by
  obtain ⟨fields, rfl⟩ := Json.exists_fields hobject
  rcases streamOf_cases (.obj fields) with ⟨⟨stream, hstream⟩, hnostream⟩ | ⟨herror, hfault⟩
  · rcases bufferSizeOf_cases (.obj fields) with ⟨⟨size, hsize⟩, hnosize⟩ | ⟨herror, hfault⟩
    · rcases backpressureOf_cases (.obj fields) with
        ⟨⟨policy, hpolicy⟩, hnopolicy, hnokind⟩ | ⟨fault, herror, hfault⟩
      · rcases multiplexOf_cases (.obj fields) with ⟨⟨flag, hflag⟩, hnoflag⟩ |
          ⟨herror, hfault⟩
        · refine .inl ⟨stream, ⟨size, policy, flag⟩, hstream, ?_, fun fault hfault => ?_⟩
          · simp [StreamSettings.ofJson, hsize, hpolicy, hflag, bind, Except.bind]
          · cases hfault with
            | stream h hbad => exact hnostream (.stream h hbad)
            | bufferSize h hbad => exact hnosize (.bufferSize h hbad)
            | policy h hbad => exact hnopolicy _ (.policy h hbad)
            | policyKind h hbad => exact hnokind (.policyKind h hbad)
            | multiplex h hbad => exact hnoflag (.multiplex h hbad)
        · refine .inr ⟨_, .inr ⟨⟨stream, hstream⟩, ?_⟩, hfault⟩
          simp [StreamSettings.ofJson, hsize, hpolicy, herror, bind, Except.bind]
      · refine .inr ⟨_, .inr ⟨⟨stream, hstream⟩, ?_⟩, hfault⟩
        simp [StreamSettings.ofJson, hsize, herror, bind, Except.bind]
    · refine .inr ⟨_, .inr ⟨⟨stream, hstream⟩, ?_⟩, hfault⟩
      simp [StreamSettings.ofJson, herror, bind, Except.bind]
  · exact .inr ⟨_, .inl herror, hfault⟩

/-- A graph with edges of some ids more. -/
structure JoinedBy (graph next : Graph) (ids : List String) : Prop where
  nodes : next.nodes = graph.nodes
  hasEdge : ∀ id, next.hasEdge id = true ↔ graph.hasEdge id = true ∨ id ∈ ids

theorem JoinedBy.refl (graph : Graph) : graph.JoinedBy graph [] :=
  ⟨rfl, fun _ => by simp⟩

theorem JoinedBy.trans
    {graph middle next : Graph} {ids more : List String}
    (h : graph.JoinedBy middle ids)
    (h' : middle.JoinedBy next more) :
    graph.JoinedBy next (ids ++ more) where
  nodes := h'.nodes.trans h.nodes
  hasEdge id := by rw [h'.hasEdge, h.hasEdge, List.mem_append, or_assoc]

theorem JoinedBy.hasNode
    {graph next : Graph} {ids : List String}
    (h : graph.JoinedBy next ids)
    (id : String) :
    next.hasNode id = graph.hasNode id := by
  rw [Graph.hasNode, h.nodes]
  rfl

/-- **An edge between nodes of a graph** is added, or its settings are at fault. -/
theorem addEdge_cases
    {graph : Graph} {source target : String} {config : Json}
    (hsource : graph.hasNode source = true)
    (htarget : graph.hasNode target = true)
    (hobject : config.isObject = true)
    (now : Instant) :
    (∃ stream next,
        streamOf config = .ok stream ∧
        (graph.addEdge source target config now).map Prod.fst = .ok next ∧
        graph.JoinedBy next [Edge.idOf source target stream] ∧
        ∀ fault, ¬ StreamFault config fault) ∨
    ∃ fault,
      (graph.addEdge source target config now).map Prod.fst =
        .error (.configuration fault) ∧
      StreamFault config fault := by
  unfold addEdge refuse
  rw [hobject, Bool.true_or, if_pos rfl]
  rcases settings_cases hobject with ⟨stream, settings, hstream, hsettings, hnone⟩ | hrefused
  · simp only [hstream, hsettings]
    have hinsert :
        graph.insertEdge (Edge.fresh source target stream settings now) =
          .ok (_, _) :=
      insertEdge_eq_ok_iff.2 ⟨hsource, htarget, rfl, rfl⟩
    rw [hinsert]
    refine .inl ⟨stream, _, rfl, rfl, ?_, hnone⟩
    have hid : (Edge.fresh source target stream settings now).normalized.id =
        Edge.idOf source target stream := by
      simp [Edge.normalized, Edge.fresh, streamOf_ne_empty hstream]
    refine ⟨rfl, fun id => ?_⟩
    rw [Graph.hasEdge, KeyMap.contains_insert, hid, Bool.or_eq_true, decide_eq_true_iff,
      List.mem_singleton, or_comm, eq_comm (a := id)]
    rfl
  · obtain ⟨fault, herror | ⟨⟨stream, hstream⟩, herror⟩, hfault⟩ := hrefused
    · simp only [herror]
      exact .inr ⟨fault, rfl, hfault⟩
    · simp only [hstream, herror]
      exact .inr ⟨fault, rfl, hfault⟩

end Graph

namespace Definition

/-! ## Nodes -/

/-- The executor of a phase can be found. -/
def Finds (registry : Registry) (phase : PhaseEntry) : Prop :=
  phase.executor = "" ∨ registry.isRegistered phase.executor = true

/-- A node of a phase that stands in a graph as the phase says. -/
def StandsFor
    (registry : Registry)
    (now : Instant)
    (graph : Graph)
    (phase : PhaseEntry) :
    Prop :=
  ∃ capability, registry.resolve phase.executor = .ok capability ∧
    graph.nodes.get? phase.name =
      some (Node.fresh phase.name phase.phase phase.config capability now)

/-- A graph that consists of the nodes of some phases. -/
structure HoldsNodes
    (registry : Registry)
    (now : Instant)
    (phases : List PhaseEntry)
    (graph : Graph) : Prop where
  finds : ∀ phase ∈ phases, Finds registry phase
  stands : ∀ phase ∈ phases, StandsFor registry now graph phase
  hasNode : ∀ id, graph.hasNode id = true ↔ ∃ phase ∈ phases, phase.name = id
  edges : graph.edges = KeyMap.empty

/-- The node of a new phase leaves the other nodes as they are. -/
theorem HoldsNodes.insert
    {registry : Registry} {now : Instant} {phases : List PhaseEntry}
    {graph : Graph}
    (h : HoldsNodes registry now phases graph)
    {phase : PhaseEntry}
    (hfresh : ∀ other ∈ phases, other.name ≠ phase.name)
    (hfinds : Finds registry phase)
    {capability : Capability}
    (hresolve : registry.resolve phase.executor = .ok capability) :
    HoldsNodes registry now (phases ++ [phase]) { graph with
      nodes :=
        graph.nodes.insert phase.name
          (Node.fresh phase.name phase.phase phase.config capability now) } where
  finds := List.forall_mem_append.2 ⟨h.finds, List.forall_mem_singleton.2 hfinds⟩
  stands := by
    refine List.forall_mem_append.2 ⟨fun other hother => ?_, List.forall_mem_singleton.2 ?_⟩
    · obtain ⟨found, hfound, hnode⟩ := h.stands other hother
      refine ⟨found, hfound, ?_⟩
      rw [KeyMap.get?_insert, if_neg (hfresh other hother).symm]
      exact hnode
    · exact ⟨capability, hresolve, KeyMap.get?_insert_self _ _ _⟩
  hasNode id := by
    simp only [List.mem_append, List.mem_singleton, or_and_right, exists_or, exists_eq_left]
    rw [Graph.hasNode, KeyMap.contains_insert, Bool.or_eq_true, decide_eq_true_iff, or_comm]
    exact or_congr_left (h.hasNode id)
  edges := h.edges

/-- A new phase gets its node, or its executor is unknown. -/
theorem addPhase_cases
    {registry : Registry} {now : Instant} {phases : List PhaseEntry}
    {graph : Graph}
    (h : HoldsNodes registry now phases graph)
    {phase : PhaseEntry}
    (hname : phase.name ≠ "")
    (hobject : phase.config.isObject = true)
    (hfresh : ∀ other ∈ phases, other.name ≠ phase.name) :
    (∃ next,
        addPhase registry now graph phase = .ok next ∧
        HoldsNodes registry now (phases ++ [phase]) next) ∨
    ∃ error,
      addPhase registry now graph phase = .error error ∧
      ¬ Finds registry phase ∧
      error = .configuration (.unknownExecutor phase.executor registry.names) := by
  unfold addPhase
  rcases registry.resolve_cases phase.executor with
    ⟨hfinds, capability, hresolve⟩ | ⟨⟨hne, hunregistered⟩, hresolve⟩
  · have habsent : graph.nodes.get? phase.name = none := by
      cases hfound : graph.nodes.get? phase.name with
      | none => rfl
      | some node =>
          have hpresent : graph.hasNode phase.name = true := by
            rw [Graph.hasNode, KeyMap.contains, hfound]
            rfl
          obtain ⟨other, hother, heq⟩ := (h.hasNode phase.name).1 hpresent
          exact absurd heq (hfresh other hother)
    have hadd : graph.addNode phase.name phase.phase phase.config capability now =
        .ok { graph with
          nodes := graph.nodes.insert phase.name
            (Node.fresh phase.name phase.phase phase.config capability now) } := by
      obtain ⟨fields, hfields⟩ := Json.exists_fields hobject
      unfold Graph.addNode
      rw [if_neg hname, hfields]
      exact Graph.insertNode_eq_ok_iff.2 ⟨hname, habsent, rfl⟩
    rw [hresolve]
    exact .inl ⟨_, hadd, h.insert hfresh hfinds hresolve⟩
  · rw [hresolve]
    refine .inr ⟨_, rfl, ?_, rfl⟩
    rintro (hempty | hregistered)
    · exact hne hempty
    · rw [hunregistered] at hregistered
      cases hregistered

/-! ## Edges -/

/-- The ids of the edges that a phase gets for its dependencies. -/
def dependencyIds (phase : PhaseEntry) : List String :=
  phase.dependencies.map fun name => Edge.idOf name phase.name Edge.defaultStream

/-- The id of an explicit edge, if it has a stream. -/
def edgeIds (edge : EdgeEntry) : List String :=
  match Graph.streamOf edge.config with
  | .ok stream => [Edge.idOf edge.source edge.target stream]
  | .error _ => []

theorem not_streamFault_emptyObject
    (fault : ConfigurationFault) :
    ¬ Graph.StreamFault .emptyObject fault := by
  intro hfault
  cases hfault <;> next h _ => cases h

/-- The edges of dependencies are never refused. -/
theorem addDependencies_joins
    {graph : Graph} {phase : PhaseEntry}
    (hphase : graph.hasNode phase.name = true)
    (hdependencies : ∀ name ∈ phase.dependencies, graph.hasNode name = true)
    (now : Instant) :
    ∃ next,
      addDependencies now graph phase = .ok next ∧
      graph.JoinedBy next (dependencyIds phase) := by
  refine (Answer.foldlM_cases
    (fun before state => graph.JoinedBy state
      (before.map fun name => Edge.idOf name phase.name Edge.defaultStream))
    (fun _ _ => False) (fun before name later state heq hjoined => ?_)
      (.refl graph)).resolve_right fun ⟨_, _, _, _, hnever⟩ => hnever
  have hname : graph.hasNode name = true := hdependencies name (heq ▸ by simp)
  rcases Graph.addEdge_cases ((hjoined.hasNode name).trans hname)
      ((hjoined.hasNode phase.name).trans hphase)
      (rfl : Json.emptyObject.isObject = true) now with
    ⟨stream, next, hstream, hnext, hmore, -⟩ | ⟨fault, -, hfault⟩
  · cases hstream
    rw [List.map_append]
    exact .inl ⟨next, hnext, hjoined.trans hmore⟩
  · exact absurd hfault (not_streamFault_emptyObject fault)

/-- All phases get the edges of their dependencies. -/
theorem addAllDependencies_joins
    {definition : Definition}
    (h : definition.Sound)
    {graph : Graph}
    (hnodes : ∀ name, graph.hasNode name = true ↔ definition.Names name)
    (now : Instant) :
    ∃ next,
      definition.phases.foldlM (addDependencies now) graph = .ok next ∧
      graph.JoinedBy next (definition.phases.flatMap dependencyIds) := by
  refine (Answer.foldlM_cases
    (fun before state => graph.JoinedBy state (before.flatMap dependencyIds))
    (fun _ _ => False) (fun before phase later state heq hjoined => ?_)
      (.refl graph)).resolve_right fun ⟨_, _, _, _, hnever⟩ => hnever
  have hmem : phase ∈ definition.phases := heq ▸ by simp
  obtain ⟨next, hnext, hmore⟩ := addDependencies_joins
    ((hjoined.hasNode phase.name).trans ((hnodes phase.name).2 ⟨phase, hmem, rfl⟩))
    (fun name hname => (hjoined.hasNode name).trans
      ((hnodes name).2 (h.dependency phase hmem name hname))) now
  rw [List.flatMap_append, List.flatMap_singleton]
  exact .inl ⟨next, hnext, hjoined.trans hmore⟩

/-- The explicit edges are added, or the settings of one of them are at fault. -/
theorem addEdges_cases
    {definition : Definition}
    (h : definition.Sound)
    {graph : Graph}
    (hnodes : ∀ name, graph.hasNode name = true ↔ definition.Names name)
    (now : Instant) :
    (∃ next,
        definition.edges.foldlM (addEdge now) graph = .ok next ∧
        (∀ edge ∈ definition.edges,
            ∀ fault, ¬ Graph.StreamFault edge.config fault) ∧
        graph.JoinedBy next (definition.edges.flatMap edgeIds)) ∨
    ∃ error,
      definition.edges.foldlM (addEdge now) graph = .error error ∧
      ∃ edge ∈ definition.edges,
        ∃ fault,
          error = .configuration fault ∧ Graph.StreamFault edge.config fault := by
  refine Answer.foldlM_cases
    (fun before state => (∀ edge ∈ before, ∀ fault, ¬ Graph.StreamFault edge.config fault) ∧
      graph.JoinedBy state (before.flatMap edgeIds))
    (fun (edge : EdgeEntry) (error : Error) =>
      ∃ fault, error = .configuration fault ∧ Graph.StreamFault edge.config fault)
    (fun before edge later state heq hbefore => ?_)
      ⟨fun edge hedge => (by cases hedge), .refl graph⟩
  obtain ⟨hright, hjoined⟩ := hbefore
  have hmem : edge ∈ definition.edges := heq ▸ by simp
  obtain ⟨hsource, htarget⟩ := h.ends edge hmem
  rcases Graph.addEdge_cases ((hjoined.hasNode _).trans ((hnodes _).2 hsource))
      ((hjoined.hasNode _).trans ((hnodes _).2 htarget)) (h.edgeConfig edge hmem) now with
    ⟨stream, next, hstream, hnext, hmore, hnone⟩ | ⟨fault, herror, hfault⟩
  · have hids : edgeIds edge = [Edge.idOf edge.source edge.target stream] := by
      rw [edgeIds, hstream]
    rw [List.flatMap_append, List.flatMap_singleton, hids]
    exact .inl ⟨next, hnext,
      List.forall_mem_append.2 ⟨hright, List.forall_mem_singleton.2 hnone⟩,
        hjoined.trans hmore⟩
  · exact .inr ⟨_, herror, fault, rfl, hfault⟩

/-! ## The whole graph -/

/-- Why the graph of a definition is refused. -/
inductive RefusedFor
    (definition : Definition)
    (registry : Registry) :
    Error → Prop
  | executor
      {phase : PhaseEntry}
      (hphase : phase ∈ definition.phases)
      (hne : phase.executor ≠ "")
      (hunregistered : registry.isRegistered phase.executor = false) :
      RefusedFor definition registry
        (.configuration (.unknownExecutor phase.executor registry.names))
  | stream
      {edge : EdgeEntry}
      (hedge : edge ∈ definition.edges)
      {fault : ConfigurationFault}
      (hfault : Graph.StreamFault edge.config fault) :
      RefusedFor definition registry (.configuration fault)

/-- What the graph of a definition consists of. -/
structure BuiltAs
    (definition : Definition)
    (registry : Registry)
    (now : Instant)
    (graph : Graph) : Prop where
  not_refused : ∀ error, ¬ definition.RefusedFor registry error
  hasNode : ∀ id, graph.hasNode id = true ↔ definition.Names id
  node : ∀ phase ∈ definition.phases, StandsFor registry now graph phase
  hasEdge : ∀ id, graph.hasEdge id = true ↔
    (∃ phase ∈ definition.phases, ∃ name ∈ phase.dependencies,
      Edge.idOf name phase.name Edge.defaultStream = id) ∨
      ∃ edge ∈ definition.edges, ∃ stream, Graph.streamOf edge.config = .ok stream ∧
        Edge.idOf edge.source edge.target stream = id

theorem not_refused
    {definition : Definition} {registry : Registry}
    (hfinds : ∀ phase ∈ definition.phases, Finds registry phase)
    (hright :
        ∀ edge ∈ definition.edges, ∀ fault, ¬ Graph.StreamFault edge.config fault)
    (error : Error) :
    ¬ definition.RefusedFor registry error := by
  intro hrefused
  cases hrefused with
  | executor hphase hne hunregistered =>
      rcases hfinds _ hphase with hempty | hregistered
      · exact hne hempty
      · rw [hunregistered] at hregistered
        cases hregistered
  | stream hedge hfault => exact hright _ hedge _ hfault

theorem mem_edgeIds_iff
    {edge : EdgeEntry} {id : String} :
    id ∈ edgeIds edge ↔
      ∃ stream,
        Graph.streamOf edge.config = .ok stream ∧
        Edge.idOf edge.source edge.target stream = id := by
  unfold edgeIds
  split
  · next stream hstream => simp [hstream, eq_comm]
  · next fault herror => simp [herror]

/-- The nodes of all phases are added, or an executor is unknown. -/
theorem addPhases_cases
    {definition : Definition}
    (h : definition.Sound)
    (registry : Registry)
    (freshId : String)
    (now : Instant) :
    (∃ next,
        definition.phases.foldlM (addPhase registry now)
          (Graph.create freshId definition.name now) =
          .ok next ∧
        HoldsNodes registry now definition.phases next) ∨
    ∃ error,
      definition.phases.foldlM (addPhase registry now)
        (Graph.create freshId definition.name now) =
        .error error ∧
      ∃ phase ∈ definition.phases,
        ¬ Finds registry phase ∧
        error = .configuration (.unknownExecutor phase.executor registry.names) := by
  have hempty : HoldsNodes registry now [] (Graph.create freshId definition.name now) :=
    ⟨fun _ hmem => (by cases hmem), fun _ hmem => (by cases hmem),
      fun id => ⟨fun hnode => (by cases hnode), fun ⟨_, hmem, _⟩ => (by cases hmem)⟩, rfl⟩
  refine Answer.foldlM_cases (fun before state => HoldsNodes registry now before state)
    (fun (phase : PhaseEntry) (error : Error) => ¬ Finds registry phase ∧
      error = .configuration (.unknownExecutor phase.executor registry.names))
    (fun before phase later state heq hbefore => ?_) hempty
  have hmem : phase ∈ definition.phases := heq ▸ by simp
  refine addPhase_cases hbefore (h.name_ne_empty phase hmem) (h.config phase hmem)
    fun other hother hsame => ?_
  have hnodup := h.nodup
  rw [heq, List.map_append, List.nodup_append] at hnodup
  exact hnodup.2.2 _ (List.mem_map_of_mem hother) _ (by simp) hsame

/-- **A definition that fits together is built**, unless an executor is unknown or the
settings of an explicit stream are at fault. -/
theorem build_cases
    {definition : Definition}
    (h : definition.Sound)
    (registry : Registry)
    (freshId : String)
    (now : Instant) :
    (∃ graph,
        definition.build registry freshId now = .ok graph ∧
        definition.BuiltAs registry now graph) ∨
    ∃ error,
      definition.build registry freshId now = .error error ∧
      definition.RefusedFor registry error := by
  unfold build
  rcases addPhases_cases h registry freshId now with
    ⟨nodes, hphases, hholds⟩ | ⟨error, hphases, phase, hphase, hnot, rfl⟩
  · obtain ⟨joined, hdependencies, hjoined⟩ := addAllDependencies_joins h hholds.hasNode now
    have hnames : ∀ name, joined.hasNode name = true ↔ definition.Names name :=
      fun name => by
      rw [hjoined.hasNode]
      exact hholds.hasNode name
    rcases addEdges_cases h hnames now with
      ⟨graph, hedges, hright, hmore⟩ | ⟨error, hedges, edge, hedge, fault, rfl, hfault⟩
    · refine .inl
        ⟨graph, by simp only [hphases, hdependencies, hedges, bind, Except.bind], ?_⟩
      have hall := hjoined.trans hmore
      refine ⟨not_refused hholds.finds hright, fun id => ?_, fun phase hphase => ?_,
        fun id => ?_⟩
      · rw [hall.hasNode]
        exact hholds.hasNode id
      · rw [StandsFor, hall.nodes]
        exact hholds.stands phase hphase
      · have hnone : ¬ nodes.hasEdge id = true := by
          rw [Graph.hasEdge, hholds.edges]
          exact Bool.false_ne_true
        rw [hall.hasEdge, or_iff_right hnone, List.mem_append]
        simp only [List.mem_flatMap, mem_edgeIds_iff, dependencyIds, List.mem_map]
    · exact .inr ⟨_, by simp only [hphases, hdependencies, hedges, bind, Except.bind],
        .stream hedge hfault⟩
  · obtain ⟨hne, hunregistered⟩ := not_or.1 hnot
    exact .inr ⟨_, by simp only [hphases, bind, Except.bind],
      .executor hphase hne (Bool.eq_false_iff.2 hunregistered)⟩

/-- The answer to reading a text: a fault of the definition, unless a number in the text
is out of range, or a definition that fits together and is written by the document. -/
def Answers
    (environment : Environment)
    (document : Except Json.ReadFault Json) :
    Result Definition → Prop
  | .error error => document ≠ .error .outOfRange → ∃ fault, error = .definition fault
  | .ok definition => definition.Sound ∧ ∃ value, document = .ok value ∧
      definition.WrittenBy environment value

theorem answers_read
    (environment : Environment)
    (document : Except Json.ReadFault Json) :
    Answers environment document (read environment document) := by
  cases document with
  | error fault =>
      cases fault with
      | malformed => exact fun _ => ⟨.notJson, rfl⟩
      | outOfRange => exact fun hrange => absurd rfl hrange
  | ok value =>
      cases hjson : ofJson environment value with
      | error fault =>
          rw [read, hjson]
          exact fun _ => ⟨fault, rfl⟩
      | ok definition =>
          obtain ⟨hsound, hwritten⟩ := written_of_ofJson hjson
          rw [read, hjson]
          exact ⟨hsound, value, rfl, hwritten⟩

/-- **Reading any bytes answers a fault of the definition, or a definition that fits
together**, and every registry builds such a definition, unless an executor is unknown
or an explicit stream is at fault. Only numbers that are out of range are left to the
library that reads them. -/
theorem read_bytes_builds
    (environment : Environment)
    (bytes : ByteArray)
    (nulEnds : Bool) :
    Answers environment (Json.parse nulEnds bytes)
      (read environment (Json.parse nulEnds bytes)) ∧
    ∀ definition,
      read environment (Json.parse nulEnds bytes) = .ok definition →
      ∀ (registry : Registry) (freshId : String) (now : Instant),
        (∃ graph,
            definition.build registry freshId now = .ok graph ∧
            definition.BuiltAs registry now graph) ∨
        ∃ error,
          definition.build registry freshId now = .error error ∧
          definition.RefusedFor registry error := by
  have hanswers := answers_read environment (Json.parse nulEnds bytes)
  refine ⟨hanswers, fun definition hread registry freshId now => ?_⟩
  rw [hread] at hanswers
  exact build_cases hanswers.1 registry freshId now

/-- A text with two phases, one after the other. -/
def twoPhases : ByteArray :=
  ("\x7b\"phases\":[\x7b\"name\":\"a\"\x7d," ++
    "\x7b\"name\":\"b\",\"dependencies\":[\"a\"]\x7d]\x7d").toUTF8

theorem read_bytes_builds_twoPhases :
    ∃ definition graph,
      read .empty (Json.parse false twoPhases) = .ok definition ∧
      definition.build .builtin "fresh" ⟨0⟩ = .ok graph ∧
      definition.BuiltAs .builtin ⟨0⟩ graph ∧
      definition.phases.map PhaseEntry.name = ["a", "b"] := by
  have hok : (match read .empty (Json.parse false twoPhases) with
      | .ok definition => (definition.build .builtin "fresh" ⟨0⟩).isOk &&
          decide (definition.phases.map PhaseEntry.name = ["a", "b"])
      | .error _ => false) = true := by
    decide +kernel
  cases hread : read .empty (Json.parse false twoPhases) with
  | error error =>
      rw [hread] at hok
      cases hok
  | ok definition =>
      rw [hread] at hok
      obtain ⟨hbuild, hnames⟩ := Bool.and_eq_true_iff.1 hok
      rcases (read_bytes_builds .empty twoPhases false).2 definition hread .builtin
        "fresh" ⟨0⟩ with
        ⟨graph, hgraph, hbuilt⟩ | ⟨error, herror, -⟩
      · exact ⟨definition, graph, rfl, hgraph, hbuilt, of_decide_eq_true hnames⟩
      · rw [herror] at hbuild
        cases hbuild

end Definition

end PhaseFlow
