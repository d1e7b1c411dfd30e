import Mathlib.Logic.Relation
import PhaseFlow.Proofs.Run.Dataflow

/-!
# Where two runs agree

Two runs of graphs that differ at some nodes only execute their levels in different
orders, and one that is aborted may have merged fewer outcomes than the other. A node is
out of reach if it is no such node and none of them reaches it along active edges. So
are its active sources, hence it reads the same in both runs, and its result is the same
(`Transcript.resultOf_eq`). The induction is along an order of the nodes, in which
sources come first.
-/

namespace PhaseFlow

namespace Graph

/-- Data flows from one node directly to another. -/
def Feeds (graph : Graph) (source target : String) : Prop :=
  ∃ edge ∈ graph.edges.values, edge.active = true ∧ edge.source = source ∧ edge.target
    = target

/-- The graphs have the same id and the same edges, and nodes of the same ids; at the
other places than those that have changed, the same nodes. -/
structure DiffersOnlyAt
    (graph other : Graph)
    (changed : String → Prop) : Prop where
  id_eq : other.id = graph.id
  edges_eq : other.edges = graph.edges
  nodeIds : SameNodeIds graph other
  nodes_eq : ∀ id, ¬ changed id → other.nodes.get? id = graph.nodes.get? id

/-- No change reaches a node along active edges. -/
structure OutOfReach
    (graph : Graph)
    (changed : String → Prop)
    (id : String) : Prop where
  unchanged : ¬ changed id
  unreached : ∀ source, changed source → ¬ Relation.TransGen graph.Feeds source id

theorem DiffersOnlyAt.refl
    (graph : Graph) :
    graph.DiffersOnlyAt graph fun _ => False :=
  ⟨rfl, rfl, SameNodeIds.refl graph, fun _ _ => rfl⟩

theorem outOfReach_of_no_change
    (graph : Graph)
    (id : String) :
    graph.OutOfReach (fun _ => False) id :=
  ⟨not_false, fun _ h => h.elim⟩

theorem DiffersOnlyAt.wellFormed
    {graph other : Graph} {changed : String → Prop}
    (h : graph.DiffersOnlyAt other changed)
    (hwell : graph.WellFormed) :
    other.WellFormed := by
  refine hwell.of_same h.id_eq h.nodeIds ?_
  intro id
  rw [h.edges_eq]

/-- What feeds a node that is out of reach is out of reach. -/
theorem OutOfReach.source
    {graph : Graph} {changed : String → Prop} {source target : String}
    (h : graph.OutOfReach changed target)
    (hfeeds : graph.Feeds source target) :
    graph.OutOfReach changed source where
  unchanged hchanged := h.unreached source hchanged (.single hfeeds)
  unreached origin horigin hreaches := h.unreached origin horigin (hreaches.tail hfeeds)

end Graph

namespace Run

def resultOf
    (outcomes : List NodeOutcome)
    (id : String) :
    Option (Result Completion) :=
  (outcomeOf outcomes id).map NodeOutcome.result

theorem completionOf_eq
    (outcomes : List NodeOutcome)
    (id : String) :
    completionOf outcomes id = (resultOf outcomes id).bind Except.toOption := by
  unfold completionOf resultOf
  cases outcomeOf outcomes id <;> rfl

theorem errorOf_eq (outcomes : List NodeOutcome) (id : String) :
    errorOf outcomes id = (resultOf outcomes id).bind fun result =>
      match result with
      | .ok _ => none
      | .error error => some error := by
  unfold errorOf resultOf
  cases outcomeOf outcomes id <;> rfl

variable {left right : Setting} {graph other : Graph} {input : Json}
variable {order order' : List String} {levels levels' : List (List String)}
variable {outcomes outcomes' : List NodeOutcome} {ended ended' : Progress}
variable {changed : String → Prop}

/-- The result of a node is its answer on its input. -/
theorem Transcript.resultOf_of_mem
    (h : Transcript left graph input order levels outcomes ended)
    {id : String}
    (hid : id ∈ outcomes.map NodeOutcome.id) :
    ∃ node,
      graph.nodes.get? id = some node ∧
      resultOf outcomes id =
        some
          (answer left.options graph.id node
              (assembleInput graph ended.flow id)) := by
  obtain ⟨outcome, hmem, rfl⟩ := List.mem_map.1 hid
  obtain ⟨node, hnode, hanswer⟩ := h.course.solves.answers outcome hmem
  refine ⟨node, hnode, ?_⟩
  rw [resultOf, outcomeOf_of_mem h.course.nodup hmem, Option.map_some, hanswer]
  rfl

/-- A node whose active sources have the same results in two runs reads the same in
both. -/
theorem Transcript.assembleInput_eq
    (hsame : graph.DiffersOnlyAt other changed)
    (hinput : graph.hasNode inputKey = false)
    (h : Transcript left graph input order levels outcomes ended)
    (h' : Transcript right other input order' levels' outcomes' ended')
    {id : String}
    (hmem : id ∈ outcomes.map NodeOutcome.id)
    (hsources :
        ∀ edge ∈ graph.edges.values,
          edge.target = id →
          edge.active = true →
          resultOf outcomes edge.source = resultOf outcomes' edge.source) :
    assembleInput graph ended.flow id = assembleInput other ended'.flow id := by
  have hinput' : other.hasNode inputKey = false :=
    (hsame.nodeIds.hasNode inputKey).trans hinput
  rw [assembleInput_of_edges_eq hsame.edges_eq]
  refine assembleInput_congr ?_ ?_
  · rw [h.get?_flow_input hinput, h'.get?_flow_input hinput']
    rfl
  · intro edge hedge htarget hactive
    have hsource := h.course.solves.closed edge hedge (htarget ▸ hmem)
    have hne := h.not_input_of_mem hinput hsource
    rw [h.get?_flow hne, h'.get?_flow hne, completionOf_eq, completionOf_eq,
      hsources edge hedge htarget hactive]

/-- **A node out of reach that has an outcome in two runs has the same result in
both.** -/
theorem Transcript.resultOf_eq
    (hsame : graph.DiffersOnlyAt other changed)
    (hinput : graph.hasNode inputKey = false)
    (horder : Schedule.IsOrder graph order)
    (hanswer :
        ∀ node data,
          answer left.options graph.id node data =
            answer right.options graph.id node data)
    (h : Transcript left graph input order levels outcomes ended)
    (h' : Transcript right other input order' levels' outcomes' ended') :
    ∀ id ∈ order,
      graph.OutOfReach changed id →
      id ∈ outcomes.map NodeOutcome.id →
      id ∈ outcomes'.map NodeOutcome.id →
      resultOf outcomes id = resultOf outcomes' id := by
  refine horder.sourcesFirst.induction fun id _ hsources hclear hmem hmem' => ?_
  -- The sources come earlier in the order, and they have outcomes in both runs.
  have hreads : assembleInput graph ended.flow id = assembleInput other ended'.flow id := by
    refine h.assembleInput_eq hsame hinput h' hmem ?_
    intro edge hedge htarget hactive
    subst htarget
    have hedge' : edge ∈ other.edges.values := hsame.edges_eq ▸ hedge
    exact hsources edge hedge rfl (hclear.source ⟨edge, hedge, hactive, rfl, rfl⟩)
      (h.course.solves.closed edge hedge hmem) (h'.course.solves.closed edge hedge' hmem')
  obtain ⟨node, hnode, hresult⟩ := h.resultOf_of_mem hmem
  obtain ⟨node', hnode', hresult'⟩ := h'.resultOf_of_mem hmem'
  rw [hsame.nodes_eq id hclear.unchanged] at hnode'
  obtain rfl : node = node' := Option.some.inj (hnode.symm.trans hnode')
  rw [hresult, hresult', hanswer, hreads, hsame.id_eq]

/-- Two runs that returned have the same results out of reach. -/
theorem Returned.resultOf_eq_of_outOfReach
    (hsame : graph.DiffersOnlyAt other changed)
    (hanswer :
        ∀ node data,
          answer left.options graph.id node data =
            answer right.options graph.id node data)
    (h : Returned left graph input order levels outcomes ended)
    (h' : Returned right other input order' levels' outcomes' ended')
    {id : String}
    (hclear : graph.OutOfReach changed id) :
    resultOf outcomes id = resultOf outcomes' id := by
  cases hnode : graph.hasNode id with
  | false =>
      have hnone : id ∉ outcomes.map NodeOutcome.id := fun hmem => by
        have hid : graph.hasNode id = true := h.course.hasNode id hmem
        rw [hnode] at hid
        cases hid
      have hnone' : id ∉ outcomes'.map NodeOutcome.id := fun hmem => by
        have hid : other.hasNode id = true := h'.course.hasNode id hmem
        rw [hsame.nodeIds.hasNode, hnode] at hid
        cases hid
      rw [resultOf, resultOf, outcomeOf_eq_none_iff.2 hnone, outcomeOf_eq_none_iff.2 hnone']
  | true =>
      have horder := Schedule.executionOrder_isOrder h.order_eq
      refine Transcript.resultOf_eq hsame h.input_not_node horder hanswer h.toTranscript
        h'.toTranscript id ?_ hclear ?_ ?_
      · exact horder.perm.mem_iff.2 (Schedule.mem_keys_iff_hasNode.2 hnode)
      · rw [h.all]
        exact h.schedule.mem_iff.2 hnode
      · rw [h'.all]
        exact h'.schedule.mem_iff.2 ((hsame.nodeIds.hasNode id).trans hnode)

end Run

end PhaseFlow
