import PhaseFlow.Executor.Registry
import PhaseFlow.Proofs.Run.Agreement

/-!
# What can influence a node

Two runs on the same input of two graphs that differ at some nodes only, in whatever
mode each of them is run: a node that is out of reach of the differences has the same
output, the same error and the same number of attempts in both results, or it lacks the
same. Inactive edges carry no influence, although they take part in the order of the
nodes.

Main statement: `out_of_reach_unaffected`.
-/

namespace PhaseFlow

namespace RunResult

/-- Two results hold the same about a node. -/
structure AgreesAt (result found : RunResult) (id : String) : Prop where
  flow : result.flow.get? id = found.flow.get? id
  errors : result.errors.get? id = found.errors.get? id
  attempts : (result.records.get? id).map PhaseRecord.attempts =
    (found.records.get? id).map PhaseRecord.attempts

end RunResult

namespace Run

variable {left right : Setting} {graph other : Graph} {input : Json}
variable {order order' : List String} {levels levels' : List (List String)}
variable {outcomes outcomes' : List NodeOutcome} {ended ended' : Progress}
variable {changed : String → Prop}

/-- What a result holds about a node is settled by the result of the node. -/
theorem Returned.agreesAt
    (h : Returned left graph input order levels outcomes ended)
    (h' : Returned right other input order' levels' outcomes' ended')
    {result found : RunResult}
    (hresult : (finished ended order levels).outcome = .ok result)
    (hfound : (finished ended' order' levels').outcome = .ok found)
    {id : String}
    (hsame : resultOf outcomes id = resultOf outcomes' id) :
    result.AgreesAt found id := by
  cases hresult
  cases hfound
  have haccount := h.course.account
  have haccount' := h'.course.account
  constructor
  case flow =>
    dsimp only
    rw [haccount.flow, haccount'.flow, completionOf_eq, completionOf_eq, hsame]
    rfl
  case errors =>
    dsimp only
    rw [haccount.errors, haccount'.errors, errorOf_eq, errorOf_eq, hsame]
    rfl
  case attempts =>
    dsimp only
    rw [haccount.attempts, haccount'.attempts, completionOf_eq, completionOf_eq, hsame]
    rfl

/-- **A node is influenced by its active ancestors only.** -/
theorem out_of_reach_unaffected
    (hwell : graph.WellFormed)
    (hsame : graph.DiffersOnlyAt other changed)
    {options options' : RunOptions}
    (hretry : options'.retry = options.retry)
    (hwriter : options'.writer = options.writer)
    {observers observers' : Observers} {now now' : Instant}
    {result found : RunResult}
    (hrun : (run graph input options observers now).outcome = .ok result)
    (hrun' : (run other input options' observers' now').outcome = .ok found)
    {id : String}
    (hid : ¬ changed id)
    (hreach : ∀ source, changed source → ¬ Relation.TransGen graph.Feeds source id) :
    result.AgreesAt found id := by
  have hanswer : ∀ node data,
      answer options graph.id node data = answer options' graph.id node data :=
    fun node data => (answer_congr hretry hwriter graph.id node data).symm
  obtain ⟨order, levels, outcomes, ended, hreturned, hreport⟩ := returned_of_run hwell hrun
  obtain ⟨order', levels', outcomes', ended', hreturned', hreport'⟩ :=
    returned_of_run (hsame.wellFormed hwell) hrun'
  rw [hreport] at hrun
  rw [hreport'] at hrun'
  exact hreturned.agreesAt hreturned' hrun hrun'
    (hreturned.resultOf_eq_of_outOfReach hsame hanswer hreturned' ⟨hid, hreach⟩)

end Run

namespace Graph

/-- Changing a node in any way that keeps its id. -/
theorem differsOnlyAt_modifyNode
    (graph : Graph)
    (id : String)
    {change : Node → Node}
    (hchange : ∀ node, (change node).id = node.id) :
    graph.DiffersOnlyAt (graph.modifyNode id change) fun other => other = id where
  id_eq := rfl
  edges_eq := rfl
  nodeIds := sameNodeIds_modifyNode graph id hchange
  nodes_eq other hother := by
    rw [modifyNode, KeyMap.get?_modify, if_neg (Ne.symm hother)]

/-- A node that is read along an active edge by one node, and along an inactive one by
another. -/
def dormant : Graph :=
  (create "g" "dormant" ⟨0⟩).after
    [.addNode "one" "source" (.object [("value", .int 1)])
        (.custom "constant" Registry.constant) ⟨0⟩,
      .addNode "reader" "sink" .emptyObject .passThrough ⟨0⟩,
      .addNode "stranger" "sink" .emptyObject .passThrough ⟨0⟩,
      .addEdge "one" "reader" .emptyObject ⟨0⟩,
      .insertEdge { Edge.fresh "one" "stranger" "data" {} ⟨0⟩ with active := false }]

/-- The same with another constant. -/
def dormantAnew : Graph :=
  dormant.modifyNode "one" fun node => { node with config := .object [("value", .int 2)] }

theorem wellFormed_dormant : dormant.WellFormed :=
  ((Reachable.create "dormant" ⟨0⟩ (by decide)).after _).wellFormed

theorem not_feeds_stranger
    (source : String) :
    ¬ dormant.Feeds source "stranger" := by
  have hnone :
      ∀ edge ∈ dormant.edges.values,
        edge.active = true → edge.target ≠ "stranger" := by
    decide
  rintro ⟨edge, hmem, hactive, -, htarget⟩
  exact hnone edge hmem hactive htarget

theorem not_reaches_stranger
    (source : String) :
    ¬ Relation.TransGen dormant.Feeds source "stranger" := by
  intro hreaches
  cases hreaches with
  | single hfeeds => exact not_feeds_stranger source hfeeds
  | tail _ hfeeds => exact not_feeds_stranger _ hfeeds

end Graph

namespace Run

/-- One run in turn and one in parallel: the node that reads the constant notices, the
other one does not. -/
theorem out_of_reach_unaffected_dormant :
    Graph.dormant.WellFormed ∧
    Graph.dormant.DiffersOnlyAt Graph.dormantAnew (fun id => id = "one") ∧
    ∃ result found,
      (run Graph.dormant (.int 7) {} [] ⟨0⟩).outcome = .ok result ∧
      (run Graph.dormantAnew (.int 7) { parallel := true } [] ⟨0⟩).outcome =
        .ok found ∧
      ¬ result.AgreesAt found "reader" ∧
      result.AgreesAt found "stranger" := by
  have hsame : Graph.dormant.DiffersOnlyAt Graph.dormantAnew fun id => id = "one" :=
    Graph.dormant.differsOnlyAt_modifyNode "one" fun _ => rfl
  obtain ⟨result, hrun, hread⟩ : ∃ result, (run Graph.dormant (.int 7) {} [] ⟨0⟩).outcome =
      .ok result ∧ result.flow.get? "reader" = some (.int 1) := ⟨_, rfl, rfl⟩
  obtain ⟨found, hrun', hread'⟩ : ∃ found,
    (run Graph.dormantAnew (.int 7) { parallel := true } []
      ⟨0⟩).outcome = .ok found ∧ found.flow.get? "reader" = some (.int 2) := ⟨_, rfl, rfl⟩
  have hretry : ({ parallel := true } : RunOptions).retry = ({} : RunOptions).retry := rfl
  have hwriter : ({ parallel := true } : RunOptions).writer = ({} : RunOptions).writer := rfl
  refine ⟨Graph.wellFormed_dormant, hsame, result, found, hrun, hrun', ?_, ?_⟩
  · intro h
    have hflow := h.flow
    rw [hread, hread'] at hflow
    cases hflow
  · exact out_of_reach_unaffected Graph.wellFormed_dormant hsame hretry hwriter hrun hrun'
      (by decide) fun source _ => Graph.not_reaches_stranger source

end Run

end PhaseFlow
