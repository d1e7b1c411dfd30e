import PhaseFlow.Executor.Registry
import PhaseFlow.Proofs.Run.Course

/-!
# A run solves the equations of its graph

When a run returns, every node has completed with its answer on its input, or its answer
on its input is the failure on record; the input is what the outputs in the result make
up, and no node was executed on anything else (`run_solves_dataflow`). This holds for
both ways to choose the levels.
-/

namespace PhaseFlow

namespace RunResult

/-- The node completed, and its output is a value. -/
def CompletedWith (result : RunResult) (id : String) (value : Json) : Prop :=
  id ∈ result.completed ∧ result.flow.get? id = some value

/-- The node failed with a text, and there is no output of it. -/
def FailedWith (result : RunResult) (id : String) (text : String) : Prop :=
  id ∈ result.failed ∧ result.errors.get? id = some text ∧ result.flow.get? id = none

end RunResult

namespace Run

variable {setting : Setting} {graph : Graph} {input : Json}
variable {order : List String} {levels : List (List String)}
variable {outcomes : List NodeOutcome} {ended : Progress}

/-- The output of a node is that of its completion. -/
theorem Returned.get?_flow_node
    (h : Returned setting graph input order levels outcomes ended)
    {id : String}
    (hid : graph.hasNode id = true) :
    ended.flow.get? id = (completionOf outcomes id).map Completion.output := by
  have hne : id ≠ inputKey := by
    rintro rfl
    rw [h.input_not_node] at hid
    cases hid
  exact Transcript.get?_flow h.toTranscript hne

/-- The answer of a node is the result of its outcome. -/
theorem Returned.outcome_answers
    (h : Returned setting graph input order levels outcomes ended)
    {id : String} {node : Node}
    (hnode : graph.nodes.get? id = some node) :
    ∃ outcome,
      outcomeOf outcomes id = some outcome ∧
      outcome.result =
        answer setting.options graph.id node (assembleInput graph ended.flow id) := by
  obtain ⟨outcome, hmem, rfl, houtcome⟩ :=
    h.outcomeOf_node (Graph.hasNode_iff.2 ⟨node, hnode⟩)
  obtain ⟨found, hfound, hanswer⟩ := h.course.solves.answers outcome hmem
  obtain rfl : node = found := Option.some.inj (hnode.symm.trans hfound)
  exact ⟨outcome, houtcome, hanswer⟩

theorem Returned.tolerates_of_error
    (h : Returned setting graph input order levels outcomes ended)
    {id : String} {error : Error}
    (herror : errorOf outcomes id = some error) :
    tolerates graph id error = true := by
  obtain ⟨outcome, hfound, hresult⟩ := errorOf_eq_some_iff.1 herror
  obtain ⟨hmem, rfl⟩ := mem_of_outcomeOf hfound
  exact fatal?_eq_none_iff.1 (h.tolerated outcome hmem) error hresult

theorem Returned.mem_completed_iff
    (h : Returned setting graph input order levels outcomes ended)
    {id : String} :
    id ∈ ended.completed ↔ ∃ done, completionOf outcomes id = some done := by
  rw [h.course.account.completed]
  exact mem_completedIn h.course.nodup

/-- Every failure is tolerated, so every failed node is on the list. -/
theorem Returned.mem_failed_iff
    (h : Returned setting graph input order levels outcomes ended)
    {id : String} :
    id ∈ ended.failed ↔ ∃ error, errorOf outcomes id = some error := by
  rw [h.course.account.failed]
  refine (mem_toleratedIn h.course.nodup).trans (exists_congr fun error => ?_)
  exact ⟨And.left, fun herror => ⟨herror, h.tolerates_of_error herror⟩⟩

theorem Returned.completed_iff
    (h : Returned setting graph input order levels outcomes ended)
    {id : String} {node : Node}
    (hnode : graph.nodes.get? id = some node)
    (value : Json) :
    id ∈ ended.completed ∧ ended.flow.get? id = some value ↔
      ∃ done,
        answer setting.options graph.id node
          (assembleInput graph ended.flow id) =
          .ok done ∧
        done.output = value := by
  obtain ⟨outcome, houtcome, hanswer⟩ := h.outcome_answers hnode
  rw [h.mem_completed_iff, h.get?_flow_node (Graph.hasNode_iff.2 ⟨node, hnode⟩), ← hanswer,
    completionOf, houtcome]
  cases hresult : outcome.result with
  | ok done => simp [Except.toOption, hresult]
  | error error => simp [Except.toOption, hresult]

theorem Returned.failed_iff
    (h : Returned setting graph input order levels outcomes ended)
    {id : String} {node : Node}
    (hnode : graph.nodes.get? id = some node)
    (text : String) :
    id ∈ ended.failed ∧
    ended.errors.get? id = some text ∧
    ended.flow.get? id = none ↔
      ∃ error,
        answer setting.options graph.id node
          (assembleInput graph ended.flow id) =
          .error error ∧
        error.message = text := by
  obtain ⟨outcome, houtcome, hanswer⟩ := h.outcome_answers hnode
  have herrors : ended.errors.get? id = ((errorOf outcomes id).map Error.message).or none :=
    h.course.account.errors id
  rw [h.mem_failed_iff, herrors, h.get?_flow_node (Graph.hasNode_iff.2 ⟨node, hnode⟩),
    ← hanswer, completionOf, errorOf, houtcome]
  cases hresult : outcome.result with
  | ok done => simp [Except.toOption, hresult]
  | error error => simp [Except.toOption, hresult]

/-- The log of a run shows no input of a node but the one that the final outputs make
up. -/
theorem Returned.preview_eq
    (h : Returned setting graph input order levels outcomes ended)
    {subject : Log.Subject} {data : Json}
    (hevent :
        Log.Event.preview subject "input" data ∈ (finished ended order levels).events) :
    data = assembleInput graph ended.flow subject.nodeId := by
  have hended : Log.Event.preview subject "input" data ∈ ended.events := by
    rcases List.mem_append.1 hevent with hmem | hmem
    · exact hmem
    · simp at hmem
  rcases h.course.shown subject "input" data hended with hstart | ⟨outcome, hmem, hshown⟩
  · simp [opening] at hstart
  · obtain ⟨hid, hdata⟩ := h.course.solves.shows outcome hmem subject data hshown
    rw [hid]
    exact hdata

/-- **A run is a solution of the equations of its graph.** With the outputs of the
result, a node completed with a value exactly if it answers that value on its input, and
it failed with a text exactly if it answers an error with that text; the log shows no
other input of it. -/
theorem run_solves_dataflow
    (hgraph : graph.Reachable)
    {options : RunOptions} {observers : Observers} {now : Instant}
    {result : RunResult}
    (hrun : (run graph input options observers now).outcome = .ok result)
    {id : String} {node : Node}
    (hnode : graph.nodes.get? id = some node) :
    (∀ value,
        result.CompletedWith id value ↔
          ∃ done,
            answer options graph.id node (assembleInput graph result.flow id) =
              .ok done ∧
            done.output = value) ∧
    (∀ text,
        result.FailedWith id text ↔
          ∃ error,
            answer options graph.id node (assembleInput graph result.flow id) =
              .error error ∧
            error.message = text) ∧
    (∀ subject data,
        Log.Event.preview subject "input" data ∈
          (run graph input options observers now).events →
        subject.nodeId = id →
        data = assembleInput graph result.flow id) := by
  obtain ⟨order, levels, outcomes, ended, hreturned, hreport⟩ :=
    returned_of_run hgraph.wellFormed hrun
  rw [hreport] at hrun ⊢
  cases hrun
  refine ⟨hreturned.completed_iff hnode, hreturned.failed_iff hnode, ?_⟩
  rintro subject data hevent rfl
  exact hreturned.preview_eq hevent

/-- The constant `1`, a node that passes it on, and a node without a constant whose
failure is tolerated. -/
def threeNodes : Graph :=
  (Graph.create "g" "three nodes" ⟨0⟩).after
    [.addNode "one" "source" (.object [("value", .int 1)])
        (.custom "constant" Registry.constant) ⟨0⟩,
      .addNode "sink" "sink" .emptyObject .passThrough ⟨0⟩,
      .addNode "none" "source" (.object [("continue_on_error", .bool true)])
        (.custom "constant" Registry.constant) ⟨0⟩,
      .addEdge "one" "sink" .emptyObject ⟨0⟩, .addEdge "none" "sink" .emptyObject ⟨0⟩]

theorem reachable_threeNodes : threeNodes.Reachable :=
  (Graph.Reachable.create "three nodes" ⟨0⟩ (by decide)).after _

theorem run_threeNodes :
    ∃ result, (run threeNodes .null {} [] ⟨0⟩).outcome = .ok result :=
  ⟨_, rfl⟩

theorem run_solves_dataflow_threeNodes :
    threeNodes.Reachable ∧
    ∃ result node,
      (run threeNodes .null {} [] ⟨0⟩).outcome = .ok result ∧
      threeNodes.nodes.get? "sink" = some node ∧
      (∀ value,
          result.CompletedWith "sink" value ↔
            ∃ done,
              answer {} threeNodes.id node
                (assembleInput threeNodes result.flow "sink") =
                .ok done ∧
              done.output = value) := by
  obtain ⟨result, hrun⟩ := run_threeNodes
  exact ⟨reachable_threeNodes, result, _, hrun, rfl,
    (run_solves_dataflow reachable_threeNodes hrun rfl).1⟩

end Run

end PhaseFlow
