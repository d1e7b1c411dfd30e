import PhaseFlow.Proofs.Run.Dataflow

/-!
# The summary that a run returns

A result tells of one run several times: in two lists, in three maps, in its status and
its final output, and the graph that was run tells of it again. All of them are read off
the outcomes of the run. Every node has one outcome, and the failures among them are all
tolerated, so the outcomes are completions and tolerated failures, and each view shows
its part (`AccountsFor`, `SettledAs`).

Main statement: `run_accounts_for_every_node`.
-/

namespace PhaseFlow

theorem Error.message_ne_empty_of_isPhaseFailure
    {error : Error}
    (h : Run.isPhaseFailure error = true) :
    error.message ≠ "" := by
  cases error with
  | phaseFailed phase lastError attempts =>
      intro hempty
      have hlist := congrArg String.toList hempty
      simp [Error.message, Error.operation, Text.beforeNul] at hlist
  | _ => cases h

namespace RunResult

/-- The lists and the maps of a result tell of every node of a graph, each once. -/
structure AccountsFor
    (result : RunResult)
    (graph : Graph)
    (input : Json) : Prop where
  nodup_completed : result.completed.Nodup
  nodup_failed : result.failed.Nodup
  disjoint : ∀ id ∈ result.completed, id ∉ result.failed
  hasNode_iff :
    ∀ id, graph.hasNode id = true ↔ id ∈ result.completed ∨ id ∈ result.failed
  completed_sublist : result.completed.Sublist result.levels.flatten
  failed_sublist : result.failed.Sublist result.levels.flatten
  errors : ∀ id, id ∈ result.errors.keys ↔ id ∈ result.failed
  records : ∀ id, id ∈ result.records.keys ↔ id ∈ result.completed
  flow : ∀ key, key ∈ result.flow.keys ↔
    key ∈ result.completed ∨ key = Run.inputKey ∧ input ≠ .null
  output_ne_null : ∀ id ∈ result.completed, result.flow.get? id ≠ some .null
  tolerated : ∀ id ∈ result.failed, ∃ node, graph.nodes.get? id = some node ∧
    node.continuesOnError = true
  status : result.statusName = "success" ↔ result.failed = []
  final_of_last : ∀ last, result.completed.getLast? = some last →
    result.flow.get? last = some result.finalOutput
  final_of_none : result.completed = [] → result.finalOutput = .null

/-- A graph shows that its run is over, and what became of it. -/
structure SettledAs (result : RunResult) (graph : Graph) : Prop where
  stopped : graph.state.running = false
  idle : graph.state.currentPhase = ""
  not_running : ∀ id node, graph.nodes.get? id = some node → node.status ≠ .running
  lastError_iff : graph.state.lastError = "" ↔ result.statusName = "success"
  lastError_of_last : ∀ last, result.failed.getLast? = some last →
    result.errors.get? last = some graph.state.lastError

end RunResult

theorem RunStatus.name_eq_success_iff
    {status : RunStatus} :
    status.name = "success" ↔ status = .success := by
  cases status <;> decide

namespace Run

theorem statusOf_eq_success_iff
    {progress : Progress} :
    statusOf progress = .success ↔ progress.failed = [] := by
  unfold statusOf
  cases progress.failed <;> simp

theorem statusName_eq_success_iff
    {progress : Progress} :
    (statusOf progress).name = "success" ↔ progress.failed = [] :=
  RunStatus.name_eq_success_iff.trans statusOf_eq_success_iff

variable {setting : Setting} {graph : Graph} {input : Json}
variable {order : List String} {levels : List (List String)}
variable {outcomes : List NodeOutcome} {ended : Progress}

/-- No phase completes with the null value. -/
theorem output_ne_null_of_answer
    {options : RunOptions} {graphId : String} {node : Node} {data : Json}
    {done : Completion}
    (h : answer options graphId node data = .ok done) :
    done.output ≠ .null := by
  unfold answer at h
  cases hrun : Execution.run (invocation options graphId node data) options.retry {} 0 with
  | error fault =>
      rw [hrun] at h
      cases h
  | ok execution =>
      rw [hrun] at h
      exact Execution.output_ne_null_of_run hrun done (Answer.mapError_eq_ok_iff.1 h)

/-! ## The outcomes of a run that returned -/

/-- Every node has completed or failed. -/
theorem Returned.hasNode_iff
    (h : Returned setting graph input order levels outcomes ended)
    {id : String} :
    graph.hasNode id = true ↔ id ∈ ended.completed ∨ id ∈ ended.failed := by
  rw [h.mem_completed_iff, h.mem_failed_iff]
  constructor
  · intro hnode
    obtain ⟨outcome, -, -, hfound⟩ := h.outcomeOf_node hnode
    cases hresult : outcome.result with
    | ok done => exact .inl ⟨done, completionOf_eq_some_iff.2 ⟨outcome, hfound, hresult⟩⟩
    | error error => exact .inr ⟨error, errorOf_eq_some_iff.2 ⟨outcome, hfound, hresult⟩⟩
  · rintro (⟨done, hdone⟩ | ⟨error, herror⟩)
    · obtain ⟨outcome, hfound, -⟩ := completionOf_eq_some_iff.1 hdone
      obtain ⟨hmem, rfl⟩ := mem_of_outcomeOf hfound
      exact h.course.hasNode outcome.id (List.mem_map_of_mem hmem)
    · obtain ⟨outcome, hfound, -⟩ := errorOf_eq_some_iff.1 herror
      obtain ⟨hmem, rfl⟩ := mem_of_outcomeOf hfound
      exact h.course.hasNode outcome.id (List.mem_map_of_mem hmem)

/-- No node has done both. -/
theorem Returned.not_mem_failed
    (h : Returned setting graph input order levels outcomes ended)
    {id : String}
    (hid : id ∈ ended.completed) :
    id ∉ ended.failed := by
  intro hfailed
  obtain ⟨done, hdone⟩ := h.mem_completed_iff.1 hid
  obtain ⟨error, herror⟩ := h.mem_failed_iff.1 hfailed
  obtain ⟨outcome, hfound, hresult⟩ := completionOf_eq_some_iff.1 hdone
  obtain ⟨other, hother, hfailure⟩ := errorOf_eq_some_iff.1 herror
  obtain rfl := Option.some.inj (hfound.symm.trans hother)
  rw [hresult] at hfailure
  cases hfailure

/-- A run has failed at no node exactly if all nodes are completed. -/
theorem failed_eq_nil_iff
    {options : RunOptions} {observers : Observers} {now : Instant}
    (hwell : graph.WellFormed)
    {result : RunResult}
    (h : (run graph input options observers now).outcome = .ok result) :
    result.failed = [] ↔ ∀ id, graph.hasNode id = true → id ∈ result.completed := by
  obtain ⟨order, levels, outcomes, ended, hreturned, hrun⟩ := returned_of_run hwell h
  rw [hrun] at h
  cases h
  show ended.failed = [] ↔ ∀ id, graph.hasNode id = true → id ∈ ended.completed
  constructor
  · intro hnil id hnode
    rcases hreturned.hasNode_iff.1 hnode with hcompleted | hfailed
    · exact hcompleted
    · rw [hnil] at hfailed
      cases hfailed
  · intro hall
    by_contra hne
    obtain ⟨id, hfailed⟩ := List.exists_mem_of_ne_nil _ hne
    exact hreturned.not_mem_failed (hall id (hreturned.hasNode_iff.2 (.inr hfailed))) hfailed

/-- Outcomes are listed in the order of the levels. -/
theorem Returned.sublist_levels
    (h : Returned setting graph input order levels outcomes ended)
    (keep : NodeOutcome → Bool) :
    ((outcomes.filter keep).map NodeOutcome.id).Sublist levels.flatten := by
  rw [← h.all]
  exact List.filter_sublist.map NodeOutcome.id

/-- A node that completed has put out a value. -/
theorem Returned.get?_flow_completed
    (h : Returned setting graph input order levels outcomes ended)
    {id : String}
    (hid : id ∈ ended.completed) :
    ∃ value, ended.flow.get? id = some value ∧ value ≠ .null := by
  obtain ⟨done, hdone⟩ := h.mem_completed_iff.1 hid
  refine ⟨done.output, ?_, ?_⟩
  · rw [h.get?_flow_node (h.hasNode_iff.2 (.inl hid)), hdone]
    rfl
  · obtain ⟨outcome, hfound, hresult⟩ := completionOf_eq_some_iff.1 hdone
    obtain ⟨hmem, rfl⟩ := mem_of_outcomeOf hfound
    obtain ⟨node, -, hanswer⟩ := h.course.solves.answers outcome hmem
    exact output_ne_null_of_answer (hanswer.symm.trans hresult)

/-- A node whose failure was tolerated has an error on record, the error of a phase. -/
theorem Returned.get?_errors_failed
    (h : Returned setting graph input order levels outcomes ended)
    {id : String}
    (hid : id ∈ ended.failed) :
    ∃ text,
      ended.errors.get? id = some text ∧
      text ≠ "" ∧
      ∃ node, graph.nodes.get? id = some node ∧ node.continuesOnError = true := by
  obtain ⟨error, herror⟩ := h.mem_failed_iff.1 hid
  obtain ⟨hfailure, hnode⟩ := Bool.and_eq_true_iff.1 (h.tolerates_of_error herror)
  refine ⟨error.message, ?_, Error.message_ne_empty_of_isPhaseFailure hfailure, ?_⟩
  · rw [h.course.account.errors, herror]
    rfl
  · exact (Option.any_eq_true _ _).1 hnode

theorem Returned.mem_keys_errors
    (h : Returned setting graph input order levels outcomes ended)
    {id : String} :
    id ∈ ended.errors.keys ↔ id ∈ ended.failed := by
  have herrors : ended.errors.get? id = ((errorOf outcomes id).map Error.message).or none :=
    h.course.account.errors id
  rw [KeyMap.mem_keys_iff, h.mem_failed_iff, herrors]
  simp

theorem Returned.mem_keys_records
    (h : Returned setting graph input order levels outcomes ended)
    {id : String} :
    id ∈ ended.records.keys ↔ id ∈ ended.completed := by
  have hrecords : (ended.records.get? id).map PhaseRecord.attempts =
      ((completionOf outcomes id).map Completion.attempts).or none :=
        h.course.account.attempts id
  rw [KeyMap.mem_keys_iff, h.mem_completed_iff, ← Option.isSome_iff_exists,
    ← Option.isSome_iff_exists,
    ← Option.isSome_map (f := PhaseRecord.attempts), hrecords, Option.or_none,
      Option.isSome_map]

/-- There is an output for every completed node, and the input if it is not null. -/
theorem Returned.mem_keys_flow
    (h : Returned setting graph input order levels outcomes ended)
    {key : String} :
    key ∈ ended.flow.keys ↔
      key ∈ ended.completed ∨ key = inputKey ∧ input ≠ .null := by
  rw [KeyMap.mem_keys_iff]
  by_cases hkey : key = inputKey
  · subst hkey
    have hnot : inputKey ∉ ended.completed := by
      intro hmem
      have hnode := h.hasNode_iff.2 (.inl hmem)
      rw [h.input_not_node] at hnode
      cases hnode
    rw [Transcript.get?_flow_input h.toTranscript h.input_not_node]
    simp only [hnot, false_or, true_and, opening, Ne, ← Json.isNull_iff]
    cases input.isNull <;> simp
  · rw [Transcript.get?_flow h.toTranscript hkey, h.mem_completed_iff]
    simp [hkey]

/-! ## The summary -/

theorem Returned.accountsFor
    (h : Returned setting graph input order levels outcomes ended)
    {result : RunResult}
    (hresult : (finished ended order levels).outcome = .ok result) :
    result.AccountsFor graph input := by
  cases hresult
  have hcompleted : ended.completed = completedIn outcomes := h.course.account.completed
  have hfailed : ended.failed = toleratedIn graph outcomes := h.course.account.failed
  constructor
  case nodup_completed =>
    dsimp only
    rw [hcompleted]
    exact nodup_map_id_filter h.course.nodup _
  case nodup_failed =>
    dsimp only
    rw [hfailed]
    exact nodup_map_id_filter h.course.nodup _
  case disjoint => exact fun id hid => h.not_mem_failed hid
  case hasNode_iff => exact fun id => h.hasNode_iff
  case completed_sublist =>
    dsimp only
    rw [hcompleted]
    exact h.sublist_levels _
  case failed_sublist =>
    dsimp only
    rw [hfailed]
    exact h.sublist_levels _
  case errors => exact fun id => h.mem_keys_errors
  case records => exact fun id => h.mem_keys_records
  case flow => exact fun key => h.mem_keys_flow
  case output_ne_null =>
    intro id hid hnull
    obtain ⟨value, hvalue, hne⟩ := h.get?_flow_completed hid
    exact hne (Option.some.inj (hvalue.symm.trans hnull))
  case tolerated =>
    intro id hid
    obtain ⟨text, -, -, hnode⟩ := h.get?_errors_failed hid
    exact hnode
  case status => exact statusName_eq_success_iff
  case final_of_last =>
    intro last hlast
    obtain ⟨value, hvalue, -⟩ := h.get?_flow_completed (List.mem_of_getLast? hlast)
    dsimp only at hlast
    simp only [lastOutput, hlast, KeyMap.getD, hvalue, Option.getD_some]
  case final_of_none =>
    intro hnone
    dsimp only at hnone
    simp only [lastOutput, hnone, List.getLast?_nil]

/-- The graph before the end of the run holds no error, and afterwards that of the last
failed node. -/
theorem Returned.lastError_settled
    (h : Returned setting graph input order levels outcomes ended) :
    (ended.failed = [] ∧
      (finished ended order levels).graph.state.lastError = "") ∨
    ∃ last,
      ended.failed.getLast? = some last ∧
      ended.errors.get? last =
        some (finished ended order levels).graph.state.lastError ∧
      (finished ended order levels).graph.state.lastError ≠ "" := by
  have hstate : ended.graph.state.lastError = "" :=
    congrArg RunState.lastError h.course.account.state
  cases hlast : ended.failed.getLast? with
  | none =>
      have hnil := List.getLast?_eq_none_iff.1 hlast
      refine .inl ⟨hnil, ?_⟩
      simp only [finished, settled, hlast, Option.bind_none, Option.getD_none]
      exact hstate
  | some last =>
      obtain ⟨text, htext, hne, -⟩ := h.get?_errors_failed (List.mem_of_getLast? hlast)
      have hsettled : (finished ended order levels).graph.state.lastError = text := by
        simp only [finished, settled, hlast, Option.bind_some, htext, Option.getD_some]
      rw [hsettled]
      exact .inr ⟨last, rfl, htext, hne⟩

/-- Every node has an outcome, which has taken it out of the running ones. -/
theorem Returned.status_ne_running
    (h : Returned setting graph input order levels outcomes ended)
    {id : String} {node : Node}
    (hnode : ended.graph.nodes.get? id = some node) :
    node.status ≠ .running := by
  rw [h.course.account.nodes] at hnode
  obtain ⟨origin, horigin, rfl⟩ := Option.map_eq_some_iff.1 hnode
  obtain ⟨outcome, -, -, hfound⟩ := h.outcomeOf_node (Graph.hasNode_iff.2 ⟨origin, horigin⟩)
  simp only [nodeOf, hfound, nodeAfter]
  split <;> simp [Node.succeeded, Node.failed]

theorem Returned.settledAs
    (h : Returned setting graph input order levels outcomes ended)
    {result : RunResult}
    (hresult : (finished ended order levels).outcome = .ok result) :
    result.SettledAs (finished ended order levels).graph := by
  cases hresult
  constructor
  case stopped => rfl
  case idle => rfl
  case not_running => exact fun id node hnode => h.status_ne_running hnode
  case lastError_iff =>
    refine Iff.trans ?_ statusName_eq_success_iff.symm
    rcases h.lastError_settled with ⟨hnil, hempty⟩ | ⟨last, hlast, -, hne⟩
    · exact ⟨fun _ => hnil, fun _ => hempty⟩
    · refine ⟨fun hempty => absurd hempty hne, fun hnil => ?_⟩
      rw [hnil] at hlast
      cases hlast
  case lastError_of_last =>
    intro last hlast
    dsimp only at hlast
    rcases h.lastError_settled with ⟨hnil, -⟩ | ⟨found, hfound, herror, -⟩
    · rw [hnil] at hlast
      cases hlast
    · obtain rfl := Option.some.inj (hfound.symm.trans hlast)
      exact herror

/-- **The status of a result agrees with its failures.** -/
theorem isSuccess_iff_of_run
    (hwell : graph.WellFormed)
    {options : RunOptions} {observers : Observers} {now : Instant}
    {result : RunResult}
    (hrun : (run graph input options observers now).outcome = .ok result) :
    result.isSuccess = true ↔ result.failed = [] := by
  obtain ⟨order, levels, outcomes, ended, -, hreport⟩ := returned_of_run hwell hrun
  rw [hreport] at hrun
  cases hrun
  exact decide_eq_true_iff.trans statusOf_eq_success_iff

/-- **A result accounts for every node once**, in all the views that it has of the run,
and the graph is left as the result says. -/
theorem run_accounts_for_every_node
    (hwell : graph.WellFormed)
    {options : RunOptions} {observers : Observers} {now : Instant}
    {result : RunResult}
    (hrun : (run graph input options observers now).outcome = .ok result) :
    result.AccountsFor graph input ∧
    result.SettledAs (run graph input options observers now).graph := by
  obtain ⟨order, levels, outcomes, ended, hreturned, hreport⟩ := returned_of_run hwell hrun
  rw [hreport] at hrun ⊢
  exact ⟨hreturned.accountsFor hrun, hreturned.settledAs hrun⟩

/-- The last node of `threeNodes` fails, which it tolerates. -/
theorem run_accounts_for_every_node_threeNodes :
    threeNodes.WellFormed ∧
    ∃ result,
      (run threeNodes .null {} [] ⟨0⟩).outcome = .ok result ∧
      result.failed = ["none"] ∧
      result.AccountsFor threeNodes .null ∧
      result.SettledAs (run threeNodes .null {} [] ⟨0⟩).graph := by
  have hwell := reachable_threeNodes.wellFormed
  refine ⟨hwell, _, rfl, ?_, run_accounts_for_every_node hwell rfl⟩
  rfl

end Run

end PhaseFlow
