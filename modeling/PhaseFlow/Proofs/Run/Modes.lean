import PhaseFlow.Proofs.Run.Agreement

/-!
# The mode of a run does not matter

Two runs of one graph that choose their levels differently merge their outcomes in
different orders, and a run that is aborted may have merged more nodes than the other.
Still, each node that has an outcome in both answers the same in both, since nothing has
changed that could reach it (`Transcript.resultOf_eq`).

Hence both runs return or neither does, and two runs that return have computed the same
(`parallel_agrees_with_sequential`).
-/

namespace PhaseFlow

namespace Run

variable {left right : Setting} {graph : Graph} {input : Json}
variable {order : List String} {levels levels' : List (List String)}
variable {outcomes outcomes' : List NodeOutcome} {ended ended' : Progress}

/-- Where one run returned, another one has met no failure that is not tolerated. -/
theorem Returned.tolerates_other
    (hanswer :
        ∀ node data,
          answer left.options graph.id node data =
            answer right.options graph.id node data)
    (h : Returned left graph input order levels outcomes ended)
    (h' : Transcript right graph input order levels' outcomes' ended') :
    ∀ outcome ∈ outcomes', outcome.fatal? graph = none := by
  intro outcome hmem
  have hid : outcome.id ∈ outcomes'.map NodeOutcome.id := List.mem_map_of_mem hmem
  have hnode : graph.hasNode outcome.id = true := h'.course.hasNode outcome.id hid
  have horder := Schedule.executionOrder_isOrder h.order_eq
  have hplaced : outcome.id ∈ order :=
    horder.perm.mem_iff.2 (Schedule.mem_keys_iff_hasNode.2 hnode)
  obtain ⟨other, hother, hsame, hfound⟩ := h.outcomeOf_node hnode
  have hresult :=
    Transcript.resultOf_eq (Graph.DiffersOnlyAt.refl graph) h.input_not_node horder
      hanswer
    h.toTranscript h' outcome.id hplaced (graph.outOfReach_of_no_change outcome.id)
    (hsame ▸ List.mem_map_of_mem hother) hid
  rw [resultOf, resultOf, hfound, outcomeOf_of_mem h'.course.nodup hmem] at hresult
  have hsameResult : other.result = outcome.result := Option.some.inj hresult
  have hfatal := h.tolerated other hother
  unfold NodeOutcome.fatal? at hfatal ⊢
  rw [← hsame, ← hsameResult]
  exact hfatal

/-- If a run returns, so does every other run of the graph whose nodes answer the
same. -/
theorem isOk_of_isOk
    {options options' : RunOptions} {observers observers' : Observers}
    {now now' : Instant}
    (hwell : graph.WellFormed)
    (hanswer :
        ∀ node data,
          answer options graph.id node data = answer options' graph.id node data)
    (h : (run graph input options observers now).outcome.isOk = true) :
    (run graph input options' observers' now').outcome.isOk = true := by
  cases houtcome : (run graph input options observers now).outcome with
  | error error =>
      rw [houtcome] at h
      cases h
  | ok result =>
      obtain ⟨order, levels, outcomes, ended, hreturned, -⟩ := returned_of_run hwell houtcome
      obtain ⟨levels', outcomes', ended', -, htranscript, hend⟩ :=
        course_of_order options' input observers' now' hwell hreturned.input_not_node
          hreturned.order_eq
      rcases hend with ⟨-, -, hrun⟩ | ⟨error, hstops, -⟩
      · rw [hrun]
        rfl
      · obtain ⟨outcome, hmem, hfatal⟩ := hstops.exists_fatal
        rw [hreturned.tolerates_other hanswer htranscript outcome hmem] at hfatal
        cases hfatal

/-! ## Two runs that return -/

theorem Returned.resultOf_eq
    (hanswer :
        ∀ node data,
          answer left.options graph.id node data =
            answer right.options graph.id node data)
    (h : Returned left graph input order levels outcomes ended)
    (h' : Returned right graph input order levels' outcomes' ended') :
    resultOf outcomes = resultOf outcomes' :=
  funext fun id => h.resultOf_eq_of_outOfReach (Graph.DiffersOnlyAt.refl graph) hanswer h'
    (graph.outOfReach_of_no_change id)

/-- What two reports and their results have in common if the runs computed the same. -/
structure SameComputation
    (report other : Report)
    (result found : RunResult) : Prop where
  flow : result.flow = found.flow
  errors : result.errors = found.errors
  status : result.statusName = found.statusName
  attempts : ∀ id, (result.records.get? id).map PhaseRecord.attempts =
    (found.records.get? id).map PhaseRecord.attempts
  completed : result.completed.Perm found.completed
  failed : result.failed.Perm found.failed
  nodes :
    ∀ id,
      (report.graph.nodes.get? id).map
        (fun node => (node.status, node.runCount, node.errorCount)) =
        (other.graph.nodes.get? id).map fun node =>
          (node.status, node.runCount, node.errorCount)
  edges : ∀ id,
    (report.graph.edges.get? id).map (fun edge => (edge.messages, edge.bytes)) =
      (other.graph.edges.get? id).map fun edge => (edge.messages, edge.bytes)

/-- The statistics of a node after its outcome depend on the kind of its result only. -/
theorem statistics_nodeOf
    {begun begun' : Instant} {id : String}
    (hresult : resultOf outcomes id = resultOf outcomes' id)
    (node : Node) :
    ((nodeOf begun outcomes [] id node).status,
      (nodeOf begun outcomes [] id node).runCount,
      (nodeOf begun outcomes [] id node).errorCount) =
      ((nodeOf begun' outcomes' [] id node).status,
        (nodeOf begun' outcomes' [] id node).runCount,
        (nodeOf begun' outcomes' [] id node).errorCount) := by
  unfold resultOf at hresult
  unfold nodeOf nodeAfter
  cases hfound : outcomeOf outcomes id with
  | none =>
      rw [hfound] at hresult
      rw [Option.map_eq_none_iff.1 hresult.symm]
  | some outcome =>
      rw [hfound] at hresult
      obtain ⟨other, hother, hsame⟩ := Option.map_eq_some_iff.1 hresult.symm
      rw [hother]
      dsimp only
      rw [hsame]
      cases outcome.result with
      | ok done => simp only [Node.succeeded]
      | error error => simp only [Node.failed]

section SameResults

variable (hresult : resultOf outcomes = resultOf outcomes')
include hresult

theorem completionOf_congr : completionOf outcomes = completionOf outcomes' := by
  funext id
  rw [completionOf_eq, completionOf_eq, hresult]

theorem errorOf_congr : errorOf outcomes = errorOf outcomes' := by
  funext id
  rw [errorOf_eq, errorOf_eq, hresult]

theorem edgeAfter_congr : edgeAfter outcomes = edgeAfter outcomes' := by
  funext edge
  rw [edgeAfter, edgeAfter, completionOf_congr hresult]

/-- The same nodes are completed, in whatever order they were merged. -/
theorem completedIn_perm
    (hnodup : (outcomes.map NodeOutcome.id).Nodup)
    (hnodup' : (outcomes'.map NodeOutcome.id).Nodup) :
    (completedIn outcomes).Perm (completedIn outcomes') := by
  refine (List.perm_ext_iff_of_nodup (nodup_map_id_filter hnodup _)
    (nodup_map_id_filter hnodup' _)).2 fun id => ?_
  exact (mem_completedIn hnodup).trans
    (completionOf_congr hresult ▸ (mem_completedIn hnodup').symm)

/-- The same failures are tolerated, in whatever order they were merged. -/
theorem toleratedIn_perm
    (hnodup : (outcomes.map NodeOutcome.id).Nodup)
    (hnodup' : (outcomes'.map NodeOutcome.id).Nodup) :
    (toleratedIn graph outcomes).Perm (toleratedIn graph outcomes') := by
  refine (List.perm_ext_iff_of_nodup (nodup_map_id_filter hnodup _)
    (nodup_map_id_filter hnodup' _)).2 fun id => ?_
  exact (mem_toleratedIn hnodup).trans
    (errorOf_congr hresult ▸ (mem_toleratedIn hnodup').symm)

end SameResults

theorem Returned.sameComputation
    (hanswer :
        ∀ node data,
          answer left.options graph.id node data =
            answer right.options graph.id node data)
    (h : Returned left graph input order levels outcomes ended)
    (h' : Returned right graph input order levels' outcomes' ended')
    {result found : RunResult}
    (hresult : (finished ended order levels).outcome = .ok result)
    (hfound : (finished ended' order levels').outcome = .ok found) :
    SameComputation (finished ended order levels)
      (finished ended' order levels') result found := by
  cases hresult
  cases hfound
  have hsame := h.resultOf_eq hanswer h'
  have haccount := h.course.account
  have haccount' := h'.course.account
  have hcompleted : ended.completed.Perm ended'.completed := by
    rw [haccount.completed, haccount'.completed]
    exact completedIn_perm hsame h.course.nodup h'.course.nodup
  have hfailed : ended.failed.Perm ended'.failed := by
    rw [haccount.failed, haccount'.failed]
    exact toleratedIn_perm hsame h.course.nodup h'.course.nodup
  constructor
  case flow =>
    refine KeyMap.ext_get? fun key => ?_
    rw [haccount.flow, haccount'.flow, completionOf_congr hsame]
    rfl
  case errors =>
    refine KeyMap.ext_get? fun id => ?_
    rw [haccount.errors, haccount'.errors, errorOf_congr hsame]
    rfl
  case status =>
    have hempty : ended.failed.isEmpty = ended'.failed.isEmpty := by
      rw [Bool.eq_iff_iff, List.isEmpty_iff, List.isEmpty_iff]
      exact ⟨fun hnil => List.nil_perm.1 (hnil ▸ hfailed),
        fun hnil => List.perm_nil.1 (hnil ▸ hfailed)⟩
    show (statusOf ended).name = (statusOf ended').name
    rw [statusOf, statusOf, hempty]
  case attempts =>
    intro id
    dsimp only
    rw [haccount.attempts, haccount'.attempts, completionOf_congr hsame]
    rfl
  case completed => exact hcompleted
  case failed => exact hfailed
  case nodes =>
    intro id
    show (ended.graph.nodes.get? id).map _ = (ended'.graph.nodes.get? id).map _
    rw [haccount.nodes, haccount'.nodes, Option.map_map, Option.map_map]
    congr 1
    exact funext fun node => statistics_nodeOf (congrFun hsame id) node
  case edges =>
    intro id
    show (ended.graph.edges.get? id).map _ = (ended'.graph.edges.get? id).map _
    rw [haccount.edges, haccount'.edges, edgeAfter_congr hsame]
    rfl

/-- **The mode does not change what a run computes.** The run in parallel returns
exactly if the run in turn does, and then both have computed the same, whoever observes
them and whenever they start. -/
theorem parallel_agrees_with_sequential
    (hgraph : graph.Reachable)
    (input : Json)
    (options : RunOptions)
    (observers observers' : Observers)
    (now now' : Instant) :
    ((run graph input { options with parallel := true }
          observers now).outcome.isOk =
        true ↔
        (run graph input { options with parallel := false }
            observers' now').outcome.isOk =
          true) ∧
    ∀ result found,
      (run graph input { options with parallel := true } observers
          now).outcome =
        .ok result →
      (run graph input { options with parallel := false } observers'
          now').outcome =
        .ok found →
      SameComputation
        (run graph input { options with parallel := true } observers now)
        (run graph input { options with parallel := false } observers' now')
        result found := by
  have hwell := hgraph.wellFormed
  have hanswer : ∀ node data, answer { options with parallel := true } graph.id node data =
      answer { options with parallel := false } graph.id node data := by
    intro node data
    exact (answer_parallel options true graph.id node data).trans
      (answer_parallel options false graph.id node data).symm
  constructor
  · constructor
    · exact isOk_of_isOk hwell hanswer
    · exact isOk_of_isOk hwell fun node data => (hanswer node data).symm
  · intro result found hresult hfound
    obtain ⟨order, levels, outcomes, ended, hreturned, hreport⟩ :=
      returned_of_run hwell hresult
    obtain ⟨order', levels', outcomes', ended', hreturned', hreport'⟩ :=
      returned_of_run hwell hfound
    obtain rfl : order = order' :=
      Except.ok.inj (hreturned.order_eq.symm.trans hreturned'.order_eq)
    rw [hreport] at hresult ⊢
    rw [hreport'] at hfound ⊢
    exact hreturned.sameComputation hanswer hreturned' hresult hfound

theorem parallel_agrees_with_sequential_threeNodes :
    threeNodes.Reachable ∧
    (run threeNodes .null { parallel := true } [] ⟨0⟩).outcome.isOk = true ∧
    ∀ result found,
      (run threeNodes .null { parallel := true } [] ⟨0⟩).outcome = .ok result →
      (run threeNodes .null { parallel := false } [] ⟨0⟩).outcome = .ok found →
      SameComputation (run threeNodes .null { parallel := true } [] ⟨0⟩)
        (run threeNodes .null { parallel := false } [] ⟨0⟩) result found :=
  ⟨reachable_threeNodes, rfl,
    (parallel_agrees_with_sequential reachable_threeNodes .null {} [] [] ⟨0⟩ ⟨0⟩).2⟩

end Run

end PhaseFlow
