import PhaseFlow.Proofs.Run.Dataflow
import PhaseFlow.Proofs.Run.Record
import PhaseFlow.Proofs.Schedule.Cycle

/-!
# Aborted runs

A run that is aborted has executed the levels up to the one at which it stops, this one
included, and nothing else. What it leaves behind is `Aborted`: the nodes of these
levels have one more success or one more failure each, all other nodes and their
outgoing edges are as before, and the error of the run is the first failure of the last
level that is not tolerated.

Main statement: `aborted_run_is_consistent`.
-/

namespace PhaseFlow

namespace Run

/-- The node after an execution has succeeded or failed, counted once. -/
def Counted (outcome : NodeOutcome) (before after : Node) : Prop :=
  match outcome.result with
  | .ok _ => after.status = .completed ∧ after.runCount = before.runCount + 1 ∧
      after.errorCount = before.errorCount
  | .error _ => after.status = .error ∧ after.runCount = before.runCount ∧
      after.errorCount = before.errorCount + 1

theorem counted_nodeAfter
    (begun : Instant)
    (outcome : NodeOutcome)
    (node : Node) :
    Counted outcome node (nodeAfter begun outcome node) := by
  unfold Counted nodeAfter
  cases outcome.result with
  | ok done => exact ⟨rfl, rfl, rfl⟩
  | error error => exact ⟨rfl, rfl, rfl⟩

/-- The error is that of the first outcome in a list whose failure is not tolerated. -/
def FirstFatal
    (graph : Graph)
    (outcomes : List NodeOutcome)
    (error : Error) :
    Prop :=
  ∃ before outcome after, outcomes = before ++ outcome :: after ∧ outcome.result =
    .error error ∧
    tolerates graph outcome.id error = false ∧
    ∀ other ∈ before, ∀ failure, other.result = .error failure →
      tolerates graph other.id failure = true

theorem firstFatal_of_findSome?
    {graph : Graph} {outcomes : List NodeOutcome} {error : Error}
    (h : outcomes.findSome? (NodeOutcome.fatal? graph) = some error) :
    FirstFatal graph outcomes error := by
  obtain ⟨before, outcome, after, hsplit, hfatal, hbefore⟩ := List.findSome?_eq_some_iff.1 h
  obtain ⟨hresult, hnot⟩ := fatal?_eq_some_iff.1 hfatal
  exact ⟨before, outcome, after, hsplit, hresult, hnot,
    fun other hother => fatal?_eq_none_iff.1 (hbefore other hother)⟩

/-- What a run leaves behind that stopped at a level: `passed` are the outcomes of the
levels before, `last` are those of the level itself. -/
structure Aborted
    (options : RunOptions)
    (graph : Graph)
    (order : List String)
    (earlier : List (List String))
    (level : List String)
    (later : List (List String))
    (passed last : List NodeOutcome)
    (error : Error)
    (report : Report) : Prop where
  ids : passed.map NodeOutcome.id = earlier.flatten ∧ last.map NodeOutcome.id = level
  dispatched : Log.dispatchedIn report.events = earlier.flatten ++ level
  executions :
    Log.executionsIn report.events = (passed ++ last).flatMap NodeOutcome.events
  runs :
    ∃ flow,
      ∀ outcome ∈ passed ++ last,
        ∃ node,
          graph.nodes.get? outcome.id = some node ∧
          ∃ moment,
            outcome =
              executeNode options graph.id (node, assembleInput graph flow outcome.id)
                moment
  counted :
    ∀ outcome ∈ passed ++ last,
      ∃ before after,
        graph.nodes.get? outcome.id = some before ∧
        report.graph.nodes.get? outcome.id = some after ∧
        Counted outcome before after
  untouched : ∀ id ∈ later.flatten, report.graph.nodes.get? id = graph.nodes.get? id ∧
    (∀ key edge, graph.edges.get? key = some edge → edge.source = id →
      report.graph.edges.get? key = some edge) ∧
    ∀ event ∈ report.events, event.executing? ≠ some id
  tolerated : ∀ outcome ∈ passed, ∀ failure, outcome.result = .error failure →
    tolerates graph outcome.id failure = true
  first : FirstFatal graph last error
  state : report.graph.state = ⟨false, "", order, error.message⟩

variable {options : RunOptions} {begun now : Instant} {graph : Graph}
variable {input : Json} {outcomes : List NodeOutcome} {report : Report}
variable {observers : Observers} {id : String}

/-- A node without outcome is as before. -/
theorem Recorded.get?_nodes_of_not_mem
    (h : Recorded options begun graph outcomes report)
    (hid : id ∉ outcomes.map NodeOutcome.id) :
    report.graph.nodes.get? id = graph.nodes.get? id := by
  have hsame : nodeOf begun outcomes [] id = fun node => node := by
    funext node
    simp [nodeOf, outcomeOf_eq_none_iff.2 hid]
  rw [h.nodes, hsame, Option.map_id']

/-- An edge whose source has no outcome is as before. -/
theorem Recorded.get?_edges_of_not_mem
    (h : Recorded options begun graph outcomes report)
    {key : String} {edge : Edge}
    (hedge : graph.edges.get? key = some edge)
    (hsource : edge.source ∉ outcomes.map NodeOutcome.id) :
    report.graph.edges.get? key = some edge := by
  have hsame : edgeAfter outcomes edge = edge := by
    have hnone : completionOf outcomes edge.source = none := by
      rw [completionOf, outcomeOf_eq_none_iff.2 hsource]
      rfl
    simp [edgeAfter, hnone]
  rw [h.edges, hedge, Option.map_some, hsame]

/-- A node without outcome was not executed. -/
theorem Recorded.not_executing
    (h : Recorded options begun graph outcomes report)
    (hid : id ∉ outcomes.map NodeOutcome.id) :
    ∀ event ∈ report.events, event.executing? ≠ some id := by
  intro event hevent hexecuting
  have hmem := Log.mem_executionsIn.2 ⟨hevent, by rw [hexecuting]; rfl⟩
  rw [h.executions] at hmem
  obtain ⟨outcome, houtcome, hlogged⟩ := List.mem_flatMap.1 hmem
  obtain ⟨flow, hsolves⟩ := h.solves
  have hself := hsolves.tellsOf outcome houtcome event hlogged
  rw [hexecuting] at hself
  obtain rfl : id = outcome.id := Option.some.inj hself
  exact hid (List.mem_map_of_mem houtcome)

/-- A node with an outcome is counted once. -/
theorem Recorded.counted
    (h : Recorded options begun graph outcomes report)
    {outcome : NodeOutcome}
    (hmem : outcome ∈ outcomes) :
    ∃ before after,
      graph.nodes.get? outcome.id = some before ∧
      report.graph.nodes.get? outcome.id = some after ∧
      Counted outcome before after := by
  obtain ⟨flow, hsolves⟩ := h.solves
  obtain ⟨node, hnode, -⟩ := hsolves.runs outcome hmem
  refine ⟨node, nodeAfter begun outcome node, hnode, ?_,
    counted_nodeAfter begun outcome node⟩
  rw [h.nodes, hnode, Option.map_some, nodeOf, outcomeOf_of_mem h.nodup hmem]

/-- **An aborted run leaves a consistent graph.** -/
theorem aborted_run_is_consistent
    (hgraph : graph.Reachable)
    (hacyclic : ¬ graph.HasCycle)
    (hinput : graph.hasNode inputKey = false)
    {error : Error}
    (herror : (run graph input options observers now).outcome = .error error) :
    ∃ order earlier level later passed last,
      Schedule.executionOrder graph = .ok order ∧
      levelsFor options graph order = .ok (earlier ++ level :: later) ∧
      Schedule.IsSchedule graph (earlier ++ level :: later) ∧
      Aborted options graph order earlier level later passed last error
        (run graph input options observers now) := by
  have hwell := hgraph.wellFormed
  have horder := Schedule.executionOrder_of_not_hasCycle hwell hacyclic
  obtain ⟨levels, outcomes, ended, hlevels, htranscript, hend⟩ :=
    course_of_order options input observers now hwell hinput horder
  rcases hend with ⟨-, -, hrun⟩ | ⟨stopped, hstops, hrun⟩
  · rw [hrun] at herror
    cases herror
  · obtain ⟨earlier, level, later, passed, last, rfl, rfl, hstop⟩ := hstops
    rw [hrun] at herror ⊢
    obtain rfl : stopped = error := Except.error.inj herror
    have hrecord := htranscript.recorded_aborted stopped
    have hids : (passed ++ last).map NodeOutcome.id = earlier.flatten ++ level := by
      rw [List.map_append, hstop.passed_ids, hstop.last_ids]
    refine ⟨_, earlier, level, later, passed, last, horder, hlevels,
      htranscript.schedule, ?_⟩
    constructor
    case ids => exact ⟨hstop.passed_ids, hstop.last_ids⟩
    case dispatched => rw [hrecord.dispatched, hids]
    case executions => exact hrecord.executions
    case runs =>
      obtain ⟨flow, hsolves⟩ := hrecord.solves
      exact ⟨flow, hsolves.runs⟩
    case counted => exact fun outcome hmem => hrecord.counted hmem
    case untouched =>
      intro id hid
      have hnew : id ∉ (passed ++ last).map NodeOutcome.id := by
        intro hmem
        have hnodup := htranscript.schedule.nodup
        rw [List.flatten_append, List.flatten_cons, ← List.append_assoc, ← hids] at hnodup
        exact (List.nodup_append.1 hnodup).2.2 id hmem id hid rfl
      refine ⟨hrecord.get?_nodes_of_not_mem hnew, ?_, hrecord.not_executing hnew⟩
      rintro key edge hedge rfl
      exact hrecord.get?_edges_of_not_mem hedge hnew
    case tolerated =>
        exact fun outcome hmem => fatal?_eq_none_iff.1 (hstop.tolerated outcome hmem)
    case first => exact firstFatal_of_findSome? hstop.error
    case state =>
      show (settled ended.graph (some stopped.message)).state = _
      unfold settled
      rw [htranscript.course.account.state]
      rfl

/-- Two constants without value, of which the second one is tolerated, and the constant
`1` with a node that passes it on. -/
def halting : Graph :=
  (Graph.create "g" "halting" ⟨0⟩).after
    [.addNode "bad" "source" .emptyObject (.custom "constant" Registry.constant) ⟨0⟩,
      .addNode "lax" "source" (.object [("continue_on_error", .bool true)])
        (.custom "constant" Registry.constant) ⟨0⟩,
      .addNode "one" "source" (.object [("value", .int 1)])
        (.custom "constant" Registry.constant) ⟨0⟩,
      .addNode "sink" "sink" .emptyObject .passThrough ⟨0⟩, .addEdge "one" "sink"
        .emptyObject ⟨0⟩]

theorem reachable_halting : halting.Reachable :=
  (Graph.Reachable.create "halting" ⟨0⟩ (by decide)).after _

theorem executionOrder_halting :
    Schedule.executionOrder halting = .ok ["bad", "lax", "one", "sink"] :=
  rfl

theorem run_halting :
    ∃ error, (run halting .null { parallel := true } [] ⟨0⟩).outcome = .error error :=
  ⟨_, rfl⟩

theorem aborted_run_is_consistent_halting :
    halting.Reachable ∧
    ¬ halting.HasCycle ∧
    halting.hasNode inputKey = false ∧
    ∃ error earlier level later passed last,
      (run halting .null { parallel := true } [] ⟨0⟩).outcome = .error error ∧
      earlier ++ level :: later = [["bad", "lax", "one"], ["sink"]] ∧
      Aborted { parallel := true } halting ["bad", "lax", "one", "sink"] earlier
        level later passed last error
        (run halting .null { parallel := true } [] ⟨0⟩) := by
  have hacyclic : ¬ halting.HasCycle :=
    Schedule.not_hasCycle_of_executionOrder reachable_halting.wellFormed
      executionOrder_halting
  obtain ⟨error, hrun⟩ := run_halting
  obtain ⟨order, earlier, level, later, passed, last, horder, hlevels, -, haborted⟩ :=
    aborted_run_is_consistent reachable_halting hacyclic rfl hrun
  obtain rfl : ["bad", "lax", "one", "sink"] = order :=
    Except.ok.inj (executionOrder_halting.symm.trans horder)
  have hfound : levelsFor { parallel := true } halting ["bad", "lax", "one", "sink"] =
      .ok [["bad", "lax", "one"], ["sink"]] := rfl
  exact ⟨reachable_halting, hacyclic, rfl, error, earlier, level, later, passed, last, hrun,
    Except.ok.inj (hlevels.symm.trans hfound), haborted⟩

end Run

end PhaseFlow
