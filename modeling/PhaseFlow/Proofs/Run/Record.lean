import PhaseFlow.Proofs.Run.Course

/-!
# What a run leaves on record

However a run ends, some outcomes have been merged, and they settle what is left of it:
the statistics of the graph, the nodes that the log tells of as dispatched, and the
executions in the log (`Recorded`). A run that is refused before its first level has
merged none.

Main statement: `recorded_of_run`.
-/

namespace PhaseFlow

namespace Run

/-- The report of a run that merged some outcomes. -/
structure Recorded
    (options : RunOptions)
    (begun : Instant)
    (graph : Graph)
    (outcomes : List NodeOutcome)
    (report : Report) : Prop where
  reset : report.graph.reset = graph.reset
  nodes :
    ∀ id,
      report.graph.nodes.get? id =
        (graph.nodes.get? id).map (nodeOf begun outcomes [] id)
  edges :
    ∀ key,
      report.graph.edges.get? key = (graph.edges.get? key).map (edgeAfter outcomes)
  nodup : (outcomes.map NodeOutcome.id).Nodup
  solves : ∃ flow, Solves options graph outcomes flow
  dispatched : Log.dispatchedIn report.events = outcomes.map NodeOutcome.id
  executions : Log.executionsIn report.events = outcomes.flatMap NodeOutcome.events

variable {options : RunOptions} {begun now : Instant} {graph : Graph}
variable {input : Json} {outcomes : List NodeOutcome} {report : Report}
variable {setting : Setting} {order : List String} {levels : List (List String)}
variable {ended : Progress}

theorem recorded_nil
    (hreset : report.graph.reset = graph.reset)
    (hnodes : report.graph.nodes = graph.nodes)
    (hedges : report.graph.edges = graph.edges)
    (hdispatched : Log.dispatchedIn report.events = [])
    (hexecutions : Log.executionsIn report.events = []) :
    Recorded options begun graph [] report where
  reset := hreset
  nodes id := by
    rw [hnodes]
    exact (Account.initial begun { graph := graph, flow := KeyMap.empty }).nodes id
  edges key := by
    rw [hedges]
    exact (Account.initial begun { graph := graph, flow := KeyMap.empty }).edges key
  nodup := List.nodup_nil
  solves := ⟨KeyMap.empty, Solves.nil options graph KeyMap.empty⟩
  dispatched := hdispatched
  executions := hexecutions

/-- The opening of a run changes the state of the graph only. -/
theorem Transcript.solves
    (h : Transcript setting graph input order levels outcomes ended) :
    Solves setting.options graph outcomes ended.flow :=
  ⟨h.course.solves.runs, h.course.solves.closed⟩

/-- The end of a run adds its state and one event that tells of nothing. -/
theorem Transcript.recorded
    (h : Transcript setting graph input order levels outcomes ended)
    {lastError : Option String} {event : Log.Event}
    (hgraph : report.graph = settled ended.graph lastError)
    (hevents : report.events = ended.events ++ [event])
    (hdispatched : event.dispatched = [])
    (hexecuting : event.executing? = none) :
    Recorded setting.options setting.begun graph outcomes report := by
  have hquiet := Quiet.snoc ended.events hdispatched hexecuting
  have haccount := h.course.account
  refine ⟨?_, ?_, ?_, h.course.nodup, ⟨ended.flow, h.solves⟩, ?_, ?_⟩
  · rw [hgraph]
    exact haccount.reset_graph
  · rw [hgraph]
    exact haccount.nodes
  · rw [hgraph]
    exact haccount.edges
  · rw [hevents, hquiet.dispatched, h.course.dispatched]
    rfl
  · rw [hevents, hquiet.executions, h.course.executions]
    rfl

theorem Transcript.recorded_finished
    (h : Transcript setting graph input order levels outcomes ended) :
    Recorded setting.options setting.begun graph outcomes
      (finished ended order levels) :=
  h.recorded rfl rfl rfl rfl

theorem Transcript.recorded_aborted
    (h : Transcript setting graph input order levels outcomes ended)
    (error : Error) :
    Recorded setting.options setting.begun graph outcomes (aborted ended error) :=
  h.recorded rfl rfl rfl rfl

/-- **Every run leaves a record**, also one that is refused. -/
theorem recorded_of_run
    (hwell : graph.WellFormed)
    (input : Json)
    (options : RunOptions)
    (observers : Observers)
    (now : Instant) :
    ∃ outcomes,
      Recorded options now graph outcomes
        (run graph input options observers now) := by
  cases hinput : graph.hasNode inputKey with
  | true =>
      refine ⟨[], ?_⟩
      rw [run, hinput, if_pos rfl]
      exact recorded_nil rfl rfl rfl rfl rfl
  | false =>
      cases horder : Schedule.executionOrder graph with
      | error error =>
          obtain ⟨remaining, rfl⟩ := Schedule.cycle_of_executionOrder horder
          refine ⟨[], ?_⟩
          simp only [run, hinput, horder, Bool.false_eq_true, if_false]
          exact recorded_nil rfl rfl rfl rfl rfl
      | ok order =>
          obtain ⟨levels, outcomes, ended, -, htranscript, hend⟩ :=
            course_of_order options input observers now hwell hinput horder
          refine ⟨outcomes, ?_⟩
          rcases hend with ⟨-, -, hrun⟩ | ⟨error, -, hrun⟩
          · rw [hrun]
            exact htranscript.recorded_finished
          · rw [hrun]
            exact htranscript.recorded_aborted error

/-! ## Reading the record -/

theorem Recorded.mem_dispatched_iff
    (h : Recorded options begun graph outcomes report)
    {id : String} :
    id ∈ Log.dispatchedIn report.events ↔
      ∃ outcome, outcomeOf outcomes id = some outcome := by
  rw [h.dispatched, ← Option.ne_none_iff_exists', Ne, outcomeOf_eq_none_iff, not_not]

theorem outputsIn_executions :
    ∀ {outcomes : List NodeOutcome},
      (outcomes.map NodeOutcome.id).Nodup →
      (∀ outcome ∈ outcomes, Log.TellsOf outcome.id outcome.events) →
      (∀ outcome ∈ outcomes,
          Log.outputsIn outcome.id outcome.events =
            Execution.outputsOf outcome.result) →
      ∀ id,
        Log.outputsIn id (outcomes.flatMap NodeOutcome.events) =
          ((completionOf outcomes id).map Completion.output).toList
  | [], _, _, _, _ => rfl
  | outcome :: rest, hnodup, htells, houtputs, id => by
      rw [List.map_cons, List.nodup_cons] at hnodup
      have hrest := outputsIn_executions hnodup.2
        (fun other hother => htells other (List.mem_cons_of_mem _ hother))
        (fun other hother => houtputs other (List.mem_cons_of_mem _ hother)) id
      rw [List.flatMap_cons, Log.outputsIn_append, hrest]
      by_cases hid : outcome.id = id
      · subst hid
        have hnone : completionOf rest outcome.id = none := by
          rw [completionOf, outcomeOf_eq_none_iff.2 hnodup.1]
          rfl
        rw [houtputs outcome List.mem_cons_self, hnone]
        cases hresult : outcome.result <;>
          simp [completionOf, outcomeOf, hresult, Execution.outputsOf, Except.toOption]
      · rw [(htells outcome List.mem_cons_self).outputsIn_eq hid]
        simp [completionOf, outcomeOf, hid]

/-- **The log shows the output of a node exactly if the node completed.** -/
theorem Recorded.outputsIn_eq
    (h : Recorded options begun graph outcomes report)
    (id : String) :
    Log.outputsIn id report.events =
      ((completionOf outcomes id).map Completion.output).toList := by
  obtain ⟨flow, hsolves⟩ := h.solves
  rw [← Log.outputsIn_executionsIn, h.executions]
  exact outputsIn_executions h.nodup hsolves.tellsOf hsolves.outputs id

/-- The configurations and the executors of the nodes are those from before the run. -/
theorem Recorded.exists_node
    (h : Recorded options begun graph outcomes report)
    {id : String} {node : Node}
    (hnode : report.graph.nodes.get? id = some node) :
    ∃ before,
      graph.nodes.get? id = some before ∧
      node.config = before.config ∧
      node.executor = before.executor := by
  have hreset : report.graph.reset.nodes.get? id = graph.reset.nodes.get? id := by
    rw [h.reset]
  have hmap :
      (report.graph.nodes.map Node.reset).get? id =
        (graph.nodes.map Node.reset).get? id :=
    hreset
  rw [KeyMap.get?_map, KeyMap.get?_map, hnode, Option.map_some] at hmap
  obtain ⟨before, hbefore, heq⟩ := Option.map_eq_some_iff.1 hmap.symm
  exact ⟨before, hbefore, (congrArg Node.config heq).symm, (congrArg Node.executor heq).symm⟩

end Run

end PhaseFlow
