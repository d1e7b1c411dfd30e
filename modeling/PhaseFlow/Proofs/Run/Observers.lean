import PhaseFlow.Proofs.Run.Abort
import PhaseFlow.Proofs.Run.Indifference

/-!
# What observers are told

When a node enters a status, the observers that wait for this status are called in the
order of their registration, whatever the observers before them raise (`callsFor`). A
run calls them level by level: first for the start of each node of the level, then for
the end of each (`levelCalls`). Merging the outcome of a node changes no other node
(`get?_nodes_merge`), so the record that an observer sees at the end of a node is the
one that the run leaves behind.

Main statement: `observers_told_of_every_transition`.
-/

namespace PhaseFlow

namespace Run

variable {setting : Setting} {graph : Graph} {start progress : Progress}
variable {outcomes : List NodeOutcome}

/-! ## Calls -/

/-- The calls for the status of a node, in the order of registration. -/
def callsFor (observers : Observers) (node : Node) : List Notification :=
  (observers.zipIdx.filter fun numbered => numbered.1.status = node.status).map fun
    numbered =>
    ⟨numbered.2, node⟩

/-- The calls for the status that a node has in a graph. -/
def callsIn
    (observers : Observers)
    (graph : Graph)
    (id : String) :
    List Notification :=
  (graph.nodes.get? id).toList.flatMap (callsFor observers)

/-- The calls for the start of a node of a graph: it is running, and otherwise as it
was. -/
def startCalls
    (observers : Observers)
    (graph : Graph)
    (id : String) :
    List Notification :=
  ((graph.nodes.get? id).map fun node => { node with status := .running }).toList.flatMap
    (callsFor observers)

/-- The calls for a level: for the start of each of its nodes, as they were before the
run, and then for the end of each, as they are after the run. -/
def levelCalls
    (observers : Observers)
    (before after : Graph)
    (level : List String) :
    List Notification :=
  level.flatMap (startCalls observers before) ++ level.flatMap (callsIn observers after)

theorem notifications_tell
    (node : Node)
    (progress : Progress)
    (numbered : Observer × Nat) :
    (Progress.tell node progress numbered).notifications =
      progress.notifications ++
        if numbered.1.status = node.status then [⟨numbered.2, node⟩] else [] := by
  unfold Progress.tell
  dsimp only
  split
  · split <;> rfl
  · exact (List.append_nil _).symm

theorem notifications_foldl_tell
    (node : Node)
    (numbered : List (Observer × Nat)) :
    ∀ progress,
      (numbered.foldl (Progress.tell node) progress).notifications =
        progress.notifications ++
          (numbered.filter fun entry => entry.1.status = node.status).map fun
            entry => ⟨entry.2, node⟩ := by
  induction numbered with
  | nil => simp
  | cons entry rest ih =>
      intro progress
      rw [List.foldl_cons, ih, notifications_tell, List.append_assoc]
      by_cases hstatus : entry.1.status = node.status <;> simp [hstatus]

/-- **All observers that wait for the status of a node are called**, also if some of
them raise an error. -/
theorem notifications_notify
    (setting : Setting)
    (progress : Progress)
    (id : String) :
    (Progress.notify setting progress id).notifications =
      progress.notifications ++ callsIn setting.observers progress.graph id := by
  unfold Progress.notify callsIn
  cases progress.graph.nodes.get? id with
  | none => simp
  | some node => simp [notifications_foldl_tell, callsFor]

/-! ## The start of a level -/

theorem notifications_foldl_notify
    (setting : Setting)
    (level : List String) :
    ∀ progress,
      (level.foldl (Progress.notify setting) progress).notifications =
        progress.notifications ++
          level.flatMap (callsIn setting.observers progress.graph) := by
  induction level with
  | nil => simp
  | cons id rest ih =>
      intro progress
      rw [List.foldl_cons, ih, notifications_notify,
        (SameCourse.notify setting progress id).graph,
        List.flatMap_cons, List.append_assoc]

theorem notifications_dispatch
    (setting : Setting)
    (progress : Progress)
    (index : Nat)
    (level : List String) :
    (dispatch setting progress index level).notifications =
      progress.notifications ++
        level.flatMap (callsIn setting.observers
            (dispatch setting progress index level).graph) := by
  unfold dispatch
  rw [notifications_foldl_notify,
    (SameCourse.foldl (SameCourse.notify setting) level _).graph]
  rfl

/-! ## The end of a level -/

theorem graph_recordSuccess
    (setting : Setting)
    (progress : Progress)
    (id : String)
    (finish : Nat)
    (done : Completion) :
    (recordSuccess setting progress id finish done).graph =
      passOutput (progress.graph.modifyNode id fun node =>
          node.succeeded (setting.begun.later finish)) id done.output.byteSize :=
  (SameCourse.notify setting _ id).graph

theorem graph_recordFailure
    (setting : Setting)
    (progress : Progress)
    (id : String)
    (finish : Nat)
    (error : Error) :
    (recordFailure setting progress id finish error).graph =
      progress.graph.modifyNode id fun node =>
        node.failed (setting.begun.later finish) := by
  unfold recordFailure
  dsimp only
  split
  · exact (SameCourse.notify setting _ id).graph
  · exact (SameCourse.notify setting _ id).graph

theorem notifications_recordSuccess
    (setting : Setting)
    (progress : Progress)
    (id : String)
    (finish : Nat)
    (done : Completion) :
    (recordSuccess setting progress id finish done).notifications =
      progress.notifications ++
        callsIn setting.observers
          (recordSuccess setting progress id finish done).graph id := by
  rw [graph_recordSuccess]
  exact notifications_notify setting _ id

theorem notifications_recordFailure
    (setting : Setting)
    (progress : Progress)
    (id : String)
    (finish : Nat)
    (error : Error) :
    (recordFailure setting progress id finish error).notifications =
      progress.notifications ++
        callsIn setting.observers
          (recordFailure setting progress id finish error).graph id := by
  rw [graph_recordFailure]
  unfold recordFailure
  dsimp only
  split
  · exact notifications_notify setting _ id
  · exact notifications_notify setting _ id

/-- What a merged outcome does to the progress. -/
theorem merge_cases
    (setting : Setting)
    (state : Progress × Option Error)
    (outcome : NodeOutcome) :
    (∃ done,
        (merge setting state outcome).1 =
          recordSuccess setting state.1 outcome.id outcome.finish done) ∨
    ∃ error,
      (merge setting state outcome).1 =
        recordFailure setting state.1 outcome.id outcome.finish error := by
  unfold merge
  cases outcome.result with
  | ok done => exact .inl ⟨done, rfl⟩
  | error error =>
      refine .inr ⟨error, ?_⟩
      dsimp only
      split <;> rfl

/-- Merging an outcome changes no other node. -/
theorem get?_nodes_merge
    (setting : Setting)
    (state : Progress × Option Error)
    {outcome : NodeOutcome} {id : String}
    (h : outcome.id ≠ id) :
    (merge setting state outcome).1.graph.nodes.get? id =
      state.1.graph.nodes.get? id := by
  have hother (change : Node → Node) :
      (state.1.graph.modifyNode outcome.id change).nodes.get? id =
        state.1.graph.nodes.get? id := by
    rw [Graph.modifyNode, KeyMap.get?_modify, if_neg h]
  obtain ⟨done, hmerge⟩ | ⟨error, hmerge⟩ := merge_cases setting state outcome
  · rw [hmerge, graph_recordSuccess, (skeleton_passOutput _ _ _).1, hother]
  · rw [hmerge, graph_recordFailure, hother]

/-- **One merged outcome**: the observers see the node with its new status and
counters. -/
theorem notifications_merge
    (setting : Setting)
    (state : Progress × Option Error)
    (outcome : NodeOutcome) :
    (merge setting state outcome).1.notifications =
      state.1.notifications ++
        callsIn setting.observers (merge setting state outcome).1.graph
          outcome.id := by
  obtain ⟨done, hmerge⟩ | ⟨error, hmerge⟩ := merge_cases setting state outcome
  · rw [hmerge, notifications_recordSuccess]
  · rw [hmerge, notifications_recordFailure]

theorem get?_nodes_mergeAll
    (setting : Setting)
    {found : List NodeOutcome} {id : String}
    (h : id ∉ found.map NodeOutcome.id)
    (state : Progress × Option Error) :
    (found.foldl (merge setting) state).1.graph.nodes.get? id =
      state.1.graph.nodes.get? id := by
  induction found generalizing state with
  | nil => rfl
  | cons outcome rest ih =>
      rw [List.map_cons, List.mem_cons, not_or] at h
      rw [List.foldl_cons, ih h.2, get?_nodes_merge setting state (Ne.symm h.1)]

theorem callsIn_congr
    {graph other : Graph} {id : String}
    (h : graph.nodes.get? id = other.nodes.get? id)
    (observers : Observers) :
    callsIn observers graph id = callsIn observers other id := by
  rw [callsIn, callsIn, h]

/-- **The merged outcomes of a level**, in its order. -/
theorem notifications_mergeAll
    (setting : Setting)
    {found : List NodeOutcome}
    (hnodup : (found.map NodeOutcome.id).Nodup)
    (state : Progress × Option Error) :
    (found.foldl (merge setting) state).1.notifications =
      state.1.notifications ++
        (found.map NodeOutcome.id).flatMap
          (callsIn setting.observers
              (found.foldl (merge setting) state).1.graph) := by
  induction found generalizing state with
  | nil => simp
  | cons outcome rest ih =>
      rw [List.map_cons, List.nodup_cons] at hnodup
      have hlast := get?_nodes_mergeAll setting hnodup.1 (merge setting state outcome)
      rw [List.foldl_cons, ih hnodup.2, notifications_merge, List.map_cons,
        List.flatMap_cons, callsIn_congr hlast, List.append_assoc]

/-! ## Levels -/

/-- **One level**: the calls for its start, and then the calls for its end. -/
theorem Course.notifications_runLevel
    (hwell : start.graph.WellFormed)
    (h : Course setting start outcomes progress)
    (index : Nat)
    {level : List String}
    (hnodes : ∀ id ∈ level, start.graph.hasNode id = true)
    (hnodup : (outcomes.map NodeOutcome.id ++ level).Nodup) :
    (Run.runLevel setting progress index level).1.notifications =
      progress.notifications ++
        levelCalls setting.observers start.graph
          (Run.runLevel setting progress index level).1.graph level := by
  obtain ⟨-, hlevel, hdisjoint⟩ := List.nodup_append.1 hnodup
  have hnew : ∀ id ∈ level, id ∉ outcomes.map NodeOutcome.id := fun id hid hmem =>
    hdisjoint id hmem id hid rfl
  have hdispatched : Account setting.begun start outcomes level
      (dispatch setting progress index level) := h.account.dispatch hnew
  have hids := hdispatched.map_id_executeLevel setting.options hwell hnodes
  have hstart : level.flatMap
      (callsIn setting.observers (dispatch setting progress index level).graph) =
        level.flatMap (startCalls setting.observers start.graph) := by
    refine List.flatMap_congr fun id hid => ?_
    have hnode : nodeOf setting.begun outcomes level id = Node.dispatched := by
      funext node
      simp [nodeOf, outcomeOf_eq_none_iff.2 (hnew id hid), hid]
    rw [callsIn, startCalls, hdispatched.nodes, hnode]
    rfl
  rw [runLevel_eq, notifications_mergeAll setting (by rw [hids]; exact hlevel), hids,
    levelCalls, ← hstart]
  show (dispatch setting progress index level).notifications ++ _ = _
  rw [notifications_dispatch, List.append_assoc]

/-- The nodes merged so far stay as they are when further outcomes are merged. -/
theorem Account.get?_nodes_append
    {begun : Instant} {found : List NodeOutcome} {merged : Progress}
    (h : Account begun start outcomes [] progress)
    (hmerged : Account begun start (outcomes ++ found) [] merged)
    {id : String}
    (hid : id ∉ found.map NodeOutcome.id) :
    merged.graph.nodes.get? id = progress.graph.nodes.get? id := by
  have hnode : nodeOf begun (outcomes ++ found) [] id = nodeOf begun outcomes [] id := by
    funext node
    rw [nodeOf, nodeOf, outcomeOf_append, outcomeOf_eq_none_iff.2 hid, Option.or_none]
  rw [h.nodes, hmerged.nodes, hnode]

/-- **The levels of a schedule**: those that are dispatched are the first ones, and the
calls for one level precede those for the next. -/
theorem Course.notifications_runLevels
    (hwell : start.graph.WellFormed)
    (hinput : start.graph.hasNode inputKey = false) :
    ∀ (levels : List (List String)) (index : Nat) {outcomes : List NodeOutcome}
      {progress : Progress},
      Course setting start outcomes progress →
      Schedule.Layered start.graph (outcomes.map NodeOutcome.id) levels →
      (∀ id ∈ levels.flatten, start.graph.hasNode id = true) →
      (outcomes.map NodeOutcome.id ++ levels.flatten).Nodup →
      ∃ done,
        done <+: levels ∧
        Log.dispatchedIn (Run.runLevels setting index levels progress).1.events =
          Log.dispatchedIn progress.events ++ done.flatten ∧
        (Run.runLevels setting index levels progress).1.notifications =
          progress.notifications ++
            done.flatMap (levelCalls setting.observers start.graph
                (Run.runLevels setting index levels progress).1.graph)
  | [], index, outcomes, progress, _, _, _, _ =>
      ⟨[], List.prefix_rfl, by simp [Run.runLevels], by simp [Run.runLevels]⟩
  | level :: rest, index, outcomes, progress, h, hlayered, hnodes, hnodup => by
      rw [List.flatten_cons] at hnodes hnodup
      rw [← List.append_assoc] at hnodup
      have hlevelNodes := fun id hid => hnodes id (List.mem_append_left _ hid)
      have hlevelNodup := (List.nodup_append.1 hnodup).1
      obtain ⟨found, merged, hrun, hids, hcourse⟩ :=
        h.runLevel hwell hinput index hlevelNodes hlevelNodup hlayered.1
      have htold := h.notifications_runLevel hwell index hlevelNodes hlevelNodup
      have hdispatched :
          Log.dispatchedIn merged.events =
            Log.dispatchedIn progress.events ++ level := by
        rw [hcourse.dispatched, h.dispatched, List.map_append, hids, List.append_assoc]
      rw [hrun] at htold
      unfold Run.runLevels
      rw [hrun]
      cases found.findSome? (NodeOutcome.fatal? start.graph) with
      | some error =>
          refine ⟨[level], ⟨rest, rfl⟩, ?_, ?_⟩
          · rw [hdispatched, List.flatten_singleton]
          · rw [htold, List.flatMap_singleton]
      | none =>
          have hdone : (outcomes ++ found).map NodeOutcome.id =
              outcomes.map NodeOutcome.id ++ level := by
            rw [List.map_append, hids]
          rw [← hdone] at hnodup
          have hlater := hdone ▸ hlayered.2
          have hrestNodes := fun id hid => hnodes id (List.mem_append_right _ hid)
          obtain ⟨more, ended, hrest, hended, -⟩ :=
            Course.runLevels hwell hinput rest (index + 1) hcourse hlater hrestNodes hnodup
          obtain ⟨done, hprefix, hlog, hcalls⟩ :=
            Course.notifications_runLevels hwell hinput rest (index + 1) hcourse
              hlater hrestNodes hnodup
          rw [hrest] at hlog hcalls
          have hsame : levelCalls setting.observers start.graph merged.graph level =
              levelCalls setting.observers start.graph ended.graph level := by
            refine congrArg _
              (List.flatMap_congr fun id hid => callsIn_congr ?_ setting.observers)
            refine (hcourse.account.get?_nodes_append hended.account fun hmem => ?_).symm
            have hids := hended.nodup
            rw [List.map_append, hdone] at hids
            exact (List.nodup_append.1 hids).2.2 id (List.mem_append_right _ hid) id hmem rfl
          dsimp only
          rw [hrest]
          refine ⟨level :: done, List.cons_prefix_cons.2 ⟨rfl, hprefix⟩, ?_, ?_⟩
          · rw [hlog, hdispatched, List.flatten_cons, List.append_assoc]
          · rw [hcalls, htold, hsame, List.flatMap_cons, List.append_assoc]

/-! ## Whole runs -/

/-- A node has ended once more: it is completed or it has failed, and its counters say
so. -/
def EndedOnce (before after : Node) : Prop :=
  (after.status = .completed ∧ after.runCount = before.runCount + 1 ∧
      after.errorCount = before.errorCount) ∨
    (after.status = .error ∧ after.runCount = before.runCount ∧
      after.errorCount = before.errorCount + 1)

theorem Counted.endedOnce
    {outcome : NodeOutcome} {before after : Node}
    (h : Counted outcome before after) :
    EndedOnce before after := by
  unfold Counted at h
  split at h
  · exact .inl h
  · exact .inr h

/-- What the observers of a run are told that dispatched some levels. -/
structure Told
    (options : RunOptions)
    (observers : Observers)
    (graph : Graph)
    (levels : List (List String))
    (report : Report) : Prop where
  planned : ∀ order all, Schedule.executionOrder graph = .ok order →
    levelsFor options graph order = .ok all → levels <+: all
  dispatched : Log.dispatchedIn report.events = levels.flatten
  nodup : levels.flatten.Nodup
  ended :
    ∀ id ∈ levels.flatten,
      ∃ before after,
        graph.nodes.get? id = some before ∧
        report.graph.nodes.get? id = some after ∧
        before.id = id ∧
        after.id = id ∧
        EndedOnce before after
  calls :
    report.notifications = levels.flatMap (levelCalls observers graph report.graph)

theorem levelCalls_congr
    {graph before after last : Graph}
    (hbefore : before.nodes = graph.nodes)
    (hafter : last.nodes = after.nodes)
    (observers : Observers) :
    levelCalls observers before after = levelCalls observers graph last := by
  funext level
  unfold levelCalls startCalls callsIn
  rw [hbefore, hafter]

/-- The end of a run calls nobody and dispatches nothing. -/
theorem runAlong_ended
    (setting : Setting)
    (graph : Graph)
    (input : Json)
    (order : List String)
    (levels : List (List String)) :
    ∃ ended,
      (runLevels setting 0 levels
          (opening graph input setting.options order levels)).1 =
        ended ∧
      (runAlong setting graph input order levels).graph.nodes =
        ended.graph.nodes ∧
      Log.dispatchedIn (runAlong setting graph input order levels).events =
        Log.dispatchedIn ended.events ∧
      (runAlong setting graph input order levels).notifications =
        ended.notifications := by
  rw [runAlong_eq]
  generalize runLevels setting 0 levels _ = state
  obtain ⟨ended, abort⟩ := state
  cases abort with
  | none => exact ⟨ended, rfl, rfl, (Quiet.snoc ended.events rfl rfl).dispatched, rfl⟩
  | some error => exact ⟨ended, rfl, rfl, (Quiet.snoc ended.events rfl rfl).dispatched, rfl⟩

/-- The levels of a run, and the calls for them. A run that is refused has none. -/
theorem notifications_run
    (hwell : graph.WellFormed)
    (input : Json)
    (options : RunOptions)
    (observers : Observers)
    (now : Instant) :
    ∃ levels,
      (∀ order all,
          Schedule.executionOrder graph = .ok order →
          levelsFor options graph order = .ok all →
          levels <+: all) ∧
      Log.dispatchedIn (run graph input options observers now).events =
        levels.flatten ∧
      (run graph input options observers now).notifications =
        levels.flatMap (levelCalls observers graph
            (run graph input options observers now).graph) := by
  cases hinput : graph.hasNode inputKey with
  | true =>
      rw [run, hinput, if_pos rfl]
      exact ⟨[], fun _ _ _ _ => List.nil_prefix, rfl, rfl⟩
  | false =>
      cases horder : Schedule.executionOrder graph with
      | error error =>
          obtain ⟨remaining, rfl⟩ := Schedule.cycle_of_executionOrder horder
          simp only [run, hinput, horder, Bool.false_eq_true, if_false]
          exact ⟨[], fun _ _ _ _ => List.nil_prefix, rfl, rfl⟩
      | ok order =>
          obtain ⟨levels, hlevels, hschedule⟩ :=
            levelsFor_isSchedule options (Schedule.executionOrder_isOrder horder)
          have hedges :
              (opening graph input options order levels).graph.edges = graph.edges :=
            rfl
          obtain ⟨done, hprefix, hlog, hcalls⟩ := Course.notifications_runLevels
            (wellFormed_opening hwell input options order levels) hinput levels 0
            (Course.initial ⟨options, observers, now⟩
                (opening graph input options order levels))
            (hschedule.layered.of_edges_eq hedges)
              (fun id hid => hschedule.mem_iff.1 hid) hschedule.nodup
          obtain ⟨ended, hended, hnodes, hevents, hnotifications⟩ :=
            runAlong_ended ⟨options, observers, now⟩ graph input order levels
          rw [hended] at hlog hcalls
          rw [run_eq_runAlong hinput horder hlevels, hevents, hnotifications, hlog, hcalls,
            levelCalls_congr rfl hnodes]
          refine ⟨done, ?_, rfl, rfl⟩
          intro order' all horder' hall
          obtain rfl : order = order' := Except.ok.inj horder'
          obtain rfl : levels = all := Except.ok.inj (hlevels.symm.trans hall)
          exact hprefix

/-- **Observers are told of every transition, and change nothing.** -/
theorem observers_told_of_every_transition
    (hgraph : graph.Reachable)
    (input : Json)
    (options : RunOptions)
    (observers : Observers)
    (now : Instant) :
    (run graph input options observers now).SameEnd
      (run graph input options [] now) ∧
    ∃ levels,
      Told options observers graph levels
        (run graph input options observers now) := by
  refine ⟨run_unobserved graph input options observers now, ?_⟩
  have hwell := hgraph.wellFormed
  obtain ⟨levels, hplanned, hdispatched, hcalls⟩ :=
    notifications_run hwell input options observers now
  obtain ⟨outcomes, hrecord⟩ := recorded_of_run hwell input options observers now
  have hids : levels.flatten = outcomes.map NodeOutcome.id :=
    hdispatched.symm.trans hrecord.dispatched
  refine ⟨levels, hplanned, hdispatched, ?_, ?_, hcalls⟩
  · rw [hids]
    exact hrecord.nodup
  · intro id hid
    rw [hids] at hid
    obtain ⟨outcome, hmem, rfl⟩ := List.mem_map.1 hid
    obtain ⟨before, after, hbefore, hafter, hcounted⟩ := hrecord.counted hmem
    have hwellAfter : (run graph input options observers now).graph.WellFormed := by
      rw [← Graph.wellFormed_reset_iff, hrecord.reset, Graph.wellFormed_reset_iff]
      exact hwell
    exact ⟨before, after, hbefore, hafter, hwell.node_id hbefore, hwellAfter.node_id hafter,
      hcounted.endedOnce⟩

/-- Two observers of the start of a node, of which the first one raises an error, and an
observer of failures that raises an error, too. -/
def watchers : Observers :=
  [⟨.running, fun _ => some .foreign⟩, ⟨.error, fun _ => some (.text "no")⟩,
    ⟨.running, fun _ => none⟩]

theorem observers_told_of_every_transition_halting :
    halting.Reachable ∧
    (run halting .null { parallel := true } watchers ⟨0⟩).SameEnd
      (run halting .null { parallel := true } [] ⟨0⟩) ∧
    (∃ levels,
        Told { parallel := true } watchers halting levels
          (run halting .null { parallel := true } watchers ⟨0⟩)) ∧
    (run halting .null { parallel := true } watchers ⟨0⟩).notifications.map
      (fun call => (call.observer, call.node.id)) =
      [(0, "bad"), (2, "bad"), (0, "lax"), (2, "lax"), (0, "one"), (2, "one"),
        (1, "bad"), (1, "lax")] := by
  obtain ⟨hsame, htold⟩ := observers_told_of_every_transition reachable_halting .null
    { parallel := true } watchers ⟨0⟩
  exact ⟨reachable_halting, hsame, htold, rfl⟩

end Run

end PhaseFlow
