import Mathlib.Data.Set.Card
import PhaseFlow.Proofs.Phase.Logging
import PhaseFlow.Proofs.Run.Ending
import PhaseFlow.Proofs.Run.Observers

/-!
# How the log of a run is closed

A run that is started opens its log, and however it ends, it closes it: nothing that
happens in between, to nodes, levels or observers, opens or closes a log (`Continues`).
The last event counts the nodes that completed and those that failed. A run that is
aborted counts its errors and a run that returns counts the failures it tolerated; both
are the failed outcomes (`failedIn`), since a run that returns has tolerated all of
them. So completed and failed nodes make up those that were dispatched.

Main statement: `started_run_is_closed`.
-/

namespace PhaseFlow

namespace Log

/-! ## Opened and closed logs -/

/-- Whether an event opens or closes the log of a run. -/
def Event.isPipeline : Event → Bool
  | .pipelineStart .. => true
  | .pipelineComplete .. => true
  | _ => false

/-- The events that are written. -/
def Config.written (config : Config) (events : List Event) : List Event :=
  events.filter config.admits

/-- The second log goes on where the first one stops, and is neither opened nor closed
meanwhile. -/
def Continues (events next : List Event) : Prop :=
  ∃ more, next = events ++ more ∧ ∀ event ∈ more, event.isPipeline = false

/-- The log begins and ends with two events, and is neither opened nor closed between
the two. -/
def Encloses (first last : Event) (events : List Event) : Prop :=
  ∃ middle, events = first :: middle ++ [last] ∧ ∀ event ∈ middle, event.isPipeline = false

variable {config : Config} {events next : List Event} {event first last : Event}

theorem Continues.refl (events : List Event) : Continues events events :=
  ⟨[], (List.append_nil events).symm, by simp⟩

theorem Continues.trans
    {final : List Event}
    (h : Continues events next)
    (hfinal : Continues next final) :
    Continues events final := by
  obtain ⟨more, rfl, hmore⟩ := h
  obtain ⟨others, rfl, hothers⟩ := hfinal
  exact ⟨more ++ others, List.append_assoc .., List.forall_mem_append.2 ⟨hmore, hothers⟩⟩

theorem Continues.snoc
    (events : List Event)
    (h : event.isPipeline = false) :
    Continues events (events ++ [event]) :=
  ⟨[event], rfl, by simpa using h⟩

/-- What each step keeps up is kept up by all steps. -/
theorem Continues.foldl
    {α ι : Type}
    (log : α → List Event)
    {step : α → ι → α}
    (hstep : ∀ state item, Continues (log state) (log (step state item))) :
    ∀ (items : List ι) (state : α),
      Continues (log state) (log (items.foldl step state))
  | [], state => Continues.refl (log state)
  | item :: rest, state =>
      (hstep state item).trans (Continues.foldl log hstep rest (step state item))

theorem TellsOf.not_isPipeline
    {id : String}
    (h : TellsOf id events) :
    ∀ event ∈ events, event.isPipeline = false := by
  intro event hevent
  have hid := h event hevent
  cases event <;> first | rfl | cases hid

/-! ## What is written -/

theorem admits_of_isPipeline
    (hlevel : config.minLevel = .debug)
    (h : event.isPipeline = true) :
    config.admits event = true := by
  have hdata : event.isPreview = false := by
    cases event <;> first | rfl | cases h
  rw [admits_eq hlevel, hdata, Bool.not_false, Bool.or_true]

theorem Encloses.written
    (hlevel : config.minLevel = .debug)
    (hfirst : first.isPipeline = true)
    (hlast : last.isPipeline = true)
    (h : Encloses first last events) :
    Encloses first last (config.written events) := by
  obtain ⟨middle, rfl, hmiddle⟩ := h
  refine ⟨middle.filter config.admits, ?_,
    fun event hevent => hmiddle event (List.mem_filter.1 hevent).1⟩
  rw [Config.written, List.filter_append, List.filter_cons_of_pos
    (admits_of_isPipeline hlevel hfirst),
    List.filter_cons_of_pos (admits_of_isPipeline hlevel hlast), List.filter_nil]

/-- A preview tells of no dispatched node. -/
theorem dispatchedIn_written
    (hlevel : config.minLevel = .debug)
    (events : List Event) :
    dispatchedIn (config.written events) = dispatchedIn events := by
  induction events with
  | nil => rfl
  | cons event events ih =>
      have htail :
          dispatchedIn (event :: events) = event.dispatched ++ dispatchedIn events :=
        List.flatMap_cons
      rw [htail, ← ih, Config.written]
      by_cases hadmits : config.admits event = true
      · rw [List.filter_cons_of_pos hadmits]
        rfl
      · rw [List.filter_cons_of_neg hadmits]
        rw [admits_eq hlevel] at hadmits
        cases event <;> first | rfl | simp [Event.isPreview] at hadmits

end Log

namespace Run

open Log (Continues Encloses)

variable {setting : Setting} {graph : Graph} {input : Json}
variable {order : List String} {levels : List (List String)}
variable {outcomes : List NodeOutcome} {ended : Progress}

/-! ## The log of a run between its start and its end -/

theorem continues_tell
    (node : Node)
    (progress : Progress)
    (numbered : Observer × Nat) :
    Continues progress.events (Progress.tell node progress numbered).events := by
  unfold Progress.tell
  dsimp only
  split
  · split
    · exact Continues.refl progress.events
    · exact Continues.snoc progress.events rfl
  · exact Continues.refl progress.events

theorem continues_notify
    (setting : Setting)
    (progress : Progress)
    (id : String) :
    Continues progress.events (Progress.notify setting progress id).events := by
  unfold Progress.notify
  split
  · exact Continues.refl progress.events
  · exact Continues.foldl Progress.events (continues_tell _) _ progress

theorem continues_recordSuccess
    (setting : Setting)
    (progress : Progress)
    (id : String)
    (finish : Nat)
    (done : Completion) :
    Continues progress.events
      (recordSuccess setting progress id finish done).events :=
  continues_notify setting _ id

theorem continues_recordFailure
    (setting : Setting)
    (progress : Progress)
    (id : String)
    (finish : Nat)
    (error : Error) :
    Continues progress.events
      (recordFailure setting progress id finish error).events := by
  have hnotify := continues_notify setting
    { progress with
      graph :=
        progress.graph.modifyNode id fun node =>
          node.failed (setting.begun.later finish)
      errors := progress.errors.insert id error.message } id
  unfold recordFailure
  dsimp only
  split
  · exact hnotify.trans (Continues.snoc _ rfl)
  · exact hnotify.trans (Continues.snoc _ rfl)

theorem continues_merge
    (setting : Setting)
    (state : Progress × Option Error)
    (outcome : NodeOutcome) :
    Continues state.1.events (merge setting state outcome).1.events := by
  obtain ⟨done, hmerge⟩ | ⟨error, hmerge⟩ := merge_cases setting state outcome
  · rw [hmerge]
    exact continues_recordSuccess setting state.1 outcome.id outcome.finish done
  · rw [hmerge]
    exact continues_recordFailure setting state.1 outcome.id outcome.finish error

theorem continues_dispatch
    (setting : Setting)
    (progress : Progress)
    (index : Nat)
    (level : List String) :
    Continues progress.events (dispatch setting progress index level).events := by
  unfold dispatch
  refine Continues.trans ?_
    (Continues.foldl Progress.events (continues_notify setting) level _)
  exact Continues.snoc progress.events rfl

/-- Executions log phase events only. -/
theorem continues_executed
    (options : RunOptions)
    (progress : Progress)
    (level : List String) :
    Continues progress.events
      (executed progress (executeLevel options progress level)).events := by
  refine ⟨_, rfl, fun event hevent => ?_⟩
  obtain ⟨outcome, houtcome, hlogged⟩ := List.mem_flatMap.1 hevent
  have hexecution :
      ∃ item moment, outcome = executeNode options progress.graph.id item moment := by
    unfold executeLevel at houtcome
    dsimp only at houtcome
    split at houtcome
    · obtain ⟨item, -, rfl⟩ := List.mem_map.1 houtcome
      exact ⟨item, progress.time, rfl⟩
    · obtain ⟨item, -, moment, hitem⟩ := executeNode_mem_executeInTurn houtcome
      exact ⟨item, moment, hitem⟩
  obtain ⟨⟨node, data⟩, moment, rfl⟩ := hexecution
  exact
    (tellsOf_executeNode options progress.graph.id node data moment).not_isPipeline
    event hlogged

theorem continues_runLevel
    (setting : Setting)
    (progress : Progress)
    (index : Nat)
    (level : List String) :
    Continues progress.events (runLevel setting progress index level).1.events := by
  rw [runLevel_eq]
  have hdispatch := continues_dispatch setting progress index level
  have hexecuted :=
    continues_executed setting.options (dispatch setting progress index level) level
  exact hdispatch.trans (hexecuted.trans
    (Continues.foldl (fun state : Progress × Option Error => state.1.events)
      (continues_merge setting) _ _))

/-- **No level opens or closes the log of a run.** -/
theorem continues_runLevels
    (setting : Setting) :
    ∀ (levels : List (List String)) (index : Nat) (progress : Progress),
      Continues progress.events (runLevels setting index levels progress).1.events
  | [], _, progress => Continues.refl progress.events
  | level :: rest, index, progress => by
      have hlevel := continues_runLevel setting progress index level
      unfold runLevels
      split
      · next merged hrun =>
          rw [hrun] at hlevel
          exact hlevel.trans (continues_runLevels setting rest (index + 1) merged)
      · next merged error hrun =>
          rw [hrun] at hlevel
          exact hlevel

/-- The event that opens the log of a run. -/
def startOf
    (graph : Graph)
    (options : RunOptions)
    (levels : List (List String)) :
    Log.Event :=
  .pipelineStart graph.id graph.metadata.name graph.nodes.size levels.length options.parallel

/-- **A run along some levels opens its log and closes it**, and does neither in
between. -/
theorem encloses_runAlong
    {events : List Log.Event} {last : Log.Event}
    (h : (runAlong setting graph input order levels).events = events ++ [last]) :
    Encloses (startOf graph setting.options levels) last (events ++ [last]) := by
  obtain ⟨middle, hmiddle, hquiet⟩ :=
    continues_runLevels setting levels 0 (opening graph input setting.options order levels)
  have hlast : ∃ final, (runAlong setting graph input order levels).events =
      (runLevels setting 0 levels
          (opening graph input setting.options order levels)).1.events ++
        [final] := by
    rw [runAlong_eq]
    split
    · next hrun =>
        rw [hrun]
        exact ⟨_, rfl⟩
    · next hrun =>
        rw [hrun]
        exact ⟨_, rfl⟩
  obtain ⟨final, hfinal⟩ := hlast
  rw [hfinal] at h
  refine ⟨middle, ?_, hquiet⟩
  rw [← (List.append_inj' h rfl).1, hmiddle]
  rfl

/-! ## Totals -/

/-- The nodes whose execution failed, tolerated or not. -/
def failedIn (outcomes : List NodeOutcome) : List String :=
  (outcomes.filter fun outcome => !outcome.result.isOk).map NodeOutcome.id

/-- An outcome is a completion or a failure. -/
theorem length_completedIn_add_length_failedIn
    (outcomes : List NodeOutcome) :
    (completedIn outcomes).length + (failedIn outcomes).length = outcomes.length := by
  rw [completedIn, failedIn, List.length_map, List.length_map]
  exact (List.length_eq_length_filter_add _).symm

theorem mem_failedIn
    (hnodup : (outcomes.map NodeOutcome.id).Nodup)
    {id : String} :
    id ∈ failedIn outcomes ↔ ∃ error, errorOf outcomes id = some error := by
  rw [failedIn, mem_map_id_filter hnodup]
  constructor
  · rintro ⟨outcome, houtcome, hfailed⟩
    cases hresult : outcome.result with
    | ok done => simp [hresult, Except.isOk, Except.toBool] at hfailed
    | error error => exact ⟨error, errorOf_eq_some_iff.2 ⟨outcome, houtcome, hresult⟩⟩
  · rintro ⟨error, herror⟩
    obtain ⟨outcome, houtcome, hresult⟩ := errorOf_eq_some_iff.1 herror
    exact ⟨outcome, houtcome, by simp [hresult, Except.isOk, Except.toBool]⟩

/-- **A run that returns counts all failures**, since it has tolerated them. -/
theorem toleratedIn_eq_failedIn
    (h : ∀ outcome ∈ outcomes, outcome.fatal? graph = none) :
    toleratedIn graph outcomes = failedIn outcomes := by
  refine congrArg (List.map NodeOutcome.id) (List.filter_congr fun outcome hmem => ?_)
  rw [h outcome hmem, Option.isNone_none, Bool.and_true]

/-- **A run that is aborted counts all failures**, since each leaves an error. -/
theorem Transcript.size_errors
    (h : Transcript setting graph input order levels outcomes ended) :
    ended.errors.size = (failedIn outcomes).length := by
  have hkeys : ended.errors.keys.Perm (failedIn outcomes) := by
    refine (List.perm_ext_iff_of_nodup (KeyMap.nodup_keys _)
        (nodup_map_id_filter h.course.nodup _)).2
      fun id => ?_
    have herrors :
        ended.errors.get? id = ((errorOf outcomes id).map Error.message).or none :=
      h.course.account.errors id
    rw [KeyMap.mem_keys_iff, ← failedIn, mem_failedIn h.course.nodup, herrors]
    simp
  rw [← hkeys.length_eq, KeyMap.keys, List.length_map, KeyMap.size]

/-- A node has completed once more. -/
def CompletedOnce (before after : Node) : Prop :=
  after.status = .completed ∧ after.runCount = before.runCount + 1

/-- A node has failed once more. -/
def FailedOnce (before after : Node) : Prop :=
  after.status = .error ∧ after.errorCount = before.errorCount + 1

/-- The nodes of a graph that have changed in some way. -/
def changed (change : Node → Node → Prop) (before after : Graph) : Set String :=
  {id | ∃ old new, before.nodes.get? id = some old ∧ after.nodes.get? id = some new
      ∧ change old new}

theorem Counted.completedOnce_iff
    {outcome : NodeOutcome} {before after : Node}
    (h : Counted outcome before after) :
    CompletedOnce before after ↔ outcome.result.isOk = true := by
  unfold Counted at h
  split at h
  · next hresult => simp [CompletedOnce, h, hresult, Except.isOk, Except.toBool]
  · next hresult => simp [CompletedOnce, h, hresult, Except.isOk, Except.toBool]

theorem Counted.failedOnce_iff
    {outcome : NodeOutcome} {before after : Node}
    (h : Counted outcome before after) :
    FailedOnce before after ↔ (!outcome.result.isOk) = true := by
  unfold Counted at h
  split at h
  · next hresult => simp [FailedOnce, h, hresult, Except.isOk, Except.toBool]
  · next hresult => simp [FailedOnce, h, hresult, Except.isOk, Except.toBool]

theorem not_completedOnce (node : Node) : ¬ CompletedOnce node node := fun h =>
  absurd h.2 (by simp)

theorem not_failedOnce (node : Node) : ¬ FailedOnce node node := fun h =>
  absurd h.2 (by simp)

variable {options : RunOptions} {begun : Instant} {report : Report}

/-- A change that outcomes bring about, and nothing else does, is found at the nodes
with such an outcome. -/
theorem Recorded.mem_changed_iff
    (h : Recorded options begun graph outcomes report)
    {change : Node → Node → Prop} {keep : NodeOutcome → Bool}
    (hcounted :
        ∀ {outcome before after},
          Counted outcome before after → (change before after ↔ keep outcome = true))
    (hsame : ∀ node, ¬ change node node)
    {id : String} :
    id ∈ changed change graph report.graph ↔
      id ∈ (outcomes.filter keep).map NodeOutcome.id := by
  by_cases hid : id ∈ outcomes.map NodeOutcome.id
  · obtain ⟨outcome, hmem, rfl⟩ := List.mem_map.1 hid
    obtain ⟨before, after, hbefore, hafter, hcount⟩ := h.counted hmem
    have hchanged :
        outcome.id ∈ changed change graph report.graph ↔ change before after := by
      simp [changed, hbefore, hafter]
    rw [hchanged, hcounted hcount, List.mem_map]
    constructor
    · exact fun hkeep => ⟨outcome, List.mem_filter.2 ⟨hmem, hkeep⟩, rfl⟩
    · rintro ⟨other, hother, hsameId⟩
      obtain ⟨hotherMem, hkeep⟩ := List.mem_filter.1 hother
      rwa [← List.inj_on_of_nodup_map h.nodup hotherMem hmem hsameId]
  · refine iff_of_false ?_ fun hmem =>
      hid ((List.filter_sublist.map NodeOutcome.id).subset hmem)
    rintro ⟨old, new, hold, hnew, hchange⟩
    rw [h.get?_nodes_of_not_mem hid, hold, Option.some.injEq] at hnew
    exact hsame old (hnew ▸ hchange)

/-- **As many nodes have changed as there are such outcomes.** -/
theorem Recorded.ncard_changed
    (h : Recorded options begun graph outcomes report)
    {change : Node → Node → Prop} {keep : NodeOutcome → Bool}
    (hcounted :
        ∀ {outcome before after},
          Counted outcome before after → (change before after ↔ keep outcome = true))
    (hsame : ∀ node, ¬ change node node) :
    (changed change graph report.graph).ncard =
      ((outcomes.filter keep).map NodeOutcome.id).length := by
  have hset : changed change graph report.graph =
      (((outcomes.filter keep).map NodeOutcome.id).toFinset : Set String) := by
    ext id
    rw [Finset.mem_coe, List.mem_toFinset]
    exact h.mem_changed_iff hcounted hsame
  rw [hset, Set.ncard_coe_finset,
    List.toFinset_card_of_nodup (nodup_map_id_filter h.nodup keep)]

/-! ## Whole runs -/

/-- What is written of a run that was started. -/
structure ClosedAs
    (options : RunOptions)
    (graph : Graph)
    (report : Report)
    (written : List Log.Event)
    (status : String)
    (completed failed : Nat) : Prop where
  enclosed : ∃ levels elapsed, Encloses (startOf graph options levels)
    (.pipelineComplete graph.id status completed failed elapsed) written
  aborted_iff : status = "aborted" ↔ ∃ error, report.outcome = .error error
  status_eq : ∀ result, report.outcome = .ok result → status = result.statusName
  completed_eq : completed = (changed CompletedOnce graph report.graph).ncard
  failed_eq : failed = (changed FailedOnce graph report.graph).ncard
  total : completed + failed = (Log.dispatchedIn written).length
  nodup : (Log.dispatchedIn written).Nodup

variable {config : Log.Config} {observers : Observers} {now : Instant}

/-- The end of a run closes its log, if its failures are counted. -/
theorem Transcript.closedAs
    (hlevel : config.minLevel = .debug)
    (h : Transcript ⟨options, observers, now⟩ graph input order levels outcomes ended)
    (hreport : runAlong ⟨options, observers, now⟩ graph input order levels = report)
    (hrecord : Recorded options now graph outcomes report)
    {status : String} {failed : Nat}
    (hevents :
        report.events =
          ended.events ++
            [.pipelineComplete ended.graph.id status ended.completed.length failed
                (Binary64.ofNat ended.time)])
    (hfailed : failed = (failedIn outcomes).length)
    (haborted : status = "aborted" ↔ ∃ error, report.outcome = .error error)
    (hstatus : ∀ result, report.outcome = .ok result → status = result.statusName) :
    ClosedAs options graph report (config.written report.events) status
      ended.completed.length failed := by
  have hcompleted : ended.completed = completedIn outcomes := h.course.account.completed
  have hid : ended.graph.id = graph.id := h.course.account.graphId
  have hdispatched :
      Log.dispatchedIn (config.written report.events) =
        outcomes.map NodeOutcome.id := by
    rw [Log.dispatchedIn_written hlevel, hrecord.dispatched]
  constructor
  case enclosed =>
    have hlog := encloses_runAlong ((congrArg Report.events hreport).trans hevents)
    rw [← hevents, hid] at hlog
    exact ⟨levels, _, hlog.written hlevel rfl rfl⟩
  case aborted_iff => exact haborted
  case status_eq => exact hstatus
  case completed_eq =>
    rw [hcompleted]
    exact (hrecord.ncard_changed Counted.completedOnce_iff not_completedOnce).symm
  case failed_eq =>
    rw [hfailed]
    exact (hrecord.ncard_changed Counted.failedOnce_iff not_failedOnce).symm
  case total =>
    rw [hdispatched, List.length_map, hcompleted, hfailed,
      length_completedIn_add_length_failedIn]
  case nodup =>
    rw [hdispatched]
    exact hrecord.nodup

theorem statusName_ne_aborted
    (result : RunResult) :
    result.statusName ≠ "aborted" := by
  unfold RunResult.statusName
  cases result.status <;> decide

/-- A run of a graph that has an order closes its log. -/
theorem exists_closedAs
    (hwell : graph.WellFormed)
    (hlevel : config.minLevel = .debug)
    (hinput : graph.hasNode inputKey = false)
    (horder : Schedule.executionOrder graph = .ok order) :
    ∃ status completed failed,
      ClosedAs options graph (run graph input options observers now)
        (config.written (run graph input options observers now).events) status
        completed failed := by
  obtain ⟨levels, outcomes, ended, hlevels, htranscript, hend⟩ :=
    course_of_order options input observers now hwell hinput horder
  have hrun : runAlong ⟨options, observers, now⟩ graph input order levels =
      run graph input options observers now := (run_eq_runAlong hinput horder hlevels).symm
  rcases hend with ⟨htolerated, -, hfinished⟩ | ⟨error, -, haborted⟩
  · rw [hfinished] at hrun ⊢
    refine ⟨_, _, _,
      htranscript.closedAs hlevel hrun htranscript.recorded_finished rfl ?_ ?_ ?_⟩
    · have hfailed : ended.failed = toleratedIn graph outcomes :=
        htranscript.course.account.failed
      rw [hfailed, toleratedIn_eq_failedIn htolerated]
    · refine iff_of_false (statusName_ne_aborted _) ?_
      rintro ⟨error, herror⟩
      cases herror
    · intro result hresult
      cases hresult
      rfl
  · rw [haborted] at hrun ⊢
    refine ⟨_, _, _, htranscript.closedAs hlevel hrun (htranscript.recorded_aborted
      error) rfl htranscript.size_errors ?_ ?_⟩
    · exact iff_of_true rfl ⟨error, rfl⟩
    · intro result hresult
      cases hresult

/-- A run of a graph with a cycle finds one, unless it is refused for the reserved
id. -/
theorem Ending.exists_cycle
    (h : Ending options graph report)
    (hinput : graph.hasNode inputKey = false)
    (hcycle : graph.HasCycle) :
    ∃ remaining, report = unordered graph (.cycle remaining) := by
  cases h with
  | reserved hnode => cases hinput.symm.trans hnode
  | cyclic hnode _ remaining => exact ⟨remaining, rfl⟩
  | misconfigured hnode hacyclic => exact absurd hcycle hacyclic
  | unwritten hnode hacyclic => exact absurd hcycle hacyclic
  | failed hnode hacyclic => exact absurd hcycle hacyclic
  | returned hnode hacyclic => exact absurd hcycle hacyclic

/-- **Every run that is started is closed in its log with true totals.** A run that
finds a cycle logs one error, and a run that is refused for the reserved id logs
nothing. -/
theorem started_run_is_closed
    (hgraph : graph.Reachable)
    (input : Json)
    (options : RunOptions)
    (observers : Observers)
    (now : Instant)
    {config : Log.Config}
    (hlevel : config.minLevel = .debug) :
    (graph.hasNode inputKey = false →
      ¬ graph.HasCycle →
      ∃ status completed failed,
        ClosedAs options graph (run graph input options observers now)
          (config.written (run graph input options observers now).events)
          status completed failed) ∧
    (graph.hasNode inputKey = false →
      graph.HasCycle →
      ∃ error,
        (run graph input options observers now).outcome = .error error ∧
        config.written (run graph input options observers now).events =
          [.error { graphId := graph.id } error.message error.operation]) ∧
    (graph.hasNode inputKey = true →
      config.written (run graph input options observers now).events = []) := by
  have hwell := hgraph.wellFormed
  refine ⟨fun hinput hacyclic => ?_, fun hinput hcycle => ?_, fun hinput => ?_⟩
  · exact exists_closedAs hwell hlevel hinput
      (Schedule.executionOrder_of_not_hasCycle hwell hacyclic)
  · obtain ⟨remaining, hrun⟩ :=
      (ending_of_run hwell input options observers now).exists_cycle hinput hcycle
    rw [hrun]
    refine ⟨.cycle remaining, rfl, List.filter_cons_of_pos ?_⟩
    rw [Log.admits_eq hlevel]
    exact Bool.or_true config.previews
  · rw [run, if_pos hinput]
    rfl

/-- The level of `halting` at which the run stops has two failures, of which one is
tolerated, and a completion. -/
theorem started_run_is_closed_halting :
    halting.Reachable ∧
    halting.hasNode inputKey = false ∧
    ¬ halting.HasCycle ∧
    ClosedAs { parallel := true } halting
      (run halting .null { parallel := true } watchers ⟨0⟩)
      (Log.Config.written { minLevel := .debug }
          (run halting .null { parallel := true } watchers ⟨0⟩).events)
      "aborted" 1 2 := by
  have hacyclic : ¬ halting.HasCycle :=
    Schedule.not_hasCycle_of_executionOrder reachable_halting.wellFormed
      executionOrder_halting
  have hlevel : ({ minLevel := .debug } : Log.Config).minLevel = .debug := rfl
  obtain ⟨hclosed, -, -⟩ :=
    started_run_is_closed reachable_halting .null { parallel := true } watchers ⟨0⟩ hlevel
  obtain ⟨status, completed, failed, hstatus⟩ := hclosed rfl hacyclic
  obtain ⟨levels, elapsed, middle, hlog, -⟩ := hstatus.enclosed
  have hlast := congrArg List.getLast? hlog
  rw [List.getLast?_concat] at hlast
  injection hlast with hlast
  injection hlast with _ hname hcompleted hfailed
  subst hname hcompleted hfailed
  exact ⟨reachable_halting, rfl, hacyclic, hstatus⟩

end Run

end PhaseFlow
