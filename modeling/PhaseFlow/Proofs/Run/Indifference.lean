import PhaseFlow.Proofs.Run.Course

/-!
# Runs without observers

Two stages that differ only in what was logged and told (`SameCourse`) go on to two such
stages, whoever the observers are: a step reads the graph, the outputs and the time
only, and telling an observer changes none of these, also if the observer raises an
error. So a run with observers and the run without any end alike.

Main statement: `run_unobserved`.
-/

namespace PhaseFlow

namespace Run

/-- The same setting without observers. -/
def Setting.unobserved (setting : Setting) : Setting :=
  { setting with observers := [] }

theorem Quiet.symm
    {events next : List Log.Event}
    (h : Quiet events next) :
    Quiet next events :=
  ⟨h.dispatched.symm, h.executions.symm⟩

theorem Quiet.append
    {events next : List Log.Event}
    (h : Quiet events next)
    (more : List Log.Event) :
    Quiet (events ++ more) (next ++ more) := by
  constructor
  · rw [Log.dispatchedIn_append, Log.dispatchedIn_append, h.dispatched]
  · rw [Log.executionsIn_append, Log.executionsIn_append, h.executions]

namespace SameCourse

variable (setting : Setting) {progress other : Progress}

theorem symm (h : SameCourse progress other) : SameCourse other progress :=
  ⟨h.graph.symm, h.flow.symm, h.completed.symm, h.failed.symm, h.errors.symm, h.records.symm,
    h.time.symm, h.quiet.symm⟩

theorem logged
    (h : SameCourse progress other)
    (events : List Log.Event) :
    SameCourse (progress.log events) (other.log events) :=
  ⟨h.graph, h.flow, h.completed, h.failed, h.errors, h.records, h.time,
    h.quiet.append events⟩

/-- Telling observers, or nobody, leads to the same course. -/
theorem notified
    (h : SameCourse progress other)
    (id : String) :
    SameCourse (Progress.notify setting progress id)
      (Progress.notify setting.unobserved other id) :=
  (SameCourse.notify setting progress id).symm.trans (h.trans (SameCourse.notify _ other id))

/-! ## Merging -/

/-- A success is recorded alike, whoever is told of it. -/
theorem recordSuccess
    (h : SameCourse progress other)
    (id : String)
    (finish : Nat)
    (done : Completion) :
    SameCourse (Run.recordSuccess setting progress id finish done)
      (Run.recordSuccess setting.unobserved other id finish done) := by
  refine SameCourse.notified setting ?_ id
  constructor
  case graph =>
      exact congrArg (fun graph : Graph => passOutput (graph.modifyNode id _) id _)
        h.graph
  case flow => exact congrArg (fun flow : DataFlow => flow.insert id done.output) h.flow
  case completed => exact congrArg (· ++ [id]) h.completed
  case failed => exact h.failed
  case errors => exact h.errors
  case records =>
      exact congrArg (fun records : KeyMap PhaseRecord => records.insert id _)
        h.records
  case time => exact h.time
  case quiet => exact h.quiet

/-- Whether a failure is tolerated depends on the graph only. -/
theorem isTolerated_eq
    (h : SameCourse progress other)
    (id : String)
    (error : Error) :
    isTolerated other id error = isTolerated progress id error := by
  unfold isTolerated
  rw [h.graph]

theorem recordFailure
    (h : SameCourse progress other)
    (id : String)
    (finish : Nat)
    (error : Error) :
    SameCourse (Run.recordFailure setting progress id finish error)
      (Run.recordFailure setting.unobserved other id finish error) := by
  have hfailed : SameCourse
      { progress with
        graph :=
          progress.graph.modifyNode id fun node =>
            node.failed (setting.begun.later finish)
        errors := progress.errors.insert id error.message }
      { other with
        graph :=
          other.graph.modifyNode id fun node =>
            node.failed (setting.begun.later finish)
        errors := other.errors.insert id error.message } :=
    ⟨congrArg (fun graph : Graph => graph.modifyNode id _) h.graph, h.flow,
      h.completed, h.failed,
      congrArg (fun errors : KeyMap String => errors.insert id _) h.errors, h.records,
        h.time, h.quiet⟩
  have htold := hfailed.notified setting id
  unfold Run.recordFailure
  rw [h.isTolerated_eq]
  dsimp only
  split
  · exact (SameCourse.log _ rfl rfl).symm.trans
      ((htold.appendFailed [id]).trans (SameCourse.log _ rfl rfl))
  · exact (SameCourse.log _ rfl rfl).symm.trans (htold.trans (SameCourse.log _ rfl rfl))

end SameCourse

/-- Two stages, together with what aborts the run, that differ in what was logged and
told only. -/
structure SameStage (state next : Progress × Option Error) : Prop where
  course : SameCourse state.1 next.1
  abort : state.2 = next.2

namespace SameStage

variable (setting : Setting) {state next : Progress × Option Error}

/-- **One merged outcome**, with observers and without. -/
theorem merge
    (h : SameStage state next)
    (outcome : NodeOutcome) :
    SameStage (Run.merge setting state outcome)
      (Run.merge setting.unobserved next outcome) := by
  obtain ⟨progress, abort⟩ := state
  obtain ⟨other, stop⟩ := next
  obtain ⟨hcourse, rfl⟩ := h
  unfold Run.merge
  cases outcome.result with
  | ok done => exact ⟨hcourse.recordSuccess setting outcome.id outcome.finish done, rfl⟩
  | error error =>
      have hrecorded := hcourse.recordFailure setting outcome.id outcome.finish error
      dsimp only
      rw [hcourse.isTolerated_eq]
      split
      · exact ⟨hrecorded, rfl⟩
      · exact ⟨hrecorded, rfl⟩

theorem mergeAll
    (h : SameStage state next)
    (found : List NodeOutcome) :
    SameStage (found.foldl (Run.merge setting) state)
      (found.foldl (Run.merge setting.unobserved) next) := by
  induction found generalizing state next with
  | nil => exact h
  | cons outcome rest ih => exact ih (h.merge setting outcome)

end SameStage

namespace SameCourse

variable (setting : Setting) {progress other : Progress}

/-! ## Levels -/

theorem markRunning
    (h : SameCourse progress other)
    (level : List String) :
    SameCourse (Run.markRunning progress level) (Run.markRunning other level) :=
  ⟨by unfold Run.markRunning; rw [h.graph], h.flow, h.completed, h.failed, h.errors,
    h.records, h.time, h.quiet⟩

/-- The nodes of a level are marked alike, whoever is told of them. -/
theorem dispatch
    (h : SameCourse progress other)
    (index : Nat)
    (level : List String) :
    SameCourse (Run.dispatch setting progress index level)
      (Run.dispatch setting.unobserved other index level) := by
  have hmarked := (h.logged [.levelDispatch progress.graph.id index level
    setting.options.parallel]).markRunning level
  unfold Run.dispatch
  rw [h.graph]
  exact (SameCourse.foldl (SameCourse.notify setting) level _).symm.trans
    (hmarked.trans (SameCourse.foldl (SameCourse.notify setting.unobserved) level _))

/-- A level is executed alike, since the phases do not see what was told. -/
theorem executeLevel_eq
    (h : SameCourse progress other)
    (options : RunOptions)
    (level : List String) :
    executeLevel options other level = executeLevel options progress level := by
  unfold executeLevel workOf
  rw [h.graph, h.flow, h.time]

theorem executed
    (h : SameCourse progress other)
    (found : List NodeOutcome) :
    SameCourse (Run.executed progress found) (Run.executed other found) where
  graph := h.graph
  flow := h.flow
  completed := h.completed
  failed := h.failed
  errors := h.errors
  records := h.records
  time := by
    unfold Run.executed
    rw [h.time]
  quiet := h.quiet.append _

/-- **One level**, with observers and without. -/
theorem runLevel
    (h : SameCourse progress other)
    (index : Nat)
    (level : List String) :
    SameStage (Run.runLevel setting progress index level)
      (Run.runLevel setting.unobserved other index level) := by
  have hdispatched := h.dispatch setting index level
  have hoptions : setting.unobserved.options = setting.options := rfl
  rw [runLevel_eq, runLevel_eq, hoptions, hdispatched.executeLevel_eq]
  have hexecuted (found : List NodeOutcome) :
      SameStage (Run.executed (Run.dispatch setting progress index level) found, none)
        (Run.executed (Run.dispatch setting.unobserved other index level) found, none) :=
    ⟨hdispatched.executed found, rfl⟩
  exact (hexecuted _).mergeAll setting _

/-- **The levels of a run**, with observers and without: both runs pass them, or both
stop at the same one. -/
theorem runLevels
    (levels : List (List String)) :
    ∀ (index : Nat) {progress other : Progress},
      SameCourse progress other →
      SameStage (Run.runLevels setting index levels progress)
        (Run.runLevels setting.unobserved index levels other) := by
  induction levels with
  | nil => exact fun _ _ _ h => ⟨h, rfl⟩
  | cons level rest ih =>
      intro index progress other h
      have hlevel := h.runLevel setting index level
      unfold Run.runLevels
      generalize Run.runLevel setting progress index level = state at hlevel ⊢
      generalize Run.runLevel setting.unobserved other index level = next at hlevel ⊢
      obtain ⟨merged, abort⟩ := state
      obtain ⟨merged', stop⟩ := next
      obtain ⟨hmerged, rfl⟩ := hlevel
      cases abort with
      | none => exact ih (index + 1) hmerged
      | some error => exact ⟨hmerged, rfl⟩

end SameCourse

/-! ## Whole runs -/

/-- Two reports with the same result or error and the same graph. -/
structure Report.SameEnd (report other : Report) : Prop where
  outcome : report.outcome = other.outcome
  graph : report.graph = other.graph

theorem SameCourse.finished
    {progress other : Progress}
    (h : SameCourse progress other)
    (order : List String)
    (levels : List (List String)) :
    (Run.finished progress order levels).SameEnd
      (Run.finished other order levels) := by
  unfold Run.finished Progress.log lastOutput statusOf
  rw [h.graph, h.flow, h.completed, h.failed, h.errors, h.records, h.time]
  exact ⟨rfl, rfl⟩

theorem SameCourse.aborted
    {progress other : Progress}
    (h : SameCourse progress other)
    (error : Error) :
    (Run.aborted progress error).SameEnd (Run.aborted other error) := by
  unfold Run.aborted Progress.log
  rw [h.graph]
  exact ⟨rfl, rfl⟩

/-- A run along given levels ends alike without observers. -/
theorem runAlong_unobserved
    (setting : Setting)
    (graph : Graph)
    (input : Json)
    (order : List String)
    (levels : List (List String)) :
    (runAlong setting graph input order levels).SameEnd
      (runAlong setting.unobserved graph input order levels) := by
  rw [runAlong_eq, runAlong_eq]
  have hlevels :=
    (SameCourse.refl (opening graph input setting.options order levels)).runLevels
    setting levels 0
  have hopening : opening graph input setting.unobserved.options order levels =
      opening graph input setting.options order levels := rfl
  rw [hopening]
  generalize runLevels setting 0 levels _ = state at hlevels ⊢
  generalize runLevels setting.unobserved 0 levels _ = next at hlevels ⊢
  obtain ⟨ended, abort⟩ := state
  obtain ⟨ended', stop⟩ := next
  obtain ⟨hended, rfl⟩ := hlevels
  cases abort with
  | none => exact hended.finished order levels
  | some error => exact hended.aborted error

/-- **Observers have no influence on a run**: with the same graph, input and options,
the run without any of them has the same result or error, and it leaves the same
graph. -/
theorem run_unobserved
    (graph : Graph)
    (input : Json)
    (options : RunOptions)
    (observers : Observers)
    (now : Instant) :
    (run graph input options observers now).SameEnd
      (run graph input options [] now) := by
  unfold run
  split
  · exact ⟨rfl, rfl⟩
  · split
    · exact ⟨rfl, rfl⟩
    · split
      · exact ⟨rfl, rfl⟩
      · exact runAlong_unobserved ⟨options, observers, now⟩ graph input _ _

end Run

end PhaseFlow
