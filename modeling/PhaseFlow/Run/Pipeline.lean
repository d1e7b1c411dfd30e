import PhaseFlow.Phase.Execution
import PhaseFlow.Run.Result
import PhaseFlow.Schedule.Levels
import PhaseFlow.Schedule.Order

/-!
# Running a graph

A run orders the nodes, groups them into levels and executes one level after the other.
The inputs of a level are assembled before any of its nodes is executed, and its
outcomes are merged in the order of the level when all of them are there.

* A failed node whose configuration tolerates failures leaves no output and the run goes
  on.
* Any other failure aborts the run, once its level has been merged; the first such
  failure of the level is the one that is raised. A phase that is refused before its
  first attempt is never tolerated.
* Observers are told of each status that a node enters. What they raise is logged and
  otherwise ignored.

`Run.run` is the whole run; `Run.Report` says what became of the graph also when it was
aborted.
-/

namespace PhaseFlow

namespace Run

/-! ## Observers -/

/-- Someone who is told when a node enters a status, and what they raise then. -/
structure Observer where
  status : NodeStatus
  reaction : Node → Option Raised

/-- The observers in the order of their registration. -/
abbrev Observers :=
  List Observer

/-- The observers with one more; one without a reaction is refused. -/
def register
    (observers : Observers)
    (status : NodeStatus)
    (reaction : Option (Node → Option Raised)) :
    Result Observers :=
  match reaction with
  | some reaction => .ok (observers ++ [⟨status, reaction⟩])
  | none => refuse .emptyCallback

/-- One call of an observer, by its place in the order of registration, with the node as
it was then. -/
structure Notification where
  observer : Nat
  node : Node

/-! ## Progress -/

/-- How far a run has come: the graph, and what there is so far of the result and of the
log. -/
structure Progress where
  graph : Graph
  flow : DataFlow
  completed : List String := []
  failed : List String := []
  errors : KeyMap String := KeyMap.empty
  records : KeyMap PhaseRecord := KeyMap.empty
  events : List Log.Event := []
  notifications : List Notification := []
  time : Nat := 0

/-- What does not change during a run. -/
structure Setting where
  options : RunOptions
  observers : Observers
  begun : Instant

namespace Progress

/-- After some events have been logged. -/
def log (progress : Progress) (events : List Log.Event) : Progress :=
  { progress with events := progress.events ++ events }

/-- What the events about a node are about. -/
def subject (progress : Progress) (node : Node) : Log.Subject :=
  { graphId := progress.graph.id, nodeId := node.id, phase := node.phase }

/-- After one observer has been told of a node, if it waits for the status of the
node. -/
def tell
    (node : Node)
    (progress : Progress)
    (numbered : Observer × Nat) :
    Progress :=
  let (observer, number) := numbered
  if observer.status = node.status then
    let told := { progress with notifications := progress.notifications ++ [⟨number, node⟩] }
    match observer.reaction node with
    | none => told
    | some raised =>
        told.log [.error (progress.subject node) ("state callback failed: " ++
          raised.message)
          "state-callback"]
  else progress

/-- After all observers have been told of a node. -/
def notify (setting : Setting) (progress : Progress) (id : String) : Progress :=
  match progress.graph.nodes.get? id with
  | none => progress
  | some node => setting.observers.zipIdx.foldl (tell node) progress

end Progress

/-! ## Executing the nodes of a level -/

/-- What a dispatched node produced. -/
structure NodeOutcome where
  id : String
  result : Result Completion
  events : List Log.Event
  finish : Nat

/-- Whether an error is the failure of a phase, which can be tolerated. -/
def isPhaseFailure : Error → Bool
  | .phaseFailed _ _ _ => true
  | _ => false

/-- The execution of a node in a graph. -/
def invocation
    (options : RunOptions)
    (graphId : String)
    (node : Node)
    (input : Json) :
    Invocation :=
  { name := node.id
    phase := node.phase
    capability := node.executor
    config := node.config
    input := input
    graphId := graphId
    progress := options.progress
    writer := options.writer }

/-- The outcome of a node that is executed at some time. -/
def executeNode
    (options : RunOptions)
    (graphId : String)
    (work : Node × Json)
    (time : Nat) :
    NodeOutcome :=
  let (node, input) := work
  let invocation := invocation options graphId node input
  match Execution.run invocation options.retry {} time with
  | .error refusal => ⟨node.id, .error refusal.error, refusal.events invocation, time⟩
  | .ok execution =>
      { id := node.id
        result := execution.outcome.mapError fun failure => failure.error node.id
        events := execution.events
        finish := execution.finish }

/-- The outcomes of nodes that are executed one after the other. -/
def executeInTurn
    (options : RunOptions)
    (graphId : String) :
    List (Node × Json) → Nat → List NodeOutcome
  | [], _ => []
  | work :: rest, time =>
      let outcome := executeNode options graphId work time
      outcome :: executeInTurn options graphId rest outcome.finish

/-- The outcomes of nodes that are executed together. -/
def executeTogether
    (options : RunOptions)
    (graphId : String)
    (work : List (Node × Json))
    (time : Nat) :
    List NodeOutcome :=
  work.map fun item => executeNode options graphId item time

/-- The nodes of a level with their inputs. -/
def workOf (progress : Progress) (level : List String) : List (Node × Json) :=
  level.filterMap fun id =>
    (progress.graph.nodes.get? id).map fun node =>
      (node, assembleInput progress.graph progress.flow id)

/-- The outcomes of the nodes of a level, in the order of the level. -/
def executeLevel
    (options : RunOptions)
    (progress : Progress)
    (level : List String) :
    List NodeOutcome :=
  let work := workOf progress level
  if options.parallel then executeTogether options progress.graph.id work progress.time
  else executeInTurn options progress.graph.id work progress.time

/-! ## Merging the outcomes -/

/-- The graph after a node has put out a value of some size: the counters of its active
outgoing edges move on. -/
def passOutput (graph : Graph) (id : String) (size : Nat) : Graph :=
  ((graph.outgoing id).filter Edge.active).foldl
    (fun graph edge => graph.modifyEdge edge.id fun stored => stored.passed size) graph

/-- After the success of a node has been recorded. -/
def recordSuccess
    (setting : Setting)
    (progress : Progress)
    (id : String)
    (finish : Nat)
    (done : Completion) :
    Progress :=
  let moment := setting.begun.later finish
  let graph := progress.graph.modifyNode id fun node => node.succeeded moment
  Progress.notify setting
    { progress with
      graph := passOutput graph id done.output.byteSize
      flow := progress.flow.insert id done.output
      completed := progress.completed ++ [id]
      records := progress.records.insert id ⟨done.attempts, done.duration, moment⟩ } id

/-- Whether a failure of a node is tolerated. -/
def isTolerated (progress : Progress) (id : String) (error : Error) : Bool :=
  isPhaseFailure error && (progress.graph.nodes.get? id).any Node.continuesOnError

/-- What the events about the node of an id are about. -/
def subjectOf (progress : Progress) (id : String) : Log.Subject :=
  match progress.graph.nodes.get? id with
  | some node => progress.subject node
  | none => { graphId := progress.graph.id, nodeId := id }

/-- After the failure of a node has been recorded. -/
def recordFailure
    (setting : Setting)
    (progress : Progress)
    (id : String)
    (finish : Nat)
    (error : Error) :
    Progress :=
  let moment := setting.begun.later finish
  let told := Progress.notify setting
    { progress with
      graph := progress.graph.modifyNode id fun node => node.failed moment
      errors := progress.errors.insert id error.message } id
  if isTolerated progress id error then
    { told with failed := told.failed ++ [id] }.log
      [.warning (subjectOf told id)
        ("Phase failed, continuing (continue_on_error): " ++ error.message)]
  else
    told.log [.error (subjectOf told id) ("Aborting pipeline: " ++ error.message)
        "run-pipeline"]

/-- After one outcome has been merged. The second component is the failure that aborts
the run, if there is one so far. -/
def merge
    (setting : Setting)
    (state : Progress × Option Error)
    (outcome : NodeOutcome) :
    Progress × Option Error :=
  let (progress, abort) := state
  match outcome.result with
  | .ok done => (recordSuccess setting progress outcome.id outcome.finish done, abort)
  | .error error =>
      let next := recordFailure setting progress outcome.id outcome.finish error
      if isTolerated progress outcome.id error then (next, abort)
      else (next, abort.or (some error))

/-! ## Levels -/

/-- After the nodes of a level have been marked as running. -/
def markRunning (progress : Progress) (level : List String) : Progress :=
  let graph :=
    level.foldl (fun graph id => graph.modifyNode id Node.dispatched) progress.graph
  { progress with
    graph := { graph with
      state := { graph.state with currentPhase := Text.joinShown "," level } } }

/-- After a level has been dispatched and its observers told. -/
def dispatch
    (setting : Setting)
    (progress : Progress)
    (index : Nat)
    (level : List String) :
    Progress :=
  let started := progress.log
    [.levelDispatch progress.graph.id index level setting.options.parallel]
  level.foldl (Progress.notify setting) (markRunning started level)

/-- After a level has been executed and merged, and the failure that aborts the run, if
any. -/
def runLevel
    (setting : Setting)
    (progress : Progress)
    (index : Nat)
    (level : List String) :
    Progress × Option Error :=
  let dispatched := dispatch setting progress index level
  let outcomes := executeLevel setting.options dispatched level
  let executed :=
    { dispatched.log (outcomes.flatMap NodeOutcome.events) with
      time := outcomes.foldl (fun time outcome => max time outcome.finish) dispatched.time }
  outcomes.foldl (merge setting) (executed, none)

/-- After the levels have been run, up to the first that aborts the run. -/
def runLevels
    (setting : Setting) :
    Nat → List (List String) → Progress → Progress × Option Error
  | _, [], progress => (progress, none)
  | index, level :: rest, progress =>
      match runLevel setting progress index level with
      | (next, none) => runLevels setting (index + 1) rest next
      | (next, some error) => (next, some error)

/-! ## The whole run -/

/-- What became of a run: the result or the error that ended it, the graph afterwards,
what was logged and the calls of observers in order, and the milliseconds it took. -/
structure Report where
  outcome : Result RunResult
  graph : Graph
  events : List Log.Event := []
  notifications : List Notification := []
  elapsed : Nat := 0

/-- The graph with its run over. -/
def settled (graph : Graph) (lastError : Option String) : Graph :=
  { graph with
    state := { graph.state with
      running := false
      currentPhase := ""
      lastError := lastError.getD graph.state.lastError } }

/-- The report of a run that was aborted. -/
def aborted (progress : Progress) (error : Error) : Report :=
  let ended := progress.log
    [.pipelineComplete progress.graph.id "aborted" progress.completed.length
      progress.errors.size (Binary64.ofNat progress.time)]
  { outcome := .error error
    graph := settled ended.graph (some error.message)
    events := ended.events
    notifications := ended.notifications
    elapsed := ended.time }

/-- The status with which a run ends that has come this far. -/
def statusOf (progress : Progress) : RunStatus :=
  if progress.failed.isEmpty then .success else .partialFailure

/-- The output of the node completed last; null without one. -/
def lastOutput (progress : Progress) : Json :=
  match progress.completed.getLast? with
  | some id => progress.flow.getD id .null
  | none => .null

/-- The report of a run that came to its end. -/
def finished
    (progress : Progress)
    (order : List String)
    (levels : List (List String)) :
    Report :=
  let result : RunResult :=
    { completed := progress.completed
      failed := progress.failed
      errors := progress.errors
      flow := progress.flow
      finalOutput := lastOutput progress
      status := statusOf progress
      records := progress.records
      order := order
      levels := levels
      elapsed := progress.time }
  let lastError := progress.failed.getLast?.bind progress.errors.get?
  let ended := progress.log
    [.pipelineComplete progress.graph.id result.statusName progress.completed.length
      progress.failed.length (Binary64.ofNat progress.time)]
  { outcome := .ok result
    graph := settled ended.graph lastError
    events := ended.events
    notifications := ended.notifications
    elapsed := ended.time }

/-- The report of a run along an order and its levels. -/
def runAlong
    (setting : Setting)
    (graph : Graph)
    (input : Json)
    (order : List String)
    (levels : List (List String)) :
    Report :=
  let started : Graph :=
    { graph with
      state := { graph.state with
        running := true
        executionOrder := order
        lastError := "" } }
  let progress : Progress :=
    { graph := started
      flow := if input.isNull then KeyMap.empty else KeyMap.empty.insert inputKey input
      events := [.pipelineStart graph.id graph.metadata.name graph.nodes.size levels.length
        setting.options.parallel] }
  match runLevels setting 0 levels progress with
  | (ended, none) => finished ended order levels
  | (ended, some error) => aborted ended error

/-- The report of a run that found no order of the nodes. -/
def unordered (graph : Graph) (error : Error) : Report :=
  { outcome := .error error
    graph := { graph with
      state := { graph.state with
        running := false
        lastError := error.message } }
    events := [.error { graphId := graph.id } error.message error.operation] }

/-- The levels that a run dispatches. -/
def levelsFor
    (options : RunOptions)
    (graph : Graph)
    (order : List String) :
    Result (List (List String)) :=
  if options.parallel then Schedule.levels graph order
  else .ok (Schedule.sequentialLevels order)

/-- **A run of a graph.** A null input means that there is none. -/
def run
    (graph : Graph)
    (input : Json)
    (options : RunOptions)
    (observers : Observers)
    (now : Instant) :
    Report :=
  if graph.hasNode inputKey then
    { outcome := refuse (.reservedNode inputKey), graph := graph }
  else
    match Schedule.executionOrder graph with
    | .error error => unordered graph error
    | .ok order =>
        match levelsFor options graph order with
        | .error error => { outcome := .error error, graph := graph }
        | .ok levels => runAlong ⟨options, observers, now⟩ graph input order levels

end Run

end PhaseFlow
