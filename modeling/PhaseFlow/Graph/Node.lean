import PhaseFlow.Executor.Capability
import PhaseFlow.Time.Instant

/-!
# Nodes

A node is one phase of a pipeline: what it runs, with which configuration, and the
record of its runs.
-/

namespace PhaseFlow

/-- Where a node stands with respect to its latest run; an idle node has never run, or
was reset. -/
inductive NodeStatus where
  | idle
  | running
  | completed
  | error
  deriving DecidableEq

namespace NodeStatus

instance : Inhabited NodeStatus :=
  ⟨idle⟩

/-- The name of a status. -/
def name : NodeStatus → String
  | idle => "idle"
  | running => "running"
  | completed => "completed"
  | error => "error"

/-- The status of a name. -/
def ofName (name : String) : Except ConfigurationFault NodeStatus :=
  if name = "idle" then .ok idle
  else if name = "running" then .ok running
  else if name = "completed" then .ok completed
  else if name = "error" then .ok error
  else .error (.unknownStatus name)

@[simp] theorem ofName_name
    (status : NodeStatus) :
    ofName status.name = .ok status := by
  cases status <;> rfl

end NodeStatus

/-- A phase of a pipeline. Its successful and its failed runs are counted modulo `2 ^
64`, and `lastRun` is when the last of them ended. -/
structure Node where
  id : String
  phase : String
  config : Json
  executor : Capability
  status : NodeStatus
  createdAt : Instant
  lastRun : Option Instant
  runCount : UInt64
  errorCount : UInt64

namespace Node

/-- A node that never ran. -/
def fresh
    (id phase : String)
    (config : Json)
    (executor : Capability)
    (now : Instant) :
    Node :=
  { id, phase, config, executor
    status := .idle
    createdAt := now
    lastRun := none
    runCount := 0
    errorCount := 0 }

/-- Whether a run goes on when this node fails: the truth value, or one of the texts
`true` and `1`. -/
def continuesOnError (node : Node) : Bool :=
  match node.config.field? "continue_on_error" with
  | some (.bool value) => value
  | some (.str text) => text = "true" || text = "1"
  | _ => false

/-- The node with its record erased. -/
def reset (node : Node) : Node :=
  { node with
    status := .idle
    lastRun := none
    runCount := 0
    errorCount := 0 }

/-- The node dispatched. -/
def dispatched (node : Node) : Node :=
  { node with status := .running }

/-- The node after a successful run. -/
def succeeded (node : Node) (now : Instant) : Node :=
  { node with
    status := .completed
    lastRun := some now
    runCount := node.runCount + 1 }

/-- The node after a failed run. -/
def failed (node : Node) (now : Instant) : Node :=
  { node with
    status := .error
    lastRun := some now
    errorCount := node.errorCount + 1 }

end Node

end PhaseFlow
