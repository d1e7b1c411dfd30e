import PhaseFlow.KeyMap
import PhaseFlow.Log.Level
import PhaseFlow.Phase.Policy
import PhaseFlow.Run.Input

/-!
# Results of runs

What a run is asked for, and what it returns when it is not aborted.
-/

namespace PhaseFlow

/-- What a run is asked for, and the JSON library that writes the values. A parallel run
executes the phases of a level together; a monitored one logs their progress among its
course. -/
structure RunOptions where
  parallel : Bool := false
  monitor : Bool := false
  retry : RetryPolicy := {}
  writer : Json.Writer := {}

instance : Inhabited RunOptions :=
  ⟨{}⟩

/-- The severity of the progress of a phase. -/
def RunOptions.progress (options : RunOptions) : Log.Level :=
  if options.monitor then .info else .debug

/-- The record of one completed phase, with the milliseconds it took. -/
structure PhaseRecord where
  attempts : Nat
  duration : Nat
  completedAt : Instant

/-- How a run ended that returned. -/
inductive RunStatus where
  | success
  | partialFailure
  deriving DecidableEq

/-- The name of a status. -/
def RunStatus.name : RunStatus → String
  | success => "success"
  | partialFailure => "partial_failure"

/-- What a run returns: the completed nodes in the order of their completion, those
whose failure was tolerated with their errors, all outputs, and the output of the node
completed last, which is null if there is none. -/
structure RunResult where
  completed : List String
  failed : List String
  errors : KeyMap String
  flow : Run.DataFlow
  finalOutput : Json
  status : RunStatus
  records : KeyMap PhaseRecord
  order : List String
  levels : List (List String)
  elapsed : Nat

namespace RunResult

/-- Whether the run was a success. -/
def isSuccess (result : RunResult) : Bool :=
  result.status = .success

/-- The name of the status of a run. -/
def statusName (result : RunResult) : String :=
  result.status.name

/-- The record of a phase as a JSON object. -/
def recordJson (record : PhaseRecord) : Json :=
  .object [("attempts", .int record.attempts),
    ("duration_ms", .float (.ofNat record.duration)),
    ("completed_at", .int record.completedAt.toMilliseconds.toInt)]

/-- The result as a JSON object. -/
def toJson (result : RunResult) : Json :=
  .object [("status", .str result.statusName), ("completed", Json.texts result.completed),
    ("failed", Json.texts result.failed), ("errors", Json.ofMap result.errors .str),
    ("final_output", result.finalOutput), ("execution_order", Json.texts result.order),
    ("levels", .arr (result.levels.map Json.texts)),
    ("total_execution_time_ms", .float (.ofNat result.elapsed)),
    ("data_flow", Json.ofMap result.flow id),
      ("phases", Json.ofMap result.records recordJson)]

end RunResult

end PhaseFlow
