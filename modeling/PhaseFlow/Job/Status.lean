import PhaseFlow.Job.Spec

/-!
# Jobs and their states

A job is running until its worker publishes how it ended; then it is completed, failed
or stopped, and stays so. Beside its state a job records its health, of which the latest
entries are kept.

* `JobRecord` is what anybody may see of a job.
* `Job` adds what the registry needs to control it.
* `JobStatus` is a snapshot under the name of the job.
-/

namespace PhaseFlow

/-- The states of a job. It is running until its worker publishes an end, and stopped if
it was asked to stop while it was running. -/
inductive JobState where
  | running
  | completed
  | failed
  | stopped
  deriving DecidableEq

namespace JobState

/-- The name of a state. -/
def name : JobState → String
  | running => "RUNNING"
  | completed => "COMPLETED"
  | failed => "FAILED"
  | stopped => "STOPPED"

/-- All states. -/
def all : List JobState :=
  [running, completed, failed, stopped]

/-- The state of a name. -/
def ofName? (text : String) : Option JobState :=
  all.find? fun state => state.name = text

@[simp] theorem ofName?_name
    (state : JobState) :
    ofName? state.name = some state := by
  cases state <;> rfl

/-- Whether a job in this state has ended. -/
def isTerminal (state : JobState) : Bool :=
  state ≠ running

end JobState

/-- One entry of the health history of a job. -/
structure HealthRecord where
  healthy : Bool
  detail : String := ""
  deriving DecidableEq

/-- What anybody may see of a job. The restarts are those since it was run, the result
is null and the error empty if there is none, and the health history begins with the
oldest entry. -/
structure JobRecord where
  state : JobState := .running
  finishedAt : Option Nat := none
  restartCount : Nat := 0
  attempts : Nat := 0
  result : Json := .null
  error : String := ""
  health : List HealthRecord := []

namespace JobRecord

/-- The number of entries that a health history keeps. -/
def historyLimit : Nat :=
  100

/-- The latest entries of a history. -/
def latest (history : List HealthRecord) : List HealthRecord :=
  history.drop (history.length - historyLimit)

/-- A history that was cut is no longer than the limit. -/
theorem length_latest_le
    (history : List HealthRecord) :
    (latest history).length ≤ historyLimit := by
  simp only [latest, List.length_drop]
  omega

/-- The record after a health check. -/
def noteHealth (record : JobRecord) (entry : HealthRecord) : JobRecord :=
  { record with health := latest (record.health ++ [entry]) }

/-- The record after the phase has ended; it is stopped if it was asked to. -/
def finish
    (record : JobRecord)
    (stopRequested : Bool)
    (outcome : Except Failure Completion)
    (time : Nat) :
    JobRecord :=
  match outcome with
  | .ok done =>
      { record with
        state := if stopRequested then .stopped else .completed
        finishedAt := some time
        attempts := done.attempts
        result := done.output }
  | .error failure =>
      { record with
        state := if stopRequested then .stopped else .failed
        finishedAt := some time
        attempts := failure.attempts
        error := failure.lastError }

end JobRecord

/-- A job under control. No two workers have one number. The time is that at which the
job was first asked to stop while it was running, and whoever joins its worker makes it
not joinable. -/
structure Job extends JobRecord where
  serial : Nat
  spec : JobSpec
  stopRequestedAt : Option Nat := none
  joinable : Bool := true

namespace Job

/-- Whether a job is running. -/
def isRunning (job : Job) : Bool :=
  job.state = .running

/-- The job after a request to stop, which has no effect on a job that has ended. -/
def requestStop (job : Job) (time : Nat) : Job :=
  if job.isRunning then
    { job with stopRequestedAt := job.stopRequestedAt <|> some time } else job

/-- The job after somebody has begun to join its worker. -/
def beginJoin (job : Job) : Job :=
  { job with joinable := false }

/-- The job after its worker has published an outcome. -/
def publish
    (job : Job)
    (outcome : Except Failure Completion)
    (time : Nat) :
    Job :=
  { job with
    toJobRecord := job.toJobRecord.finish job.stopRequestedAt.isSome outcome time }

/-- The job after a health check. -/
def noteHealth (job : Job) (entry : HealthRecord) : Job :=
  { job with toJobRecord := job.toJobRecord.noteHealth entry }

end Job

/-- A snapshot of a job. -/
structure JobStatus extends JobRecord where
  name : String
  phase : String

/-- The snapshot of a job of some name. -/
def Job.status (job : Job) (name : String) : JobStatus :=
  { toJobRecord := job.toJobRecord, name := name, phase := job.spec.phase }

end PhaseFlow
