import PhaseFlow.Job.Status
import PhaseFlow.KeyMap

/-!
# Controlling jobs by name

The jobs of a process are kept by name. A request is made by somebody outside of the
workers or by a worker itself, from one of its callbacks. It is served in moves, each of
which changes the jobs in one indivisible step; between two moves the caller may have to
join a worker, that is, to wait until this worker has ended.

* `Jobs.run` starts a job, unless one of its name is running. An ended job is joined and
  replaced.
* `Jobs.stop` asks a running job to stop and joins its worker.
* `Jobs.restart` stops a job; then `Jobs.resume` runs it again with what it ran before.
* `Jobs.publish` is the one step of a worker that changes the jobs: it ends its own job.

Nobody joins a worker twice, and a worker does not join itself. A job that ended is
refused to its own worker as long as nobody else has begun to join that worker.
-/

namespace PhaseFlow

/-- The jobs of a process by name, and the number of workers that were started. -/
structure Jobs where
  jobs : KeyMap Job := KeyMap.empty
  issued : Nat := 0

/-- Who makes a request: somebody who is no worker, or the worker of a number. -/
inductive Caller where
  | outside
  | worker (serial : Nat)
  deriving DecidableEq

/-- Whether a job is asked about by its own worker, which nobody has begun to join. -/
def Caller.owns (caller : Caller) (job : Job) : Bool :=
  job.joinable && caller = .worker job.serial

/-- A request about a job. To restart a job is to stop it and to resume it, which runs
it again. -/
inductive JobRequest where
  | run (name : String) (spec : JobSpec)
  | stop (name : String)
  | restart (name : String)
  | resume (name : String)
  | status (name : String)

/-- The name that a request is about. -/
def JobRequest.name : JobRequest → String
  | run name _ | stop name | restart name | resume name | status name => name

/-- The answer to a request: whether there was a job to act on, or the snapshot of a
job, if there is one. -/
inductive JobAnswer where
  | acted (found : Bool)
  | seen (snapshot : Option JobStatus)

/-- How a request goes on after one move: once a worker has ended, it is answered or
makes another move. -/
inductive JobMove where
  | answer (after : Option Nat) (answer : Result JobAnswer)
  | proceed (after : Option Nat) (request : JobRequest)

namespace JobMove

/-- The worker that has to end first. -/
def after : JobMove → Option Nat
  | answer serial _ => serial
  | proceed serial _ => serial

/-- The move of a request that was carried out. -/
def done : JobMove :=
  .answer none (.ok (.acted true))

/-- The move of a request that is refused. -/
def refused (fault : ConfigurationFault) : JobMove :=
  .answer none (refuse fault)

end JobMove

namespace Jobs

/-- No jobs. -/
def empty : Jobs :=
  {}

/-- The job of a name. -/
def get? (jobs : Jobs) (name : String) : Option Job :=
  jobs.jobs.get? name

/-- Whether there is a job of the name. -/
def contains (jobs : Jobs) (name : String) : Bool :=
  jobs.jobs.contains name

/-- The snapshot of the job of a name. -/
def status (jobs : Jobs) (name : String) : Option JobStatus :=
  (jobs.get? name).map fun job => job.status name

/-- The snapshots of all jobs, by ascending name. -/
def list (jobs : Jobs) : List JobStatus :=
  jobs.jobs.entries.map fun entry => entry.2.status entry.1

/-- The jobs with the one of a name changed. -/
def modify (jobs : Jobs) (name : String) (change : Job → Job) : Jobs :=
  { jobs with jobs := jobs.jobs.modify name change }

/-- The jobs with a new one in the place of the one of its name. -/
def start
    (jobs : Jobs)
    (name : String)
    (spec : JobSpec)
    (restartCount : Nat)
    (health : List HealthRecord) :
    Jobs :=
  { jobs := jobs.jobs.insert name
      { serial := jobs.issued, spec := spec, restartCount := restartCount, health := health }
    issued := jobs.issued + 1 }

theorem get?_modify
    (jobs : Jobs)
    (name other : String)
    (change : Job → Job) :
    (jobs.modify name change).get? other =
      if name = other then (jobs.get? name).map change else jobs.get? other :=
  KeyMap.get?_modify jobs.jobs name other change

theorem get?_start
    (jobs : Jobs)
    (name other : String)
    (spec : JobSpec)
    (restartCount : Nat)
    (health : List HealthRecord) :
    (jobs.start name spec restartCount health).get? other =
      if name = other then
        some
          { serial := jobs.issued
            spec := spec
            restartCount := restartCount
            health := health }
      else jobs.get? other :=
  KeyMap.get?_insert jobs.jobs name other _

/-- One move of a request to run a job. -/
def run
    (jobs : Jobs)
    (caller : Caller)
    (name : String)
    (spec : JobSpec) :
    Jobs × JobMove :=
  if name = "" then (jobs, .refused .emptyJobName)
  else
    match jobs.get? name with
    | none => (jobs.start name spec 0 [], .done)
    | some job =>
        if job.isRunning then (jobs, .refused (.jobRunning name))
        else if caller.owns job then (jobs, .refused (.jobReplacedByItself name))
        else if job.joinable then
          (jobs.modify name Job.beginJoin, .proceed (some job.serial) (.run name spec))
        else (jobs.start name spec 0 job.health, .done)

/-- The move of a request to stop a job. -/
def stop
    (jobs : Jobs)
    (caller : Caller)
    (time : Nat)
    (name : String) :
    Jobs × JobMove :=
  match jobs.get? name with
  | none => (jobs, .answer none (.ok (.acted false)))
  | some job =>
      let jobs := jobs.modify name fun job => job.requestStop time
      if job.joinable && !caller.owns job then
        (jobs.modify name Job.beginJoin, .answer (some job.serial) (.ok (.acted true)))
      else (jobs, .done)

/-- The first move of a request to restart a job. -/
def restart
    (jobs : Jobs)
    (caller : Caller)
    (time : Nat)
    (name : String) :
    Jobs × JobMove :=
  if jobs.contains name then
    let (jobs, move) := jobs.stop caller time name
    (jobs, .proceed move.after (.resume name))
  else (jobs, .answer none (.error (.unknownJob "restart-job" name)))

/-- A further move of a request to restart a job. -/
def resume (jobs : Jobs) (caller : Caller) (name : String) : Jobs × JobMove :=
  match jobs.get? name with
  | none => (jobs, .answer none (.error (.unknownJob "restart-job" name)))
  | some job =>
      if job.isRunning then (jobs, .refused (.jobStartedConcurrently name))
      else if caller.owns job then (jobs, .refused (.jobRestartedByItself name))
      else if job.joinable then
        (jobs.modify name Job.beginJoin, .proceed (some job.serial) (.resume name))
      else (jobs.start name job.spec (job.restartCount + 1) job.health, .done)

/-- **One move of a request** at some time. -/
def serve
    (jobs : Jobs)
    (caller : Caller)
    (time : Nat) :
    JobRequest → Jobs × JobMove
  | .run name spec => jobs.run caller name spec
  | .stop name => jobs.stop caller time name
  | .restart name => jobs.restart caller time name
  | .resume name => jobs.resume caller name
  | .status name => (jobs, .answer none (.ok (.seen (jobs.status name))))

/-- The jobs after the worker of a number has ended the job of its name. -/
def publish
    (jobs : Jobs)
    (serial : Nat)
    (name : String)
    (outcome : Except Failure Completion)
    (time : Nat) :
    Jobs :=
  jobs.modify name fun job =>
    if job.serial = serial && job.isRunning then job.publish outcome time else job

/-- The jobs after a health check of a name, and whether there is a job of that name. -/
def recordHealth
    (jobs : Jobs)
    (name : String)
    (entry : HealthRecord) :
    Jobs × Bool :=
  (jobs.modify name fun job => job.noteHealth entry, jobs.contains name)

end Jobs

end PhaseFlow
