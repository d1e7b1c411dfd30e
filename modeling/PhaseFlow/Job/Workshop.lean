import PhaseFlow.Job.Control

/-!
# Jobs at work

Every job that is started gets a worker of its own. A worker tells the callbacks of the
running state, executes the phase, publishes how it ended, tells the callbacks of the
final state, and ends. The workshop holds the jobs, their workers and a clock in
milliseconds, and lets everything happen at the moment at which it is due: before a
request is answered, all that is due has happened.

* `Workshop.step` lets the next moment happen.
* `Workshop.request` serves a request from outside; a request that has to join a worker
  lets time pass until this worker has ended.
* `Workshop.wait` looks at a job again and again until it has ended or the time is up.

A callback is told a snapshot of the job. It may take its time, and it may make one
request about its own job. What it raises reaches nobody.
-/

namespace PhaseFlow

/-! ## Callbacks -/

/-- A callback that is told when a job enters a state. It pauses for some milliseconds
first, and may make a request about the job whose name it is told; its notices are kept
under its label. -/
structure StateCallback where
  state : JobState
  label : String
  pause : Nat := 0
  request : Option (String → JobRequest) := none

/-- That the callback of a label was told, and the answer to the request that it made,
if any. -/
structure Notice where
  label : String
  status : JobStatus
  answer : Option (Result JobAnswer) := none

/-! ## Workers -/

/-- What a worker is busy with since a point of time: it begins; it tells a snapshot to
the callbacks that are left; it waits for the request that a callback has made; or it
executes its phase, which may have been cancelled before. -/
inductive Activity where
  | starting
  | telling (status : JobStatus) (callbacks : List StateCallback)
  | asking
      (label : String)
      (status : JobStatus)
      (move : JobMove)
      (callbacks : List StateCallback)
  | executing (cancelled : Bool)

/-- The worker of a job, by its number, and since when it is busy with its activity. -/
structure Worker where
  serial : Nat
  name : String
  spec : JobSpec
  since : Nat
  activity : Activity := .starting

/-- That an executor was invoked for a job. -/
structure Invoked where
  job : String
  executor : String
  deriving DecidableEq

/-- One invocation by a worker. -/
def Worker.invoked (worker : Worker) : Invoked :=
  ⟨worker.name, worker.spec.executor.name⟩

/-- The jobs of a process with everything that is under way, and the JSON library that
writes the values. Callbacks are listed in the order of their registration, workers that
have not ended in the order of their start; `invoked` are the invocations of the phases
that have ended. -/
structure Workshop where
  defaults : RetryPolicy
  jobs : Jobs := .empty
  callbacks : List StateCallback := []
  workers : List Worker := []
  notices : List Notice := []
  invoked : List Invoked := []
  now : Nat := 0
  writer : Json.Writer := {}

namespace Workshop

/-- A workshop without jobs. -/
def ofDefaults (defaults : RetryPolicy) : Workshop :=
  { defaults := defaults }

/-- The workshop with one more callback, refused if it is empty. -/
def register (shop : Workshop) : Option StateCallback → Result Workshop
  | some callback => .ok { shop with callbacks := shop.callbacks ++ [callback] }
  | none => refuse .emptyCallback

/-- The callbacks of a state. -/
def callbacksFor (shop : Workshop) (state : JobState) : List StateCallback :=
  shop.callbacks.filter fun callback => callback.state = state

/-- Whether the worker of a number has ended, or there is none to wait for. -/
def hasEnded (shop : Workshop) : Option Nat → Bool
  | some serial => shop.workers.all fun worker => worker.serial ≠ serial
  | none => true

/-! ## What is due -/

/-- When the job of a worker was asked to stop. -/
def stopRequestedAt (shop : Workshop) (worker : Worker) : Option Nat :=
  (shop.jobs.get? worker.name).bind fun job =>
    if job.serial = worker.serial then job.stopRequestedAt else none

/-- The course of the phase that a worker executes, as far as can be told now. -/
def courseOf (shop : Workshop) (worker : Worker) (cancelled : Bool) : JobCourse :=
  worker.spec.course worker.name shop.defaults
    ⟨cancelled, shop.stopRequestedAt worker⟩ worker.since shop.writer

/-- When the activity of a worker ends, if nothing else happens before. -/
def dueAt (shop : Workshop) (worker : Worker) : Option Nat :=
  match worker.activity with
  | .starting => some worker.since
  | .telling _ [] => some worker.since
  | .telling _ (callback :: _) => some (worker.since + callback.pause)
  | .asking _ _ move _ => if shop.hasEnded move.after then some worker.since else none
  | .executing cancelled => some (shop.courseOf worker cancelled).finish

/-- Whether a worker has something to do now. -/
def isDue (shop : Workshop) (worker : Worker) : Bool :=
  (shop.dueAt worker).any fun time => time ≤ shop.now

/-- The times at which a worker has invoked its executor, or will. -/
def invocationTimes (shop : Workshop) (worker : Worker) : List Nat :=
  match worker.activity with
  | .executing cancelled => (shop.courseOf worker cancelled).invocations
  | _ => []

/-- The moments that a worker looks forward to. -/
def momentsOf (shop : Workshop) (worker : Worker) : List Nat :=
  ((shop.dueAt worker).map (max shop.now)).toList ++
    (shop.invocationTimes worker).filter fun time => shop.now < time

/-- The next moment at which something happens. -/
def moment? (shop : Workshop) : Option Nat :=
  (shop.workers.flatMap shop.momentsOf).min?

/-- All invocations so far, by the phases that have ended first. -/
def invocations (shop : Workshop) : List Invoked :=
  shop.invoked ++ shop.workers.flatMap fun worker =>
    ((shop.invocationTimes worker).filter fun time => time ≤ shop.now).map fun _ =>
      worker.invoked

/-! ## What happens -/

/-- The workshop with a worker busy with something else from now on. -/
def busy (shop : Workshop) (worker : Worker) (activity : Activity) : Workshop :=
  let changed := { worker with since := shop.now, activity := activity }
  { shop with
    workers := shop.workers.map fun other =>
      if other.serial = worker.serial then changed else other }

/-- The workshop after a worker has ended. -/
def dismiss (shop : Workshop) (worker : Worker) : Workshop :=
  { shop with workers := shop.workers.filter fun other => other.serial ≠ worker.serial }

/-- One move of a request; the job that it starts gets a worker. -/
def serve
    (shop : Workshop)
    (caller : Caller)
    (request : JobRequest) :
    Workshop × JobMove :=
  let (jobs, move) := shop.jobs.serve caller shop.now request
  let hired :=
    (jobs.get? request.name).toList.filter fun job => shop.jobs.issued ≤ job.serial
  ({ shop with
      jobs := jobs
      workers := shop.workers ++ hired.map fun job =>
        { serial := job.serial, name := request.name, spec := job.spec, since :=
          shop.now } },
    move)

/-- The workshop with one more notice. -/
def note (shop : Workshop) (notice : Notice) : Workshop :=
  { shop with notices := shop.notices ++ [notice] }

/-- A worker has told its snapshot to all callbacks. -/
def finishTelling
    (shop : Workshop)
    (worker : Worker)
    (status : JobStatus) :
    Workshop :=
  if status.state.isTerminal then shop.dismiss worker
  else shop.busy worker (.executing (shop.stopRequestedAt worker).isSome)

/-- A worker tells its snapshot to a callback. -/
def tell
    (shop : Workshop)
    (worker : Worker)
    (status : JobStatus)
    (callback : StateCallback)
    (callbacks : List StateCallback) :
    Workshop :=
  match callback.request with
  | none =>
      (shop.note ⟨callback.label, status, none⟩).busy worker
        (.telling status callbacks)
  | some request =>
      let (shop, move) := shop.serve (.worker worker.serial) (request status.name)
      shop.busy worker (.asking callback.label status move callbacks)

/-- The request of a callback goes on. -/
def goOn
    (shop : Workshop)
    (worker : Worker)
    (label : String)
    (status : JobStatus)
    (move : JobMove)
    (callbacks : List StateCallback) :
    Workshop :=
  match move with
  | .answer _ answer =>
      (shop.note ⟨label, status, some answer⟩).busy worker (.telling status callbacks)
  | .proceed _ request =>
      let (shop, move) := shop.serve (.worker worker.serial) request
      shop.busy worker (.asking label status move callbacks)

/-- A worker has executed its phase, and publishes how it ended. -/
def publish (shop : Workshop) (worker : Worker) (cancelled : Bool) : Workshop :=
  let course := shop.courseOf worker cancelled
  let jobs := shop.jobs.publish worker.serial worker.name course.outcome shop.now
  let shop :=
    { shop with
      jobs := jobs
      invoked := shop.invoked ++ course.invocations.map fun _ => worker.invoked }
  match jobs.status worker.name with
  | some status => shop.busy worker (.telling status (shop.callbacksFor status.state))
  | none => shop.dismiss worker

/-- A worker does what is due. -/
def act (shop : Workshop) (worker : Worker) : Workshop :=
  match worker.activity with
  | .starting =>
      match shop.jobs.status worker.name with
      | some status => shop.busy worker (.telling status (shop.callbacksFor status.state))
      | none => shop.dismiss worker
  | .telling status [] => shop.finishTelling worker status
  | .telling status (callback :: callbacks) => shop.tell worker status callback callbacks
  | .asking label status move callbacks => shop.goOn worker label status move callbacks
  | .executing cancelled => shop.publish worker cancelled

/-- The workshop at the next moment, unless this comes after the time is up. -/
def step (shop : Workshop) (deadline : Option Nat) : Option Workshop :=
  match shop.moment? with
  | none => none
  | some time =>
      if deadline.any fun limit => limit < time then none
      else
        let shop := { shop with now := time }
        match shop.workers.find? shop.isDue with
        | some worker => some (shop.act worker)
        | none => some shop

/-- The workshop once a condition holds, or nothing more happens in time, or the number
of steps is used up. -/
def stepUntil
    (condition : Workshop → Bool)
    (deadline : Option Nat) :
    Nat → Workshop → Workshop
  | 0, shop => shop
  | steps + 1, shop =>
      if condition shop then shop
      else
        match shop.step deadline with
        | some shop => stepUntil condition deadline steps shop
        | none => shop

/-- The number of steps that one request may take. -/
def stepLimit : Nat :=
  100000

/-- The workshop once a condition holds, or nothing more happens before the deadline. -/
def runUntil
    (shop : Workshop)
    (condition : Workshop → Bool)
    (deadline : Option Nat) :
    Workshop :=
  stepUntil condition deadline stepLimit shop

/-- The workshop at a later time. -/
def advanceTo (shop : Workshop) (time : Nat) : Workshop :=
  let shop := shop.runUntil (fun _ => false) (some time)
  { shop with now := max shop.now time }

/-- The workshop after all that is due now. -/
def settle (shop : Workshop) : Workshop :=
  shop.advanceTo shop.now

/-! ## From outside -/

/-- The rest of a request from outside, of which so many moves may follow; no answer if
they do not suffice. -/
def conclude : Nat → Workshop → JobMove → Workshop × Option (Result JobAnswer)
  | 0, shop, _ => (shop, none)
  | moves + 1, shop, move =>
      let shop := (shop.runUntil (fun shop => shop.hasEnded move.after) none).settle
      match move with
      | .answer _ answer => (shop, some answer)
      | .proceed _ request =>
          let (shop, move) := shop.serve .outside request
          conclude moves shop move

/-- The number of moves that a request from outside may take. -/
def moveLimit : Nat :=
  1000

/-- **A request from outside.** -/
def request
    (shop : Workshop)
    (request : JobRequest) :
    Workshop × Option (Result JobAnswer) :=
  let (shop, move) := shop.settle.serve .outside request
  conclude moveLimit shop move

/-- All jobs are stopped, one after the other by ascending name. -/
def stopAll (shop : Workshop) : Workshop :=
  shop.jobs.jobs.keys.foldl (fun shop name => (shop.request (.stop name)).1) shop

/-- The workshop after a health check, and whether there is a job of the name. -/
def recordHealth
    (shop : Workshop)
    (name : String)
    (entry : HealthRecord) :
    Workshop × Bool :=
  let (jobs, found) := shop.jobs.recordHealth name entry
  ({ shop with jobs := jobs }, found)

/-! ## Waiting -/

/-- What came of waiting for a job. -/
inductive WaitOutcome where
  | ended (state : JobState)
  | timeout
  | notFound
  deriving DecidableEq

/-- The name of what came of waiting. -/
def WaitOutcome.name : WaitOutcome → String
  | ended .completed => "completed"
  | ended .failed => "failed"
  | ended .stopped => "stopped"
  | ended .running => "unknown"
  | timeout => "timeout"
  | notFound => "not_found"

/-- The milliseconds between two looks at a job. -/
def pollInterval : Nat :=
  50

/-- Looks at a job until it has ended or the time is up, at most so many times. -/
def poll
    (name : String)
    (deadline : Nat) :
    Nat → Workshop → Workshop × WaitOutcome
  | 0, shop => (shop, .timeout)
  | looks + 1, shop =>
      match shop.jobs.get? name with
      | none => (shop, .notFound)
      | some job =>
          if job.state.isTerminal then (shop, .ended job.state)
          else if deadline ≤ shop.now then (shop, .timeout)
          else poll name deadline looks
            (shop.advanceTo (min deadline (shop.now + pollInterval)))

/-- Waits for a job for some milliseconds, as the clock counts them. -/
def wait
    (shop : Workshop)
    (name : String)
    (timeout : Nat) :
    Workshop × WaitOutcome :=
  let span := Clock.span timeout
  poll name (shop.now + span) (span / pollInterval + 2) shop.settle

end Workshop

end PhaseFlow
