import PhaseFlow.Job.Control
import PhaseFlow.Proofs.Phase.Script

/-!
# Steps on the jobs of a process

The jobs change in indivisible steps only: one move of a request, the publication of an
end, one health check. `Transaction` are these steps, and `Jobs.after` is what any
number of them make of the jobs, whoever takes them and in whatever order.

* `Served` says once what a move of a request can do and how the request goes on
  (`served_serve`).
* `Change` says what a step can make of the job of one name (`change_perform`). All
  invariants of jobs follow from it.
-/

namespace PhaseFlow

/-! ## Ends of phases -/

/-- How a phase can end: one that completes has used an attempt and puts out a value. -/
structure Ending where
  outcome : Except Failure Completion
  output_ne_null : ∀ {done}, outcome = .ok done → done.output ≠ .null
  attempts_pos : ∀ {done}, outcome = .ok done → 1 ≤ done.attempts

namespace Execution

/-- A phase that completes has used an attempt. -/
theorem attempts_pos_of_run
    {invocation : Invocation} {defaults : RetryPolicy} {signal : Signal}
    {start : Nat} {execution : Execution}
    (hrun : run invocation defaults signal start = .ok execution)
    {done : Completion}
    (hdone : execution.outcome = .ok done) :
    1 ≤ done.attempts := by
  obtain ⟨policy, -, -, rfl⟩ := run_eq_ok_iff.1 hrun
  let script : Script := ⟨invocation, policy, signal, start⟩
  have houtcome : (script.courseFrom policy.retries 0 {}).outcome = .ok done := hdone
  cases hretries : policy.retries with
  | zero =>
      rw [hretries] at houtcome
      cases houtcome
  | succ remaining =>
      rw [hretries] at houtcome
      cases hseen : signal.seenAt start with
      | true =>
          rw [script.courseFrom_of_seen remaining hseen] at houtcome
          cases houtcome
      | false =>
          obtain ⟨count, hfollows⟩ :=
            script.follows_courseFrom {} ((Nat.zero_add _).trans hretries.symm) hseen
          have hends := hfollows.ends
          rw [answered, houtcome] at hends
          -- Only an attempt that returns a value lets the phase complete.
          cases hends
          exact hfollows.lt

end Execution

/-- How a job ends that executes its phase. -/
def JobSpec.ending
    (spec : JobSpec)
    (name : String)
    (defaults : RetryPolicy)
    (signal : Signal)
    (start : Nat)
    (writer : Json.Writer := {}) :
    Ending where
  outcome := (spec.course name defaults signal start writer).outcome
  output_ne_null {done} h := by
    unfold course at h
    split at h
    · next execution hrun => exact Execution.output_ne_null_of_run hrun done h
    · cases h
  attempts_pos {done} h := by
    unfold course at h
    split at h
    · next execution hrun => exact Execution.attempts_pos_of_run hrun h
    · cases h

/-! ## Moves of requests -/

/-- Whether a request begins by asking a running job to stop. -/
def JobRequest.stops : JobRequest → Bool
  | stop _ | restart _ => true
  | run _ _ | resume _ | status _ => false

/-- Whether a request starts a job when it is carried out. -/
def JobRequest.starts : JobRequest → Bool
  | run _ _ | resume _ => true
  | stop _ | restart _ | status _ => false

/-- Whether a request is answered that it was carried out. -/
def JobMove.accepts : JobMove → Bool
  | answer _ (.ok (.acted found)) => found
  | _ => false

/-- The worker that a caller joins in order to stop or replace a job. -/
def Caller.joins (caller : Caller) (job : Job) : Option Nat :=
  if job.joinable && !caller.owns job then some job.serial else none

/-- The job after a caller has asked it to stop. -/
def Job.asked (job : Job) (caller : Caller) (time : Nat) : Job :=
  if (caller.joins job).isSome then (job.requestStop time).beginJoin
  else job.requestStop time

theorem Job.isRunning_iff
    {job : Job} :
    job.isRunning = true ↔ job.state = .running :=
  decide_eq_true_iff

theorem Job.isRunning_eq_false_iff
    {job : Job} :
    job.isRunning = false ↔ job.state ≠ .running :=
  decide_eq_false_iff_not

theorem Caller.joins_of_joinable
    {caller : Caller} {job : Job}
    (hjoinable : job.joinable = true)
    (howns : caller.owns job = false) :
    caller.joins job = some job.serial := by
  simp [joins, hjoinable, howns]

/-- A caller joins the worker of a job unless it is this worker, or somebody joins it
already. -/
theorem Caller.joins_eq_some_iff
    {caller : Caller} {job : Job} {serial : Nat} :
    caller.joins job = some serial ↔
      job.joinable = true ∧ caller ≠ .worker job.serial ∧ job.serial = serial := by
  unfold joins owns
  cases job.joinable <;> by_cases howns : caller = .worker job.serial <;> simp [howns]

namespace Jobs

theorem contains_eq
    (jobs : Jobs)
    (name : String) :
    jobs.contains name = (jobs.get? name).isSome :=
  rfl

/-- The health history under a name. -/
def healthOf (jobs : Jobs) (name : String) : List HealthRecord :=
  ((jobs.get? name).map fun job => job.health).getD []

/-- The job of one name is a given one now, and nothing else has changed. -/
structure Puts
    (jobs : Jobs)
    (name : String)
    (job : Job)
    (next : Jobs) : Prop where
  get? : ∀ other, next.get? other = if name = other then some job else jobs.get? other
  issued : next.issued = jobs.issued

theorem puts_modify
    {jobs : Jobs} {name : String} {job : Job}
    (h : jobs.get? name = some job)
    (change : Job → Job) :
    Puts jobs name (change job) (jobs.modify name change) where
  get? other := by rw [get?_modify, h, Option.map_some]
  issued := rfl

theorem Puts.modify
    {jobs next : Jobs} {name : String} {job : Job}
    (h : Puts jobs name job next)
    (change : Job → Job) :
    Puts jobs name (change job) (next.modify name change) where
  get? other := by
    rw [get?_modify, h.get? name, if_pos rfl, Option.map_some, h.get? other]
    split <;> rfl
  issued := h.issued

theorem Puts.get?_self
    {jobs next : Jobs} {name : String} {job : Job}
    (h : Puts jobs name job next) :
    next.get? name = some job := by
  rw [h.get?, if_pos rfl]

/-- The jobs of other names are as before. -/
theorem Puts.get?_of_ne
    {jobs next : Jobs} {name other : String} {job : Job}
    (h : Puts jobs name job next)
    (hne : name ≠ other) :
    next.get? other = jobs.get? other := by
  rw [h.get?, if_neg hne]

/-- The worker of a job ends it. -/
theorem puts_publish
    {jobs : Jobs} {name : String} {job : Job}
    (h : jobs.get? name = some job)
    (hrunning : job.isRunning = true)
    (outcome : Except Failure Completion)
    (time : Nat) :
    Puts jobs name (job.publish outcome time)
      (jobs.publish job.serial name outcome time) := by
  have hput := puts_modify h fun found =>
    if found.serial = job.serial && found.isRunning then found.publish outcome time
      else found
  rwa [if_pos (by simp [hrunning])] at hput

/-- A job that is started is running, with a number of its own and no result. -/
theorem get?_start_self
    (jobs : Jobs)
    (name : String)
    (spec : JobSpec)
    (restartCount : Nat)
    (health : List HealthRecord) :
    (jobs.start name spec restartCount health).get? name =
      some
        { serial := jobs.issued
          spec := spec
          restartCount := restartCount
          health := health } := by
  rw [get?_start, if_pos rfl]

theorem get?_start_of_ne
    (jobs : Jobs)
    {name other : String}
    (hne : name ≠ other)
    (spec : JobSpec)
    (restartCount : Nat)
    (health : List HealthRecord) :
    (jobs.start name spec restartCount health).get? other = jobs.get? other := by
  rw [get?_start, if_neg hne]

/-- What one move of a request can do to the jobs, and how the request goes on. -/
inductive Served
    (jobs : Jobs)
    (caller : Caller)
    (time : Nat) :
    JobRequest → Jobs → JobMove → Prop
  | refused
      {request : JobRequest} {answer : Result JobAnswer}
      (hstops : request.stops = true → jobs.get? request.name = none)
      (hfails : request.starts = true → ∃ error, answer = .error error)
      (hanswer : JobMove.accepts (.answer none answer) = false) :
      Served jobs caller time request jobs (.answer none answer)
  | stopped
      {name : String} {job : Job} {next : Jobs}
      (hfound : jobs.get? name = some job)
      (hnext : Puts jobs name (job.asked caller time) next) :
      Served jobs caller time (.stop name) next
        (.answer (caller.joins job) (.ok (.acted true)))
  | restarting
      {name : String} {job : Job} {next : Jobs}
      (hfound : jobs.get? name = some job)
      (hnext : Puts jobs name (job.asked caller time) next) :
      Served jobs caller time (.restart name) next
        (.proceed (caller.joins job) (.resume name))
  | joined
      {request : JobRequest} {job : Job} {next : Jobs}
      (hstarts : request.starts = true)
      (hfound : jobs.get? request.name = some job)
      (hended : job.isRunning = false)
      (hjoins : caller.joins job = some job.serial)
      (hnext : Puts jobs request.name job.beginJoin next) :
      Served jobs caller time request next (.proceed (some job.serial) request)
  | ran
      {name : String} {spec : JobSpec}
      (hname : name ≠ "")
      (hfree :
          ∀ job,
            jobs.get? name = some job → job.isRunning = false ∧ job.joinable = false) :
      Served jobs caller time (.run name spec)
        (jobs.start name spec 0 (jobs.healthOf name)) .done
  | resumed
      {name : String} {job : Job}
      (hfound : jobs.get? name = some job)
      (hended : job.isRunning = false)
      (hfree : job.joinable = false) :
      Served jobs caller time (.resume name)
        (jobs.start name job.spec (job.restartCount + 1) job.health) .done

/-- A request to run a job starts it, or is refused. -/
theorem served_run
    (jobs : Jobs)
    (caller : Caller)
    (time : Nat)
    (name : String)
    (spec : JobSpec) :
    Served jobs caller time (.run name spec) (jobs.run caller name spec).1
      (jobs.run caller name spec).2 := by
  unfold run
  split
  · exact .refused (by simp [JobRequest.stops]) (fun _ => ⟨_, rfl⟩) rfl
  · next hname =>
      cases hfound : jobs.get? name with
      | none =>
          have hran : Served jobs caller time (.run name spec) _ .done :=
            .ran hname (by simp [hfound])
          rwa [healthOf, hfound] at hran
      | some job =>
          dsimp only
          split
          · exact .refused (by simp [JobRequest.stops]) (fun _ => ⟨_, rfl⟩) rfl
          · next hended =>
              have hended : job.isRunning = false := Bool.eq_false_iff.2 hended
              split
              · exact .refused (by simp [JobRequest.stops]) (fun _ => ⟨_, rfl⟩) rfl
              · next howns =>
                  split
                  · next hjoinable =>
                      exact .joined rfl hfound hended
                        (Caller.joins_of_joinable hjoinable (Bool.eq_false_iff.2 howns))
                        (puts_modify hfound Job.beginJoin)
                  · next hjoinable =>
                      have hran : Served jobs caller time (.run name spec) _ .done :=
                        .ran hname (by
                          intro other hother
                          rw [hfound, Option.some.injEq] at hother
                          subst hother
                          exact ⟨hended, Bool.eq_false_iff.2 hjoinable⟩)
                      rwa [healthOf, hfound] at hran

/-- What a request to stop does, whether it comes alone or in order to restart. -/
theorem stop_of_found
    {jobs : Jobs} {name : String} {job : Job}
    (hfound : jobs.get? name = some job)
    (caller : Caller)
    (time : Nat) :
    (jobs.stop caller time name).2 =
      .answer (caller.joins job) (.ok (.acted true)) ∧
    Puts jobs name (job.asked caller time) (jobs.stop caller time name).1 := by
  have hasked := puts_modify hfound fun job => job.requestStop time
  unfold stop Job.asked Caller.joins
  rw [hfound]
  dsimp only
  split
  · exact ⟨rfl, hasked.modify Job.beginJoin⟩
  · exact ⟨rfl, hasked⟩

/-- A request to stop a job asks it to, or is refused. -/
theorem served_stop
    (jobs : Jobs)
    (caller : Caller)
    (time : Nat)
    (name : String) :
    Served jobs caller time (.stop name) (jobs.stop caller time name).1
      (jobs.stop caller time name).2 := by
  cases hfound : jobs.get? name with
  | none =>
      unfold stop
      rw [hfound]
      exact .refused (fun _ => hfound) (by simp [JobRequest.starts]) rfl
  | some job =>
      obtain ⟨hmove, hnext⟩ := stop_of_found hfound caller time
      rw [hmove]
      exact .stopped hfound hnext

/-- What the first move of a request to restart does, and how the request goes on. -/
theorem restart_of_found
    {jobs : Jobs} {name : String} {job : Job}
    (hfound : jobs.get? name = some job)
    (caller : Caller)
    (time : Nat) :
    (jobs.restart caller time name).2 =
      .proceed (caller.joins job) (.resume name) ∧
    Puts jobs name (job.asked caller time) (jobs.restart caller time name).1 := by
  obtain ⟨hmove, hnext⟩ := stop_of_found hfound caller time
  have hafter : (jobs.stop caller time name).2.after = caller.joins job := by
    rw [hmove]
    rfl
  unfold restart
  rw [contains_eq, hfound]
  simp only [Option.isSome_some, if_true, hafter]
  exact ⟨trivial, hnext⟩

/-- The first move of a restart asks the job to stop, and its second move is to come. -/
theorem served_restart
    (jobs : Jobs)
    (caller : Caller)
    (time : Nat)
    (name : String) :
    Served jobs caller time (.restart name) (jobs.restart caller time name).1
      (jobs.restart caller time name).2 := by
  cases hfound : jobs.get? name with
  | none =>
      unfold restart
      rw [contains_eq, hfound]
      exact .refused (fun _ => hfound) (by simp [JobRequest.starts]) rfl
  | some job =>
      obtain ⟨hmove, hnext⟩ := restart_of_found hfound caller time
      rw [hmove]
      exact .restarting hfound hnext

theorem served_resume
    (jobs : Jobs)
    (caller : Caller)
    (time : Nat)
    (name : String) :
    Served jobs caller time (.resume name) (jobs.resume caller name).1
      (jobs.resume caller name).2 := by
  unfold resume
  cases hfound : jobs.get? name with
  | none => exact .refused (by simp [JobRequest.stops]) (fun _ => ⟨_, rfl⟩) rfl
  | some job =>
      dsimp only
      split
      · exact .refused (by simp [JobRequest.stops]) (fun _ => ⟨_, rfl⟩) rfl
      · next hended =>
          have hended : job.isRunning = false := Bool.eq_false_iff.2 hended
          split
          · exact .refused (by simp [JobRequest.stops]) (fun _ => ⟨_, rfl⟩) rfl
          · next howns =>
              split
              · next hjoinable =>
                  exact .joined rfl hfound hended
                    (Caller.joins_of_joinable hjoinable (Bool.eq_false_iff.2 howns))
                    (puts_modify hfound Job.beginJoin)
              · next hjoinable =>
                  exact .resumed hfound hended (Bool.eq_false_iff.2 hjoinable)

/-- **What one move of a request does.** -/
theorem served_serve
    (jobs : Jobs)
    (caller : Caller)
    (time : Nat)
    (request : JobRequest) :
    Served jobs caller time request (jobs.serve caller time request).1
      (jobs.serve caller time request).2 := by
  cases request with
  | run name spec => exact served_run jobs caller time name spec
  | stop name => exact served_stop jobs caller time name
  | restart name => exact served_restart jobs caller time name
  | resume name => exact served_resume jobs caller time name
  | status name =>
      exact .refused (by simp [JobRequest.stops]) (by simp [JobRequest.starts]) rfl

end Jobs

/-! ## Steps -/

/-- An indivisible step on the jobs: a caller makes one move of a request, a worker
publishes how its job has ended, or a health check is recorded. -/
inductive Transaction where
  | serve (caller : Caller) (time : Nat) (request : JobRequest)
  | publish (serial : Nat) (name : String) (ending : Ending) (time : Nat)
  | record (name : String) (entry : HealthRecord)

/-- Whether a step asks the job of a name to stop. -/
def Transaction.asksToStop (name : String) : Transaction → Bool
  | serve _ _ request => request.stops && request.name = name
  | _ => false

/-- What an accepted step enters into the book of a name: a run, a restart, or a health
check. -/
inductive Booking where
  | ran (spec : JobSpec)
  | restarted
  | noted (entry : HealthRecord)

/-- Whether a booking says that a job was started. -/
def Booking.starts : Booking → Bool
  | ran _ | restarted => true
  | noted _ => false

namespace Jobs

/-- The jobs after one step. -/
def perform (jobs : Jobs) : Transaction → Jobs
  | .serve caller time request => (jobs.serve caller time request).1
  | .publish serial name ending time => jobs.publish serial name ending.outcome time
  | .record name entry => (jobs.recordHealth name entry).1

/-- The jobs after any number of steps. -/
def after (jobs : Jobs) (history : List Transaction) : Jobs :=
  history.foldl perform jobs

theorem after_append
    (jobs : Jobs)
    (before later : List Transaction) :
    jobs.after (before ++ later) = (jobs.after before).after later :=
  List.foldl_append

theorem after_snoc
    (jobs : Jobs)
    (before : List Transaction)
    (step : Transaction) :
    jobs.after (before ++ [step]) = (jobs.after before).perform step := by
  rw [after_append]
  rfl

/-- What a step enters into the book of a name. A restart that is carried out ends with
an accepted `resume`. -/
def booked (jobs : Jobs) (name : String) : Transaction → Option Booking
  | .serve caller time (.run other spec) =>
      if other = name ∧ (jobs.serve caller time (.run other spec)).2.accepts = true then
        some (.ran spec)
      else none
  | .serve caller time (.resume other) =>
      if other = name ∧ (jobs.serve caller time (.resume other)).2.accepts = true then
        some .restarted
      else none
  | .record other entry =>
      if other = name ∧ (jobs.recordHealth other entry).2 = true then some
        (.noted entry) else none
  | _ => none

/-- What a step can make of the job of a name, and what it enters into the book of the
name. -/
inductive Change
    (jobs : Jobs)
    (name : String) :
    Transaction → Option Booking → Option Job → Prop
  | kept
      {step : Transaction}
      (h :
          step.asksToStop name = true →
          ∀ job, jobs.get? name = some job → job.isRunning = false) :
      Change jobs name step none (jobs.get? name)
  | asked
      {caller : Caller} {time : Nat} {request : JobRequest} {job : Job}
      (hstops : request.stops = true)
      (hname : request.name = name)
      (hfound : jobs.get? name = some job) :
      Change jobs name (.serve caller time request) none
        (some (job.asked caller time))
  | joined
      {caller : Caller} {time : Nat} {request : JobRequest} {job : Job}
      (hstarts : request.starts = true)
      (hfound : jobs.get? name = some job)
      (hended : job.isRunning = false) :
      Change jobs name (.serve caller time request) none (some job.beginJoin)
  | ran
      {caller : Caller} {time : Nat} {spec : JobSpec}
      (hfree :
          ∀ job,
            jobs.get? name = some job → job.isRunning = false ∧ job.joinable = false) :
      Change jobs name (.serve caller time (.run name spec)) (some (.ran spec))
        (some { serial := jobs.issued, spec := spec, health := jobs.healthOf name })
  | resumed
      {caller : Caller} {time : Nat} {job : Job}
      (hfound : jobs.get? name = some job)
      (hended : job.isRunning = false)
      (hfree : job.joinable = false) :
      Change jobs name (.serve caller time (.resume name)) (some .restarted)
        (some
          { serial := jobs.issued
            spec := job.spec
            restartCount := job.restartCount + 1
            health := job.health })
  | published
      {serial : Nat} {ending : Ending} {time : Nat} {job : Job}
      (hfound : jobs.get? name = some job)
      (hserial : job.serial = serial)
      (hrunning : job.isRunning = true) :
      Change jobs name (.publish serial name ending time) none
        (some (job.publish ending.outcome time))
  | noted
      {entry : HealthRecord} {job : Job}
      (hfound : jobs.get? name = some job) :
      Change jobs name (.record name entry) (some (.noted entry))
        (some (job.noteHealth entry))

theorem booked_serve_of_ne
    {jobs : Jobs} {name : String} {caller : Caller} {time : Nat}
    {request : JobRequest}
    (h : request.name ≠ name) :
    jobs.booked name (.serve caller time request) = none := by
  cases request with
  | run other spec => exact if_neg fun hboth => h hboth.1
  | resume other => exact if_neg fun hboth => h hboth.1
  | _ => rfl

/-- A move that is not accepted is not entered into any book. -/
theorem booked_serve_of_not_accepts
    {jobs : Jobs} {name : String} {caller : Caller} {time : Nat}
    {request : JobRequest}
    (h : (jobs.serve caller time request).2.accepts = false) :
    jobs.booked name (.serve caller time request) = none := by
  cases request with
  | run other spec => exact if_neg fun hboth => Bool.eq_false_iff.1 h hboth.2
  | resume other => exact if_neg fun hboth => Bool.eq_false_iff.1 h hboth.2
  | _ => rfl

/-- A move of a request about another name changes nothing here. -/
theorem Served.get?_of_ne
    {jobs next : Jobs} {caller : Caller} {time : Nat} {request : JobRequest}
    {move : JobMove}
    (h : Served jobs caller time request next move)
    {name : String}
    (hne : request.name ≠ name) :
    next.get? name = jobs.get? name := by
  cases h with
  | refused => rfl
  | stopped hfound hnext => exact hnext.get?_of_ne hne
  | restarting hfound hnext => exact hnext.get?_of_ne hne
  | joined hstarts hfound hended hjoins hnext => exact hnext.get?_of_ne hne
  | ran hname hfree => exact get?_start_of_ne jobs hne _ _ _
  | resumed hfound hended hfree => exact get?_start_of_ne jobs hne _ _ _

/-- What one move does to the job it is about, case by case. -/
theorem change_of_served
    {jobs next : Jobs} {caller : Caller} {time : Nat} {request : JobRequest}
    {move : JobMove}
    (h : Served jobs caller time request next move)
    (hmove : (jobs.serve caller time request).2 = move) :
    Change jobs request.name (.serve caller time request)
      (jobs.booked request.name (.serve caller time request))
      (next.get? request.name) := by
  cases h with
  | refused hstops hfails hanswer =>
      rw [booked_serve_of_not_accepts (by rw [hmove, hanswer])]
      refine .kept fun hasks job hfound => ?_
      rw [hstops (by simpa [Transaction.asksToStop] using hasks)] at hfound
      cases hfound
  | stopped hfound hnext =>
      rw [JobRequest.name, hnext.get?_self]
      exact .asked rfl rfl hfound
  | restarting hfound hnext =>
      rw [JobRequest.name, hnext.get?_self]
      exact .asked rfl rfl hfound
  | joined hstarts hfound hended hjoins hnext =>
      rw [hnext.get?_self, booked_serve_of_not_accepts (by rw [hmove]; rfl)]
      exact .joined hstarts hfound hended
  | @ran name spec hname hfree =>
      have hbooked :
          jobs.booked name (.serve caller time (.run name spec)) = some (.ran spec) :=
        if_pos ⟨rfl, by rw [hmove]; rfl⟩
      rw [JobRequest.name, get?_start_self, hbooked]
      exact .ran hfree
  | @resumed name job hfound hended hfree =>
      have hbooked :
          jobs.booked name (.serve caller time (.resume name)) = some .restarted :=
        if_pos ⟨rfl, by rw [hmove]; rfl⟩
      rw [JobRequest.name, get?_start_self, hbooked]
      exact .resumed hfound hended hfree

theorem change_serve
    (jobs : Jobs)
    (name : String)
    (caller : Caller)
    (time : Nat)
    (request : JobRequest) :
    Change jobs name (.serve caller time request)
      (jobs.booked name (.serve caller time request))
      ((jobs.serve caller time request).1.get? name) := by
  have hserved := served_serve jobs caller time request
  by_cases hname : request.name = name
  · subst hname
    exact change_of_served hserved rfl
  · rw [hserved.get?_of_ne hname, booked_serve_of_ne hname]
    exact .kept (by simp [Transaction.asksToStop, hname])

/-- A worker publishes the end of its own job only. -/
theorem change_publish
    (jobs : Jobs)
    (name other : String)
    (serial : Nat)
    (ending : Ending)
    (time : Nat) :
    Change jobs name (.publish serial other ending time) none
      ((jobs.publish serial other ending.outcome time).get? name) := by
  have hkept : Change jobs name (.publish serial other ending time) none (jobs.get? name) :=
    .kept (by simp [Transaction.asksToStop])
  rw [publish, get?_modify]
  split
  · next heq =>
      subst heq
      cases hfound : jobs.get? other with
      | none => rwa [hfound] at hkept
      | some job =>
          rw [Option.map_some]
          split
          · next hown =>
              rw [Bool.and_eq_true, decide_eq_true_iff] at hown
              exact .published hfound hown.1 hown.2
          · rwa [hfound] at hkept
  · exact hkept

theorem change_record
    (jobs : Jobs)
    (name other : String)
    (entry : HealthRecord) :
    Change jobs name (.record other entry)
      (jobs.booked name (.record other entry))
      ((jobs.recordHealth other entry).1.get? name) := by
  have hkept : Change jobs name (.record other entry) none (jobs.get? name) :=
    .kept (by simp [Transaction.asksToStop])
  show Change jobs name (.record other entry) (jobs.booked name (.record other entry))
    ((jobs.modify other fun job => job.noteHealth entry).get? name)
  rw [get?_modify, booked]
  by_cases heq : other = name
  · subst heq
    rw [if_pos rfl]
    cases hfound : jobs.get? other with
    | none =>
        rw [if_neg (by simp [recordHealth, contains_eq, hfound])]
        rwa [hfound] at hkept
    | some job =>
        rw [if_pos (by simp [recordHealth, contains_eq, hfound])]
        exact .noted hfound
  · rw [if_neg heq, if_neg fun hboth => heq hboth.1]
    exact hkept

/-- **What a step makes of the job of a name.** -/
theorem change_perform
    (jobs : Jobs)
    (name : String)
    (step : Transaction) :
    Change jobs name step (jobs.booked name step)
      ((jobs.perform step).get? name) := by
  cases step with
  | serve caller time request => exact change_serve jobs name caller time request
  | publish serial other ending time =>
      exact change_publish jobs name other serial ending time
  | record other entry => exact change_record jobs name other entry

end Jobs

end PhaseFlow
