import PhaseFlow.Proofs.Job.Lifecycle

/-!
# Calls that are refused

A call is served in moves, and others take their steps between them (`Jobs.Call`). All
that a refused call to run a job may have done is to begin to join workers that have
ended, and no job is any different for it (`Jobs.Alike`). A restart that is refused has
asked the job to stop by then, which makes a difference if the job was running and
nobody had asked it before (`Jobs.Interrupts`), and only then: `Served.alike_iff` is
this for one move and `Call.alike_iff` for a call.

The worker of a running job cannot join itself. So when it restarts the job from a
callback, the job is running still at the second move, and the restart is refused; but
the job has been asked to stop and ends stopped.

Main statement: `refused_calls_leave_jobs_alone_iff`.
-/

namespace PhaseFlow

/-! ## Jobs that are left alone -/

namespace Job

/-- The job is as it was, but for who may join its worker. -/
structure Untouched (job next : Job) : Prop where
  record : next.toJobRecord = job.toJobRecord
  serial : next.serial = job.serial
  spec : next.spec = job.spec
  stopRequestedAt : next.stopRequestedAt = job.stopRequestedAt

theorem Untouched.refl (job : Job) : Untouched job job :=
  ⟨rfl, rfl, rfl, rfl⟩

theorem untouched_beginJoin (job : Job) : Untouched job job.beginJoin :=
  ⟨rfl, rfl, rfl, rfl⟩

/-- A request to stop makes a difference the first time that it reaches a running
job. -/
theorem untouched_asked_iff
    {job : Job} {caller : Caller} {time : Nat} :
    Untouched job (job.asked caller time) ↔
      ¬ (job.state = .running ∧ job.stopRequestedAt = none) := by
  have hrest : Untouched job (job.asked caller time) ↔
      (job.requestStop time).stopRequestedAt = job.stopRequestedAt := by
    rw [← stopRequestedAt_asked]
    exact ⟨fun h => h.stopRequestedAt, fun h =>
      ⟨toJobRecord_asked job caller time, serial_asked job caller time,
        spec_asked job caller time, h⟩⟩
  rw [hrest, requestStop]
  split
  · next hrunning =>
      rw [isRunning_iff] at hrunning
      cases job.stopRequestedAt <;> simp [hrunning]
  · next hended =>
      rw [isRunning_iff] at hended
      simp [hended]

@[simp] theorem isRunning_asked
    (job : Job)
    (caller : Caller)
    (time : Nat) :
    (job.asked caller time).isRunning = job.isRunning := by
  rw [isRunning, toJobRecord_asked]
  rfl

/-- A job that is left alone ends as it would have ended. -/
theorem Untouched.publish
    {job next : Job}
    (h : Untouched job next)
    (outcome : Except Failure Completion)
    (time : Nat) :
    Untouched (job.publish outcome time) (next.publish outcome time) where
  record := by rw [Job.publish, Job.publish, h.record, h.stopRequestedAt]
  serial := h.serial
  spec := h.spec
  stopRequestedAt := h.stopRequestedAt

theorem Untouched.noteHealth
    {job next : Job}
    (h : Untouched job next)
    (entry : HealthRecord) :
    Untouched (job.noteHealth entry) (next.noteHealth entry) where
  record := by rw [Job.noteHealth, Job.noteHealth, h.record]
  serial := h.serial
  spec := h.spec
  stopRequestedAt := h.stopRequestedAt

end Job

/-- Whether a step is a move of a request. -/
def Transaction.requests : Transaction → Bool
  | serve _ _ _ => true
  | publish _ _ _ _ | record _ _ => false

namespace Jobs

/-- Every job is as it was, but for who may join its worker. -/
def Alike (jobs next : Jobs) : Prop :=
  ∀ name, Option.Rel Job.Untouched (jobs.get? name) (next.get? name)

theorem Alike.refl (jobs : Jobs) : Alike jobs jobs := by
  intro name
  cases jobs.get? name with
  | none => exact .none
  | some job => exact .some (.refl job)

theorem Puts.alike_iff
    {jobs next : Jobs} {name : String} {job changed : Job}
    (h : Puts jobs name changed next)
    (hfound : jobs.get? name = some job) :
    Alike jobs next ↔ Job.Untouched job changed := by
  constructor
  · intro halike
    have hname := halike name
    rw [hfound, h.get?_self] at hname
    cases hname with
    | some huntouched => exact huntouched
  · intro huntouched other
    by_cases hname : name = other
    · subst hname
      rw [hfound, h.get?_self]
      exact .some huntouched
    · rw [h.get?_of_ne hname]
      exact Alike.refl jobs other

theorem Alike.modify
    {jobs next : Jobs}
    (h : Alike jobs next)
    (name : String)
    {change : Job → Job}
    (hchange :
        ∀ {job next},
          Job.Untouched job next → Job.Untouched (change job) (change next)) :
    Alike (jobs.modify name change) (next.modify name change) := by
  intro other
  have hname := h name
  rw [get?_modify, get?_modify]
  split
  · generalize jobs.get? name = job at hname ⊢
    generalize next.get? name = found at hname ⊢
    cases hname with
    | none => exact .none
    | some huntouched => exact .some (hchange huntouched)
  · exact h other

theorem Alike.perform
    {jobs next : Jobs}
    (h : Alike jobs next)
    {step : Transaction}
    (hstep : step.requests = false) :
    Alike (jobs.perform step) (next.perform step) := by
  cases step with
  | serve caller time request => cases hstep
  | publish serial name ending time =>
      refine h.modify name fun {job next} huntouched => ?_
      have hrunning : next.isRunning = job.isRunning := by
        rw [Job.isRunning, Job.isRunning, huntouched.record]
      rw [huntouched.serial, hrunning]
      split
      · exact huntouched.publish ending.outcome time
      · exact huntouched
  | record name entry => exact h.modify name fun huntouched => huntouched.noteHealth entry

/-- **What is alike stays alike** until somebody makes a request. -/
theorem Alike.after
    {jobs next : Jobs}
    (h : Alike jobs next)
    {later : List Transaction}
    (hlater : ∀ step ∈ later, step.requests = false) :
    Alike (jobs.after later) (next.after later) := by
  induction later generalizing jobs next with
  | nil => exact h
  | cons step rest ih =>
      rw [List.forall_mem_cons] at hlater
      exact ih (h.perform hlater.1) hlater.2

/-! ## One move -/

/-- The request is to restart a job that is running, which nobody has asked to stop. -/
def Interrupts (jobs : Jobs) (request : JobRequest) : Prop :=
  ∃ name job, request = .restart name ∧ jobs.get? name = some job ∧ job.state = .running ∧
    job.stopRequestedAt = none

theorem not_interrupts_of_not_stops
    {request : JobRequest}
    (h : request.stops = false)
    (jobs : Jobs) :
    ¬ jobs.Interrupts request := by
  rintro ⟨name, job, rfl, -⟩
  cases h

theorem interrupts_restart_iff
    {jobs : Jobs} {name : String} {job : Job}
    (hfound : jobs.get? name = some job) :
    jobs.Interrupts (.restart name) ↔
      job.state = .running ∧ job.stopRequestedAt = none := by
  constructor
  · rintro ⟨other, found, hother, hjob, hstate⟩
    cases hother
    obtain rfl := Option.some.inj (hfound.symm.trans hjob)
    exact hstate
  · rintro ⟨hrunning, hunasked⟩
    exact ⟨name, job, rfl, hfound, hrunning, hunasked⟩

/-- **A move that carries nothing out leaves the jobs alone** unless it interrupts
one. -/
theorem Served.alike_iff
    {jobs next : Jobs} {caller : Caller} {time : Nat} {request : JobRequest}
    {move : JobMove}
    (h : Served jobs caller time request next move)
    (hmove : move.accepts = false) :
    Alike jobs next ↔ ¬ jobs.Interrupts request := by
  cases h with
  | refused hstops hfails hanswer =>
      refine iff_of_true (.refl jobs) ?_
      rintro ⟨name, job, rfl, hjob, -⟩
      cases (hstops rfl).symm.trans hjob
  | stopped hfound hnext => cases hmove
  | restarting hfound hnext =>
      rw [hnext.alike_iff hfound, Job.untouched_asked_iff, interrupts_restart_iff hfound]
  | joined hstarts hfound hended hjoins hnext =>
      refine iff_of_true ((hnext.alike_iff hfound).2 (Job.untouched_beginJoin _)) ?_
      rintro ⟨name, job, rfl, -⟩
      cases hstarts
  | ran hname hfree => cases hmove
  | resumed hfound hended hfree => cases hmove

/-- No further move of a request asks a job to stop. -/
theorem Served.further_stops
    {jobs next : Jobs} {caller : Caller} {time : Nat}
    {request further : JobRequest} {after : Option Nat}
    (h : Served jobs caller time request next (.proceed after further)) :
    further.stops = false := by
  cases h with
  | restarting hfound hnext => rfl
  | joined hstarts hfound hended hjoins hnext =>
      cases request with
      | run name spec => rfl
      | resume name => rfl
      | _ => cases hstarts

end Jobs

/-! ## Calls -/

/-- The worker that takes a step. -/
def Transaction.worker? : Transaction → Option Nat
  | serve (.worker serial) _ _ => some serial
  | publish serial _ _ _ => some serial
  | serve .outside _ _ | record _ _ => none

namespace Jobs

/-- A call from its first move to its answer: the steps that are taken meanwhile, and
the jobs before and after each move of the call itself. Between the moves others take
steps, whoever they are; a caller that is a worker takes none. -/
inductive Call
    (caller : Caller) :
    Jobs →
    JobRequest →
    List Transaction →
    List (Jobs × Jobs) →
    Result JobAnswer →
    Prop
  | answered
      {jobs next : Jobs} {time : Nat} {request : JobRequest}
      {after : Option Nat} {answer : Result JobAnswer}
      (hserve : jobs.serve caller time request = (next, .answer after answer)) :
      Call caller jobs request [.serve caller time request] [(jobs, next)] answer
  | proceeded
      {jobs next : Jobs} {time : Nat} {request further : JobRequest}
      {after : Option Nat} {between steps : List Transaction}
      {moves : List (Jobs × Jobs)} {answer : Result JobAnswer}
      (hserve : jobs.serve caller time request = (next, .proceed after further))
      (hothers :
          ∀ serial,
            caller = .worker serial → ∀ step ∈ between, step.worker? ≠ some serial)
      (hrest : Call caller (next.after between) further steps moves answer) :
      Call caller jobs request (.serve caller time request :: between ++ steps)
        ((jobs, next) :: moves) answer

variable {caller : Caller} {jobs : Jobs} {request : JobRequest}
variable {steps : List Transaction} {moves : List (Jobs × Jobs)}

/-- **A refused call leaves the jobs alone unless it interrupts one.** -/
theorem Call.alike_iff
    {error : Error}
    (h : Call caller jobs request steps moves (.error error)) :
    (∀ move ∈ moves, Alike move.1 move.2) ↔ ¬ jobs.Interrupts request := by
  generalize hanswer : (.error error : Result JobAnswer) = answer at h
  induction h with
  | @answered jobs next time request after answer hserve =>
      subst hanswer
      have hserved := served_serve jobs caller time request
      rw [hserve] at hserved
      rw [List.forall_mem_singleton]
      exact hserved.alike_iff rfl
  | @proceeded jobs next time request further after between steps moves answer hserve
    hothers hrest ih =>
      have hserved := served_serve jobs caller time request
      rw [hserve] at hserved
      rw [List.forall_mem_cons, ih hanswer, hserved.alike_iff rfl]
      exact and_iff_left (not_interrupts_of_not_stops hserved.further_stops _)

/-! ## A worker that restarts its own job -/

/-- A running job goes on running under its name as long as its own worker takes no
step. -/
theorem keeps_running
    {name : String} {job : Job}
    (hjob : jobs.get? name = some job)
    (hrunning : job.isRunning = true)
    {step : Transaction}
    (hother : step.worker? ≠ some job.serial) :
    ∃ found,
      (jobs.perform step).get? name = some found ∧
      found.serial = job.serial ∧
      found.isRunning = true := by
  have hchange := change_perform jobs name step
  generalize jobs.booked name step = booking at hchange
  generalize (jobs.perform step).get? name = result at hchange
  cases hchange with
  | kept => exact ⟨job, hjob, rfl, hrunning⟩
  | @asked caller time request old hstops hname hfound =>
      obtain rfl := Option.some.inj (hfound.symm.trans hjob)
      exact ⟨_, rfl, Job.serial_asked _ _ _, (Job.isRunning_asked _ _ _).trans hrunning⟩
  | @joined caller time request old hstarts hfound hended =>
      obtain rfl := Option.some.inj (hfound.symm.trans hjob)
      cases hrunning.symm.trans hended
  | ran hfree => cases hrunning.symm.trans (hfree job hjob).1
  | @resumed caller time old hfound hended hfree =>
      obtain rfl := Option.some.inj (hfound.symm.trans hjob)
      cases hrunning.symm.trans hended
  | @published serial ending time old hfound hserial hopen =>
      obtain rfl := Option.some.inj (hfound.symm.trans hjob)
      exact absurd (congrArg some hserial.symm) hother
  | @noted entry old hfound =>
      obtain rfl := Option.some.inj (hfound.symm.trans hjob)
      exact ⟨_, rfl, rfl, hrunning⟩

theorem keeps_running_after
    {name : String} {job : Job}
    (hjob : jobs.get? name = some job)
    (hrunning : job.isRunning = true)
    {later : List Transaction}
    (hothers : ∀ step ∈ later, step.worker? ≠ some job.serial) :
    ∃ found,
      (jobs.after later).get? name = some found ∧
      found.serial = job.serial ∧
      found.isRunning = true := by
  induction later generalizing jobs job with
  | nil => exact ⟨job, hjob, rfl, hrunning⟩
  | cons step rest ih =>
      rw [List.forall_mem_cons] at hothers
      obtain ⟨next, hnext, hserial, hstill⟩ := keeps_running hjob hrunning hothers.1
      obtain ⟨found, hfound, hsame, hopen⟩ := ih hnext hstill (hserial ▸ hothers.2)
      exact ⟨found, hfound, hsame.trans hserial, hopen⟩

theorem serve_resume_of_running
    {name : String} {job : Job}
    (hfound : jobs.get? name = some job)
    (hrunning : job.isRunning = true)
    (caller : Caller)
    (time : Nat) :
    jobs.serve caller time (.resume name) =
      (jobs, .refused (.jobStartedConcurrently name)) := by
  rw [serve, resume, hfound]
  exact if_pos hrunning

/-- **A worker that restarts its own running job is refused**, whatever the others do
meanwhile. -/
theorem Call.refused_of_own
    {name : String} {job : Job} {answer : Result JobAnswer}
    (hfound : jobs.get? name = some job)
    (hrunning : job.isRunning = true)
    (h : Call (.worker job.serial) jobs (.restart name) steps moves answer) :
    answer = .error (.configuration (.jobStartedConcurrently name)) := by
  cases h with
  | @answered _ next time _ after _ hserve =>
      obtain ⟨hmove, -⟩ := restart_of_found hfound (.worker job.serial) time
      cases hmove.symm.trans (congrArg Prod.snd hserve)
  | @proceeded _ next time _ further after between rest _ _ hserve hothers hrest =>
      obtain ⟨hmove, hnext⟩ := restart_of_found hfound (.worker job.serial) time
      have hasked := (Job.isRunning_asked job (.worker job.serial) time).trans hrunning
      have hown := Job.serial_asked job (.worker job.serial) time
      obtain ⟨found, hstill, -, hopen⟩ :=
        keeps_running_after hnext.get?_self hasked (hown.symm ▸ hothers job.serial rfl)
      -- The second move finds the job running.
      cases hmove.symm.trans (congrArg Prod.snd hserve)
      cases congrArg Prod.fst hserve
      cases hrest with
      | @answered _ _ later _ _ _ hserve =>
          cases (serve_resume_of_running hstill hopen (.worker job.serial)
              later).symm.trans hserve
          rfl
      | @proceeded _ _ later _ _ _ _ _ _ _ hserve hothers hrest =>
          cases (serve_resume_of_running hstill hopen (.worker job.serial)
              later).symm.trans hserve

/-- The call of a worker that restarts its own running job, when nobody comes between
its two moves. -/
theorem exists_own_restart
    {name : String} {job : Job}
    (hfound : jobs.get? name = some job)
    (hrunning : job.isRunning = true)
    (time : Nat) :
    ∃ steps moves,
      Call (.worker job.serial) jobs (.restart name) steps moves
        (.error (.configuration (.jobStartedConcurrently name))) := by
  obtain ⟨hmove, hnext⟩ := restart_of_found hfound (.worker job.serial) time
  have hasked := (Job.isRunning_asked job (.worker job.serial) time).trans hrunning
  have hresume := serve_resume_of_running hnext.get?_self hasked (.worker job.serial) time
  have hrestart : jobs.serve (.worker job.serial) time (.restart name) =
      ((jobs.restart (.worker job.serial) time name).1,
        .proceed ((Caller.worker job.serial).joins job) (.resume name)) := Prod.ext rfl hmove
  have hothers : ∀ serial, Caller.worker job.serial = .worker serial →
      ∀ step ∈ ([] : List Transaction), step.worker? ≠ some serial := nofun
  exact ⟨_, _, .proceeded hrestart hothers (.answered hresume)⟩

/-- A call begins with a move of its request. -/
theorem Call.exists_first
    {answer : Result JobAnswer}
    (h : Call caller jobs request steps moves answer) :
    ∃ time rest, steps = .serve caller time request :: rest := by
  cases h with
  | answered hserve => exact ⟨_, _, rfl⟩
  | proceeded hserve hothers hrest => exact ⟨_, _, rfl⟩

/-- A job that somebody has called to restart while it was running ends stopped. -/
theorem Call.stops
    {history : List Transaction} {name : String} {job : Job}
    {answer : Result JobAnswer}
    (hfound : (Jobs.empty.after history).get? name = some job)
    (hrunning : job.state = .running)
    (h : Call caller (Jobs.empty.after history) (.restart name) steps moves answer)
    (later : List Transaction)
    {found : Job}
    (hlater : (Jobs.empty.after (history ++ steps ++ later)).get? name = some found)
    (hserial : found.serial = job.serial)
    (hended : found.state ≠ .running) :
    found.state = .stopped := by
  obtain ⟨time, rest, rfl⟩ := h.exists_first
  have hreached :
      StopReached (history ++ .serve caller time (.restart name) :: rest ++ later)
        name found.serial :=
    ⟨history, .serve caller time (.restart name), rest ++ later, job, by simp,
      by simp [Transaction.asksToStop, JobRequest.stops, JobRequest.name], hfound,
        hserial.symm, hrunning⟩
  exact ((coherent_after _ name found hlater).stopped_iff hended).2
    ((stopRequested_iff _ hlater).2 hreached)

/-! ## What refused calls leave -/

/-- What becomes of the jobs when a call is refused that is made after some steps. They
are as they would be without its moves until somebody makes a request, unless the call
is to restart a running job that nobody has asked to stop. A worker that restarts its
own running job is refused as if the job had been started by somebody else, and then the
job ends stopped. -/
structure Refusing (history : List Transaction) : Prop where
  alone_iff :
    ∀ {caller request steps moves error},
      Call caller (Jobs.empty.after history) request steps moves (.error error) →
      ((∀ move ∈ moves,
            ∀ later : List Transaction,
              (∀ step ∈ later, step.requests = false) →
              Alike (move.1.after later) (move.2.after later)) ↔
          ¬ (Jobs.empty.after history).Interrupts request)
  own_restart :
    ∀ {name job},
      (Jobs.empty.after history).get? name = some job →
      job.state = .running →
      (∃ steps moves,
          Call (.worker job.serial) (Jobs.empty.after history) (.restart name) steps
            moves (.error (.configuration (.jobStartedConcurrently name)))) ∧
      ∀ {steps moves answer},
        Call (.worker job.serial) (Jobs.empty.after history) (.restart name) steps
          moves answer →
        answer = .error (.configuration (.jobStartedConcurrently name)) ∧
        ∀ later found,
          (Jobs.empty.after (history ++ steps ++ later)).get? name = some found →
          found.serial = job.serial →
          found.state ≠ .running →
          found.state = .stopped

/-- **A refused call leaves the jobs alone** unless it is to restart a running job that
nobody has asked to stop. -/
theorem refused_calls_leave_jobs_alone_iff
    (history : List Transaction) :
    Refusing history where
  alone_iff hcall := by
    rw [← hcall.alike_iff]
    constructor
    · intro halike move hmove
      exact halike move hmove [] nofun
    · intro halike move hmove later hlater
      exact (halike move hmove).after hlater
  own_restart hfound hrunning := by
    have hopen := Job.isRunning_iff.2 hrunning
    refine ⟨exists_own_restart hfound hopen 0,
      fun hcall => ⟨hcall.refused_of_own hfound hopen, ?_⟩⟩
    intro later found hlater hserial hended
    exact hcall.stops hfound hrunning later hlater hserial hended

/-- A job is run that completes at once. -/
def pinged : List Transaction :=
  [.serve .outside 0 (.run "ping" {})]

/-- Running the job again is refused and leaves it alone; restarting it by its own
worker is refused and does not. -/
theorem refused_calls_leave_jobs_alone_iff_pinged :
    (∃ steps moves,
        Call .outside (Jobs.empty.after pinged) (.run "ping" {}) steps moves
          (.error (.configuration (.jobRunning "ping"))) ∧
        ∀ move ∈ moves, Alike move.1 move.2) ∧
    ∃ steps moves,
      Call (.worker 0) (Jobs.empty.after pinged) (.restart "ping") steps moves
        (.error (.configuration (.jobStartedConcurrently "ping"))) ∧
      ¬ ∀ move ∈ moves, Alike move.1 move.2 := by
  have hrefusing := refused_calls_leave_jobs_alone_iff pinged
  constructor
  · have hrun :
        Call .outside (Jobs.empty.after pinged) (.run "ping" {})
          [.serve .outside 0 (.run "ping" {})] _
          (.error (.configuration (.jobRunning "ping"))) :=
      .answered rfl
    have halone := (hrefusing.alone_iff hrun).2 (not_interrupts_of_not_stops rfl _)
    exact ⟨_, _, hrun, fun move hmove => halone move hmove [] nofun⟩
  · have hfound :
        (Jobs.empty.after pinged).get? "ping" = some { serial := 0, spec := {} } :=
      rfl
    obtain ⟨⟨steps, moves, hrestart⟩, -⟩ := hrefusing.own_restart hfound rfl
    refine ⟨steps, moves, hrestart, fun halike => ?_⟩
    refine (hrefusing.alone_iff hrestart).1 (fun move hmove later hlater => ?_)
      ⟨"ping", _, rfl, rfl, rfl, rfl⟩
    exact (halike move hmove).after hlater

end Jobs

namespace Site

/-- A callback that restarts the job whose start it is told. -/
def restarting : StateCallback :=
  { state := .running, label := "restarting", request := some .restart }

/-- The site after a job was run, where some callbacks had been registered. -/
def running (callbacks : List StateCallback) : Site :=
  ⟨({ Workshop.ofDefaults {} with callbacks := callbacks }.serve .outside
        (.run "ping" {})).1, none⟩

/-- The site where the worker of the job has told its start to no callback, and ended
the job. -/
def undisturbed : Site :=
  turn (turn (turn (running [])))

/-- The site where the worker has told its start to the callback, whose restart took two
moves and was refused, and ended the job. -/
def interrupted : Site :=
  turn (turn (turn (turn (turn (turn (running [restarting]))))))

theorem reached_undisturbed : ∃ history, Reached {} history undisturbed := by
  have hcalled : Reached {} _ _ := Leads.here.step (.called (.run "ping" {}))
  have hrunning : Reached {} _ (running []) := hcalled.step (.returned rfl rfl)
  have htelling : Reached {} _ _ := hrunning.turn rfl rfl
  have hexecuting : Reached {} _ _ := htelling.turn rfl rfl
  exact ⟨_, hexecuting.turn rfl rfl⟩

theorem reached_interrupted : ∃ history, Reached {} history interrupted := by
  have hminds : restarting.MindsItsJob := by
    intro request hrequest name
    obtain rfl := Option.some.inj hrequest
    rfl
  have hregistered : Reached {} _ _ := Leads.here.step (.registered hminds)
  have hcalled : Reached {} _ _ := hregistered.step (.called (.run "ping" {}))
  have hrunning : Reached {} _ (running [restarting]) := hcalled.step (.returned rfl rfl)
  have htelling : Reached {} _ _ := hrunning.turn rfl rfl
  have hasking : Reached {} _ _ := htelling.turn rfl rfl
  have hagain : Reached {} _ _ := hasking.turn rfl rfl
  have hrefused : Reached {} _ _ := hagain.turn rfl rfl
  have hexecuting : Reached {} _ _ := hrefused.turn rfl rfl
  exact ⟨_, hexecuting.turn rfl rfl⟩

/-- The restart is refused, and the job ends stopped that would have been completed. -/
theorem job_stopped_by_refused_restart :
    (∃ history, Reached {} history interrupted) ∧
    interrupted.shop.notices.map (fun notice => notice.answer) =
      [some (.error (.configuration (.jobStartedConcurrently "ping")))] ∧
    (interrupted.shop.jobs.get? "ping").map (fun job => job.state) =
      some .stopped ∧
    (∃ history, Reached {} history undisturbed) ∧
    (undisturbed.shop.jobs.get? "ping").map (fun job => job.state) =
      some .completed :=
  ⟨reached_interrupted, rfl, rfl, reached_undisturbed, rfl⟩

end Site

end PhaseFlow
