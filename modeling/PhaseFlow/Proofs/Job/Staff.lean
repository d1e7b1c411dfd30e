import Mathlib.Data.List.Nodup
import PhaseFlow.Job.Workshop
import PhaseFlow.Proofs.Job.Career

/-!
# The workers of jobs

A job that is started gets a worker. The module says once what a worker can do when it
acts, and what every step leaves of the bond between the workers and the jobs.

* `Acts` says what a worker can do when it acts, and which steps on the jobs it takes
  (`acts_act`).
* `Workshop.Asks` says which requests the callbacks of a workshop can make; nothing that
  a worker does changes this (`Acts.asks`).
* `Workshop.Staffed` ties the workers to the jobs: a job is running as long as its
  worker has not published how it ends (`Acts.staffed`, `Staffed.serve`).
-/

namespace PhaseFlow

/-! ## Requests of callbacks -/

/-- A callback makes allowed requests only. What is allowed depends on the job that it
is told about. -/
def StateCallback.Asks
    (allowed : String → JobRequest → Prop)
    (callback : StateCallback) :
    Prop :=
  ∀ request, callback.request = some request → ∀ name, allowed name (request name)

namespace Activity

/-- A worker has not published how its job ends. -/
def isOpen : Activity → Bool
  | starting => true
  | telling status _ => !status.state.isTerminal
  | asking _ status _ _ => !status.state.isTerminal
  | executing _ => true

/-- The worker that is joined. -/
def awaits : Activity → Option Nat
  | asking _ _ move _ => move.after
  | _ => none

/-- The callbacks that are still told about the job of a name make allowed requests
only. -/
def Asks (allowed : String → JobRequest → Prop) (name : String) : Activity → Prop
  | telling status callbacks =>
      status.name = name ∧ ∀ callback ∈ callbacks, callback.Asks allowed
  | asking _ status move callbacks =>
      status.name = name ∧
        (∀ after request, move = .proceed after request → allowed name request) ∧
        ∀ callback ∈ callbacks, callback.Asks allowed
  | _ => True

end Activity

namespace Jobs

/-- What a request goes on with is the request itself, or the second half of a
restart. -/
theorem Served.proceed
    {jobs next : Jobs} {caller : Caller} {time : Nat} {request : JobRequest}
    {after : Option Nat} {further : JobRequest}
    (h : Served jobs caller time request next (.proceed after further)) :
    further = request ∨ ∃ name, request = .restart name ∧ further = .resume name := by
  cases h with
  | restarting => exact .inr ⟨_, rfl, rfl⟩
  | joined => exact .inl rfl

/-- Nothing is started: every job keeps its number, what it runs and its state. -/
structure Quiet (jobs next : Jobs) : Prop where
  issued : next.issued = jobs.issued
  get? :
    ∀ name,
      (jobs.get? name = none ∧ next.get? name = none) ∨
      ∃ job changed,
        jobs.get? name = some job ∧
        next.get? name = some changed ∧
        changed.serial = job.serial ∧
        changed.spec = job.spec ∧
        changed.state = job.state

theorem Quiet.refl (jobs : Jobs) : Quiet jobs jobs where
  issued := rfl
  get? name := by
    cases hfound : jobs.get? name with
    | none => exact .inl ⟨rfl, rfl⟩
    | some job => exact .inr ⟨job, job, rfl, rfl, rfl, rfl, rfl⟩

/-- A job that is changed without a new number, specification or state starts
nothing. -/
theorem Puts.quiet
    {jobs next : Jobs} {name : String} {job changed : Job}
    (h : Puts jobs name changed next)
    (hfound : jobs.get? name = some job)
    (hserial : changed.serial = job.serial)
    (hspec : changed.spec = job.spec)
    (hstate : changed.state = job.state) :
    Quiet jobs next where
  issued := h.issued
  get? other := by
    by_cases hname : name = other
    · subst hname
      exact .inr ⟨job, changed, hfound, h.get?_self, hserial, hspec, hstate⟩
    · rw [h.get?_of_ne hname]
      exact (Quiet.refl jobs).get? other

/-- A move starts nothing, or it starts the job of its name, which is over and not
joined any more. -/
theorem Served.quiet_or_starts
    {jobs next : Jobs} {caller : Caller} {time : Nat} {request : JobRequest}
    {move : JobMove}
    (h : Served jobs caller time request next move) :
    Quiet jobs next ∨
    ∃ spec restartCount health,
      next = jobs.start request.name spec restartCount health ∧
      move = .done ∧
      ∀ job,
        jobs.get? request.name = some job →
        job.state ≠ .running ∧ job.joinable = false := by
  cases h with
  | refused => exact .inl (.refl jobs)
  | stopped hfound hnext =>
      refine .inl (hnext.quiet hfound (Job.serial_asked _ _ _) (Job.spec_asked _ _ _) ?_)
      rw [Job.toJobRecord_asked]
  | restarting hfound hnext =>
      refine .inl (hnext.quiet hfound (Job.serial_asked _ _ _) (Job.spec_asked _ _ _) ?_)
      rw [Job.toJobRecord_asked]
  | joined hstarts hfound hended hjoins hnext => exact .inl (hnext.quiet hfound rfl rfl rfl)
  | ran hname hfree =>
      exact .inr ⟨_, _, _, rfl, rfl, fun job hjob =>
        ⟨Job.isRunning_eq_false_iff.1 (hfree job hjob).1, (hfree job hjob).2⟩⟩
  | @resumed name job hfound hended hfree =>
      refine .inr ⟨_, _, _, rfl, rfl, fun other hother => ?_⟩
      obtain rfl := Option.some.inj (hfound.symm.trans hother)
      exact ⟨Job.isRunning_eq_false_iff.1 hended, hfree⟩

theorem quiet_recordHealth
    (jobs : Jobs)
    (name : String)
    (entry : HealthRecord) :
    Quiet jobs (jobs.recordHealth name entry).1 where
  issued := rfl
  get? other := by
    show _ ∨ ∃ job changed, _ ∧ (jobs.modify name _).get? other = _ ∧ _
    rw [recordHealth, get?_modify]
    by_cases hname : name = other
    · subst hname
      rw [if_pos rfl]
      cases jobs.get? name with
      | none => exact .inl ⟨rfl, rfl⟩
      | some job => exact .inr ⟨job, job.noteHealth entry, rfl, rfl, rfl, rfl, rfl⟩
    · rw [if_neg hname]
      exact (Quiet.refl jobs).get? other

end Jobs

/-- A job that publishes an end has ended. -/
theorem Job.isTerminal_publish
    (job : Job)
    (outcome : Except Failure Completion)
    (time : Nat) :
    (job.publish outcome time).state.isTerminal = true := by
  unfold publish JobRecord.finish
  cases outcome <;> cases job.stopRequestedAt <;> rfl

/-- A worker that is busy with something from some time on. -/
def Worker.turned (worker : Worker) (time : Nat) (activity : Activity) : Worker :=
  { worker with since := time, activity := activity }

namespace Workshop

/-- The callbacks of a workshop make allowed requests only. -/
structure Asks
    (allowed : String → JobRequest → Prop)
    (shop : Workshop) : Prop where
  callbacks : ∀ callback ∈ shop.callbacks, callback.Asks allowed
  workers : ∀ worker ∈ shop.workers, worker.activity.Asks allowed worker.name

/-! ## What a worker does -/

/-- Nobody keeps a worker from going on. -/
def isFree (shop : Workshop) (worker : Worker) : Bool :=
  shop.hasEnded worker.activity.awaits

/-- How the job of a worker ends that executes the phase. -/
def endingOf (shop : Workshop) (worker : Worker) (cancelled : Bool) : Ending :=
  worker.spec.ending worker.name shop.defaults ⟨cancelled, shop.stopRequestedAt worker⟩
    worker.since shop.writer

/-- The steps on the jobs that a worker takes when it acts. -/
def stepsOf (shop : Workshop) (worker : Worker) : List Transaction :=
  match worker.activity with
  | .telling status (callback :: _) =>
      match callback.request with
      | some request => [.serve (.worker worker.serial) shop.now (request status.name)]
      | none => []
  | .asking _ _ (.proceed _ request) _ => [.serve (.worker worker.serial) shop.now request]
  | .executing cancelled =>
      [.publish worker.serial worker.name (shop.endingOf worker cancelled) shop.now]
  | _ => []

/-- A worker is busy with something else, and nothing else has changed. -/
structure Engages
    (shop : Workshop)
    (worker : Worker)
    (activity : Activity)
    (next : Workshop) : Prop where
  jobs : next.jobs = shop.jobs
  callbacks : next.callbacks = shop.callbacks
  workers : next.workers = shop.workers.map fun other =>
    if other.serial = worker.serial then worker.turned shop.now activity else other

theorem engages_busy
    (shop : Workshop)
    (worker : Worker)
    (activity : Activity) :
    Engages shop worker activity (shop.busy worker activity) :=
  ⟨rfl, rfl, rfl⟩

theorem engages_note
    (shop : Workshop)
    (notice : Notice)
    (worker : Worker)
    (activity : Activity) :
    Engages shop worker activity ((shop.note notice).busy worker activity) :=
  ⟨rfl, rfl, rfl⟩

/-- What a worker can do when it acts, and the steps on the jobs that it takes. -/
inductive Acts
    (shop : Workshop)
    (worker : Worker) :
    List Transaction → Workshop → Prop
  | turned
      {activity : Activity} {next : Workshop}
      (hnext : Engages shop worker activity next)
      (hopen : activity.isOpen = worker.activity.isOpen)
      (hasks : ∀ allowed, shop.Asks allowed → activity.Asks allowed worker.name)
      (hawaits : activity.awaits = none) :
      Acts shop worker [] next
  | asked
      {request : JobRequest} {label : String} {status : JobStatus}
      {callbacks : List StateCallback} {next : Workshop}
      (hopen : (!status.state.isTerminal) = worker.activity.isOpen)
      (hasks :
          ∀ allowed,
            (∀ name job, allowed name (.restart job) → allowed name (.resume job)) →
            shop.Asks allowed →
            allowed worker.name request ∧
            (Activity.asking label status
                (shop.serve (.worker worker.serial) request).2 callbacks).Asks
              allowed worker.name)
      (hnext :
          Engages (shop.serve (.worker worker.serial) request).1 worker
            (.asking label status (shop.serve (.worker worker.serial) request).2
                callbacks) next) :
      Acts shop worker [.serve (.worker worker.serial) shop.now request] next
  | published
      {ending : Ending} {status : JobStatus} {next : Workshop}
      (hopen : worker.activity.isOpen = true)
      (hended : status.state.isTerminal = true)
      (hname : status.name = worker.name)
      (hnext : Engages { shop with
          jobs :=
            shop.jobs.publish worker.serial worker.name ending.outcome shop.now }
          worker (.telling status (shop.callbacksFor status.state)) next) :
      Acts shop worker [.publish worker.serial worker.name ending shop.now] next
  | ended
      {next : Workshop}
      (hclosed : worker.activity.isOpen = false)
      (hjobs : next.jobs = shop.jobs)
      (hcallbacks : next.callbacks = shop.callbacks)
      (hworkers :
          next.workers =
            shop.workers.filter fun other => other.serial ≠ worker.serial) :
      Acts shop worker [] next

/-- The workers go with the jobs: a job is running as long as its worker has not
published how it ends. -/
structure Staffed (shop : Workshop) : Prop where
  numbered : shop.jobs.Numbered
  serial_lt : ∀ worker ∈ shop.workers, worker.serial < shop.jobs.issued
  nodup : (shop.workers.map Worker.serial).Nodup
  open_running : ∀ worker ∈ shop.workers, worker.activity.isOpen = true →
    ∃ job, shop.jobs.get? worker.name = some job ∧ job.serial = worker.serial ∧
      job.spec = worker.spec ∧ job.state = .running
  running_open : ∀ {name job}, shop.jobs.get? name = some job → job.state = .running →
    ∃ worker ∈ shop.workers, worker.serial = job.serial ∧ worker.name = name ∧
      worker.activity.isOpen = true
  serial_le : ∀ worker ∈ shop.workers, ∃ job, shop.jobs.get? worker.name = some job ∧
    worker.serial ≤ job.serial

/-- No two workers have one number. -/
theorem Staffed.eq_of_serial_eq
    {shop : Workshop}
    (h : shop.Staffed)
    {worker other : Worker}
    (hworker : worker ∈ shop.workers)
    (hother : other ∈ shop.workers)
    (hserial : worker.serial = other.serial) :
    worker = other :=
  List.inj_on_of_nodup_map h.nodup hworker hother hserial

theorem staffed_ofDefaults
    (defaults : RetryPolicy) :
    (ofDefaults defaults).Staffed where
  numbered := Jobs.numbered_empty
  serial_lt worker h := by cases h
  nodup := List.nodup_nil
  open_running worker h := by cases h
  running_open h := by cases h
  serial_le worker h := by cases h

theorem Asks.callbacksFor
    {allowed : String → JobRequest → Prop} {shop : Workshop}
    (h : ∀ callback ∈ shop.callbacks, callback.Asks allowed)
    (state : JobState) :
    ∀ callback ∈ shop.callbacksFor state, callback.Asks allowed :=
  fun callback hmem => h callback (List.mem_of_mem_filter hmem)

/-- What a workshop serves is what its jobs serve. -/
theorem served
    (shop : Workshop)
    (caller : Caller)
    (request : JobRequest) :
    Jobs.Served shop.jobs caller shop.now request
      (shop.serve caller request).1.jobs (shop.serve caller request).2 :=
  Jobs.served_serve shop.jobs caller shop.now request

/-- A worker begins by telling a snapshot of its job. -/
theorem acts_starting
    {shop : Workshop}
    (h : shop.Staffed)
    {worker : Worker}
    (hmem : worker ∈ shop.workers)
    (hactivity : worker.activity = .starting) :
    Acts shop worker (shop.stepsOf worker) (shop.act worker) := by
  have hopen : worker.activity.isOpen = true := by
    rw [hactivity]
    rfl
  obtain ⟨job, hjob, -, -, hrunning⟩ := h.open_running worker hmem hopen
  have hstatus : shop.jobs.status worker.name = some (job.status worker.name) := by
    rw [Jobs.status, hjob, Option.map_some]
  unfold act stepsOf
  simp only [hactivity, hstatus]
  have hnext := engages_busy shop worker
    (.telling (job.status worker.name) (shop.callbacksFor (job.status worker.name).state))
  refine .turned hnext ?_
    (fun allowed hasks => ⟨rfl, Asks.callbacksFor hasks.callbacks _⟩) rfl
  rw [hopen]
  simp [Activity.isOpen, Job.status, hrunning, JobState.isTerminal]

theorem acts_finishTelling
    {shop : Workshop} {worker : Worker} {status : JobStatus}
    (hactivity : worker.activity = .telling status []) :
    Acts shop worker [] (shop.finishTelling worker status) := by
  have hopen : worker.activity.isOpen = !status.state.isTerminal := by
    rw [hactivity]
    rfl
  unfold finishTelling
  split
  · next hended => exact .ended (by rw [hopen, hended]; rfl) rfl rfl rfl
  · next hrunning =>
      have hnext :=
        engages_busy shop worker (.executing (shop.stopRequestedAt worker).isSome)
      refine .turned hnext ?_ (fun _ _ => trivial) rfl
      rw [hopen, Bool.eq_false_iff.2 hrunning]
      rfl

/-- A worker makes a request, and the callbacks that it has still to tell about its job
are as before. -/
theorem acts_ask
    {shop : Workshop} {worker : Worker} {request : JobRequest}
    {status : JobStatus} {callbacks : List StateCallback}
    (label : String)
    (hopen : (!status.state.isTerminal) = worker.activity.isOpen)
    (hasks :
        ∀ allowed,
          shop.Asks allowed →
          allowed worker.name request ∧
          status.name = worker.name ∧
          ∀ callback ∈ callbacks, callback.Asks allowed) :
    Acts shop worker [.serve (.worker worker.serial) shop.now request]
      ((shop.serve (.worker worker.serial) request).1.busy worker
          (.asking label status
              (shop.serve (.worker worker.serial) request).2 callbacks)) := by
  refine .asked hopen (fun allowed hclosed hshop => ?_) (engages_busy _ worker _)
  obtain ⟨hallowed, hname, hcallbacks⟩ := hasks allowed hshop
  refine ⟨hallowed, hname, fun after further hmove => ?_, hcallbacks⟩
  have hserved := shop.served (.worker worker.serial) request
  rw [hmove] at hserved
  obtain rfl | ⟨job, rfl, rfl⟩ := hserved.proceed
  · exact hallowed
  · exact hclosed _ _ hallowed

theorem acts_tell
    {shop : Workshop} {worker : Worker}
    (hmem : worker ∈ shop.workers)
    {status : JobStatus} {callback : StateCallback}
    {callbacks : List StateCallback}
    (hactivity : worker.activity = .telling status (callback :: callbacks)) :
    Acts shop worker (shop.stepsOf worker)
      (shop.tell worker status callback callbacks) := by
  have hopen : (!status.state.isTerminal) = worker.activity.isOpen := by
    rw [hactivity]
    rfl
  have htold : ∀ allowed, shop.Asks allowed →
      status.name = worker.name ∧ ∀ each ∈ callback :: callbacks, each.Asks allowed := by
    intro allowed hasks
    have := hasks.workers worker hmem
    rwa [hactivity] at this
  unfold stepsOf tell
  simp only [hactivity]
  cases hrequest : callback.request with
  | none =>
      have hnext : Engages shop worker (.telling status callbacks) _ :=
        shop.engages_note ⟨callback.label, status, none⟩ worker _
      refine .turned hnext hopen (fun allowed hasks => ?_) rfl
      obtain ⟨hname, hcallbacks⟩ := htold allowed hasks
      exact ⟨hname, fun each heach => hcallbacks each (List.mem_cons_of_mem _ heach)⟩
  | some request =>
      refine acts_ask callback.label hopen fun allowed hasks => ?_
      obtain ⟨hname, hcallbacks⟩ := htold allowed hasks
      refine ⟨?_, hname, fun each heach => hcallbacks each (List.mem_cons_of_mem _ heach)⟩
      rw [hname]
      exact hcallbacks callback List.mem_cons_self request hrequest worker.name

/-- A worker whose callback has made a request makes the next move of it, or tells the
callbacks that are left. -/
theorem acts_goOn
    {shop : Workshop} {worker : Worker}
    (hmem : worker ∈ shop.workers)
    {label : String} {status : JobStatus} {move : JobMove}
    {callbacks : List StateCallback}
    (hactivity : worker.activity = .asking label status move callbacks) :
    Acts shop worker (shop.stepsOf worker)
      (shop.goOn worker label status move callbacks) := by
  have hopen : (!status.state.isTerminal) = worker.activity.isOpen := by
    rw [hactivity]
    rfl
  have htold : ∀ allowed, shop.Asks allowed → status.name = worker.name ∧
      (∀ after request, move = .proceed after request → allowed worker.name request) ∧
        ∀ each ∈ callbacks, each.Asks allowed := by
    intro allowed hasks
    have := hasks.workers worker hmem
    rwa [hactivity] at this
  unfold stepsOf goOn
  simp only [hactivity]
  cases move with
  | answer after answer =>
      have hnext : Engages shop worker (.telling status callbacks) _ :=
        shop.engages_note ⟨label, status, some answer⟩ worker _
      exact .turned hnext hopen
        (fun allowed hasks => ⟨(htold allowed hasks).1, (htold allowed hasks).2.2⟩) rfl
  | proceed after request =>
      refine acts_ask label hopen fun allowed hasks => ?_
      obtain ⟨hname, hproceed, hcallbacks⟩ := htold allowed hasks
      exact ⟨hproceed after request rfl, hname, hcallbacks⟩

/-- A worker that has executed its phase publishes the end. -/
theorem acts_publish
    {shop : Workshop}
    (h : shop.Staffed)
    {worker : Worker}
    (hmem : worker ∈ shop.workers)
    {cancelled : Bool}
    (hactivity : worker.activity = .executing cancelled) :
    Acts shop worker
      [.publish worker.serial worker.name (shop.endingOf worker cancelled)
          shop.now] (shop.publish worker cancelled) := by
  have hopen : worker.activity.isOpen = true := by
    rw [hactivity]
    rfl
  obtain ⟨job, hjob, hserial, -, hrunning⟩ := h.open_running worker hmem hopen
  set ending := shop.endingOf worker cancelled with hending
  have houtcome : (shop.courseOf worker cancelled).outcome = ending.outcome := rfl
  have hput := Jobs.puts_publish hjob (Job.isRunning_iff.2 hrunning) ending.outcome shop.now
  have hstatus : (shop.jobs.publish worker.serial worker.name ending.outcome shop.now).status
      worker.name = some ((job.publish ending.outcome shop.now).status worker.name) := by
    rw [← hserial, Jobs.status, hput.get?_self, Option.map_some]
  simp only [publish, houtcome, hstatus]
  exact .published hopen (Job.isTerminal_publish job ending.outcome shop.now) rfl
    ⟨rfl, rfl, rfl⟩

/-- **What a worker does when it acts.** -/
theorem acts_act
    {shop : Workshop}
    (h : shop.Staffed)
    {worker : Worker}
    (hmem : worker ∈ shop.workers) :
    Acts shop worker (shop.stepsOf worker) (shop.act worker) := by
  cases hactivity : worker.activity with
  | starting => exact acts_starting h hmem hactivity
  | telling status callbacks =>
      cases callbacks with
      | nil =>
          have hacts : Acts shop worker [] _ := acts_finishTelling hactivity
          simpa only [act, stepsOf, hactivity] using hacts
      | cons callback callbacks =>
          rw [act, hactivity]
          exact acts_tell hmem hactivity
  | asking label status move callbacks =>
      rw [act, hactivity]
      exact acts_goOn hmem hactivity
  | executing cancelled =>
      rw [act, stepsOf, hactivity]
      exact acts_publish h hmem hactivity

/-! ## Workers and jobs -/

theorem Engages.map_serial
    {shop next : Workshop} {worker : Worker} {activity : Activity}
    (h : Engages shop worker activity next) :
    next.workers.map Worker.serial = shop.workers.map Worker.serial := by
  rw [h.workers, List.map_map]
  refine List.map_congr_left fun other _ => ?_
  rw [Function.comp]
  split
  · next heq => exact heq.symm
  · rfl

/-- The workers afterwards are the busy one and the others as they were. -/
theorem Engages.mem_iff
    {shop next : Workshop} {worker : Worker} {activity : Activity}
    (h : Engages shop worker activity next)
    (hmem : worker ∈ shop.workers)
    {other : Worker} :
    other ∈ next.workers ↔
      other = worker.turned shop.now activity ∨
      (other ∈ shop.workers ∧ other.serial ≠ worker.serial) := by
  rw [h.workers, List.mem_map]
  constructor
  · rintro ⟨old, hold, rfl⟩
    split
    · exact .inl rfl
    · next hne => exact .inr ⟨hold, hne⟩
  · rintro (rfl | ⟨hold, hne⟩)
    · exact ⟨worker, hmem, if_pos rfl⟩
    · exact ⟨other, hold, if_neg hne⟩

/-- A worker that turns to something else leaves the staff in order. -/
theorem Staffed.engage
    {shop next : Workshop}
    (h : shop.Staffed)
    {worker : Worker}
    (hmem : worker ∈ shop.workers)
    {activity : Activity}
    (hnext : Engages shop worker activity next)
    (hopen : activity.isOpen = worker.activity.isOpen) :
    next.Staffed where
  numbered := by
    rw [hnext.jobs]
    exact h.numbered
  serial_lt other hother := by
    rw [hnext.jobs]
    rcases (hnext.mem_iff hmem).1 hother with rfl | ⟨hold, -⟩
    · exact h.serial_lt worker hmem
    · exact h.serial_lt other hold
  nodup := by
    rw [hnext.map_serial]
    exact h.nodup
  open_running other hother hisOpen := by
    rw [hnext.jobs]
    rcases (hnext.mem_iff hmem).1 hother with rfl | ⟨hold, -⟩
    · exact h.open_running worker hmem (hopen ▸ hisOpen)
    · exact h.open_running other hold hisOpen
  running_open {name job} hjob hrunning := by
    rw [hnext.jobs] at hjob
    obtain ⟨other, hother, hserial, hname, hisOpen⟩ := h.running_open hjob hrunning
    by_cases heq : other.serial = worker.serial
    · obtain rfl := h.eq_of_serial_eq hother hmem heq
      exact ⟨_, (hnext.mem_iff hmem).2 (.inl rfl), hserial, hname, hopen.trans hisOpen⟩
    · exact ⟨other, (hnext.mem_iff hmem).2 (.inr ⟨hother, heq⟩), hserial, hname, hisOpen⟩
  serial_le other hother := by
    rw [hnext.jobs]
    rcases (hnext.mem_iff hmem).1 hother with rfl | ⟨hold, -⟩
    · exact h.serial_le worker hmem
    · exact h.serial_le other hold

/-- Where nothing is started, the staff stays in order. -/
theorem Staffed.quiet
    {shop next : Workshop}
    (h : shop.Staffed)
    (hquiet : Jobs.Quiet shop.jobs next.jobs)
    (hworkers : next.workers = shop.workers) :
    next.Staffed where
  numbered := h.numbered.of_same hquiet.issued.symm fun {name job} hjob => by
    obtain ⟨-, hnone⟩ | ⟨old, changed, hold, hchanged, hserial, -, -⟩ := hquiet.get? name
    · rw [hnone] at hjob
      cases hjob
    · obtain rfl := Option.some.inj (hchanged.symm.trans hjob)
      exact ⟨old, hold, hserial⟩
  serial_lt worker hmem := by
    rw [hquiet.issued]
    exact h.serial_lt worker (hworkers ▸ hmem)
  nodup := by
    rw [hworkers]
    exact h.nodup
  open_running worker hmem hopen := by
    obtain ⟨job, hjob, hserial, hspec, hstate⟩ :=
      h.open_running worker (hworkers ▸ hmem) hopen
    obtain ⟨hnone, -⟩ | ⟨old, changed, hold, hchanged, hserial', hspec', hstate'⟩ :=
      hquiet.get? worker.name
    · rw [hnone] at hjob
      cases hjob
    · obtain rfl := Option.some.inj (hold.symm.trans hjob)
      exact ⟨changed, hchanged, hserial'.trans hserial, hspec'.trans hspec,
        hstate'.trans hstate⟩
  running_open {name job} hjob hrunning := by
    obtain ⟨-, hnone⟩ | ⟨old, changed, hold, hchanged, hserial, -, hstate⟩ :=
      hquiet.get? name
    · rw [hnone] at hjob
      cases hjob
    · obtain rfl := Option.some.inj (hchanged.symm.trans hjob)
      rw [hworkers, hserial]
      exact h.running_open hold (hstate.symm.trans hrunning)
  serial_le worker hmem := by
    obtain ⟨job, hjob, hle⟩ := h.serial_le worker (hworkers ▸ hmem)
    obtain ⟨hnone, -⟩ | ⟨old, changed, hold, hchanged, hserial, -, -⟩ :=
      hquiet.get? worker.name
    · rw [hnone] at hjob
      cases hjob
    · obtain rfl := Option.some.inj (hold.symm.trans hjob)
      exact ⟨changed, hchanged, hserial ▸ hle⟩

/-- The worker of a job that is started. -/
def hired (shop : Workshop) (name : String) (spec : JobSpec) : Worker :=
  { serial := shop.jobs.issued, name := name, spec := spec, since := shop.now }

/-- A job is started over one that has ended, and gets a worker. -/
theorem Staffed.start
    {shop next : Workshop}
    (h : shop.Staffed)
    {name : String} {spec : JobSpec} {restartCount : Nat}
    {health : List HealthRecord}
    (hended : ∀ job, shop.jobs.get? name = some job → job.state ≠ .running)
    (hjobs : next.jobs = shop.jobs.start name spec restartCount health)
    (hworkers : next.workers = shop.workers ++ [shop.hired name spec]) :
    next.Staffed where
  numbered := by
    rw [hjobs]
    exact h.numbered.start name spec restartCount health
  serial_lt worker hmem := by
    rw [hjobs]
    rw [hworkers, List.mem_append, List.mem_singleton] at hmem
    rcases hmem with hold | rfl
    · exact Nat.lt_succ_of_lt (h.serial_lt worker hold)
    · exact Nat.lt_succ_self _
  nodup := by
    rw [hworkers, List.map_append, List.nodup_append]
    refine ⟨h.nodup, List.nodup_singleton _, fun serial hold other hother => ?_⟩
    obtain ⟨worker, hworker, rfl⟩ := List.mem_map.1 hold
    obtain rfl := List.mem_singleton.1 hother
    exact Nat.ne_of_lt (h.serial_lt worker hworker)
  open_running worker hmem hopen := by
    rw [hworkers, List.mem_append, List.mem_singleton] at hmem
    rw [hjobs]
    rcases hmem with hold | rfl
    · obtain ⟨job, hjob, hrest⟩ := h.open_running worker hold hopen
      have hne : name ≠ worker.name := by
        rintro rfl
        exact hended job hjob hrest.2.2
      exact ⟨job, (Jobs.get?_start_of_ne _ hne _ _ _).trans hjob, hrest⟩
    · exact ⟨_, Jobs.get?_start_self _ _ _ _ _, rfl, rfl, rfl⟩
  running_open {other job} hjob hrunning := by
    rw [hjobs] at hjob
    rw [hworkers]
    by_cases hname : name = other
    · subst hname
      rw [Jobs.get?_start_self, Option.some.injEq] at hjob
      subst hjob
      exact ⟨shop.hired name spec, List.mem_append_right _ (List.mem_singleton.2 rfl),
        rfl, rfl, rfl⟩
    · rw [Jobs.get?_start_of_ne _ hname] at hjob
      obtain ⟨worker, hworker, hrest⟩ := h.running_open hjob hrunning
      exact ⟨worker, List.mem_append_left _ hworker, hrest⟩
  serial_le worker hmem := by
    rw [hworkers, List.mem_append, List.mem_singleton] at hmem
    rw [hjobs]
    rcases hmem with hold | rfl
    · by_cases hname : name = worker.name
      · subst hname
        exact ⟨_, Jobs.get?_start_self _ _ _ _ _, Nat.le_of_lt (h.serial_lt worker hold)⟩
      · rw [Jobs.get?_start_of_ne _ hname]
        exact h.serial_le worker hold
    · exact ⟨_, Jobs.get?_start_self _ _ _ _ _, Nat.le_refl _⟩

/-- What one move of a request does to the jobs and the workers. -/
inductive Serves
    (shop : Workshop)
    (request : JobRequest)
    (next : Workshop)
    (move : JobMove) : Prop
  | kept
      (hquiet : Jobs.Quiet shop.jobs next.jobs)
      (hworkers : next.workers = shop.workers)
  | started
      (spec : JobSpec)
      (restartCount : Nat)
      (health : List HealthRecord)
      (hjobs : next.jobs = shop.jobs.start request.name spec restartCount health)
      (hmove : move = .done)
      (hended :
          ∀ job,
            shop.jobs.get? request.name = some job →
            job.state ≠ .running ∧ job.joinable = false)
      (hworkers : next.workers = shop.workers ++ [shop.hired request.name spec])

theorem Staffed.serves
    {shop : Workshop}
    (h : shop.Staffed)
    (caller : Caller)
    (request : JobRequest) :
    Serves shop request (shop.serve caller request).1
      (shop.serve caller request).2 := by
  have hserved := shop.served caller request
  have hworkers : (shop.serve caller request).1.workers = shop.workers ++
      (((shop.serve caller request).1.jobs.get? request.name).toList.filter fun job =>
        shop.jobs.issued ≤ job.serial).map fun job =>
          {serial := job.serial, name := request.name, spec := job.spec,
            since := shop.now} := rfl
  obtain hquiet | ⟨spec, restartCount, health, hjobs, hmove, hended⟩ :=
    hserved.quiet_or_starts
  · refine .kept hquiet ?_
    rw [hworkers]
    obtain ⟨-, hnone⟩ | ⟨old, changed, hold, hchanged, hserial, -, -⟩ :=
      hquiet.get? request.name
    · rw [hnone]
      exact List.append_nil _
    · have hlt := h.numbered.lt hold
      rw [hchanged, Option.toList_some, List.filter_cons_of_neg (by simp [hserial, hlt])]
      exact List.append_nil _
  · refine .started spec restartCount health hjobs hmove hended ?_
    rw [hworkers, hjobs, Jobs.get?_start_self, Option.toList_some,
      List.filter_cons_of_pos (by simp)]
    rfl

/-- A request leaves the staff in order. -/
theorem Staffed.serve
    {shop : Workshop}
    (h : shop.Staffed)
    (caller : Caller)
    (request : JobRequest) :
    (shop.serve caller request).1.Staffed := by
  cases h.serves caller request with
  | kept hquiet hworkers => exact h.quiet hquiet hworkers
  | started spec restartCount health hjobs hmove hended hworkers =>
      exact h.start (fun job hjob => (hended job hjob).1) hjobs hworkers

/-- A request dismisses no worker. -/
theorem Staffed.mem_serve
    {shop : Workshop}
    (h : shop.Staffed)
    (caller : Caller)
    (request : JobRequest)
    {worker : Worker}
    (hmem : worker ∈ shop.workers) :
    worker ∈ (shop.serve caller request).1.workers := by
  cases h.serves caller request with
  | kept hquiet hworkers => rwa [hworkers]
  | started spec restartCount health hjobs hmove hended hworkers =>
      rw [hworkers]
      exact List.mem_append_left _ hmem

/-- A worker ends its job, and has published it from then on. -/
theorem Staffed.publish
    {shop next : Workshop}
    (h : shop.Staffed)
    {worker : Worker}
    (hmem : worker ∈ shop.workers)
    {job changed : Job}
    (hjob : shop.jobs.get? worker.name = some job)
    (hown : job.serial = worker.serial)
    (hput : Jobs.Puts shop.jobs worker.name changed next.jobs)
    (hserial : changed.serial = job.serial)
    (hended : changed.state ≠ .running)
    {activity : Activity}
    (hclosed : activity.isOpen = false)
    (hnext : Engages { shop with jobs := next.jobs } worker activity next) :
    next.Staffed where
  numbered := hput.numbered h.numbered hjob hserial
  serial_lt other hother := by
    rw [hput.issued]
    rcases (hnext.mem_iff hmem).1 hother with rfl | ⟨hold, -⟩
    · exact h.serial_lt worker hmem
    · exact h.serial_lt other hold
  nodup := by
    rw [hnext.map_serial]
    exact h.nodup
  open_running other hother hopen := by
    rcases (hnext.mem_iff hmem).1 hother with rfl | ⟨hold, hne⟩
    · exact absurd hopen (Bool.eq_false_iff.1 hclosed)
    · obtain ⟨found, hfound, hrest⟩ := h.open_running other hold hopen
      have hname : worker.name ≠ other.name := by
        intro hname
        rw [hname, hfound, Option.some.injEq] at hjob
        exact hne (hrest.1.symm.trans (hjob ▸ hown))
      exact ⟨found, (hput.get?_of_ne hname).trans hfound, hrest⟩
  running_open {name found} hfound hrunning := by
    by_cases hname : worker.name = name
    · subst hname
      rw [hput.get?_self, Option.some.injEq] at hfound
      exact absurd (hfound ▸ hrunning) hended
    · rw [hput.get?_of_ne hname] at hfound
      obtain ⟨other, hother, hsame, hothername, hopen⟩ := h.running_open hfound hrunning
      refine ⟨other, (hnext.mem_iff hmem).2 (.inr ⟨hother, fun heq => hname ?_⟩),
        hsame, hothername, hopen⟩
      rw [← hothername, h.eq_of_serial_eq hother hmem heq]
  serial_le other hother := by
    have hle : ∀ old ∈ shop.workers, ∃ found, next.jobs.get? old.name = some found ∧
        old.serial ≤ found.serial := by
      intro old hold
      obtain ⟨found, hfound, hle⟩ := h.serial_le old hold
      by_cases hname : worker.name = old.name
      · rw [← hname, hjob, Option.some.injEq] at hfound
        rw [← hname]
        exact ⟨changed, hput.get?_self, by rwa [hserial, hfound]⟩
      · exact ⟨found, (hput.get?_of_ne hname).trans hfound, hle⟩
    rcases (hnext.mem_iff hmem).1 hother with rfl | ⟨hold, -⟩
    · exact hle worker hmem
    · exact hle other hold

/-- A worker that has published how its job ended can leave. -/
theorem Staffed.dismiss
    {shop next : Workshop}
    (h : shop.Staffed)
    {worker : Worker}
    (hmem : worker ∈ shop.workers)
    (hclosed : worker.activity.isOpen = false)
    (hjobs : next.jobs = shop.jobs)
    (hworkers :
        next.workers = shop.workers.filter fun other => other.serial ≠ worker.serial) :
    next.Staffed := by
  have hmem_iff :
      ∀ other,
        other ∈ next.workers ↔
          other ∈ shop.workers ∧ other.serial ≠ worker.serial := by
    simp [hworkers]
  constructor
  · rw [hjobs]
    exact h.numbered
  · rw [hjobs]
    exact fun other hother => h.serial_lt other ((hmem_iff other).1 hother).1
  · rw [hworkers]
    exact h.nodup.sublist (List.filter_sublist.map _)
  · rw [hjobs]
    exact fun other hother => h.open_running other ((hmem_iff other).1 hother).1
  · intro name job hjob hrunning
    rw [hjobs] at hjob
    obtain ⟨other, hother, hserial, hname, hopen⟩ := h.running_open hjob hrunning
    refine ⟨other, (hmem_iff other).2 ⟨hother, fun heq => ?_⟩, hserial, hname, hopen⟩
    rw [h.eq_of_serial_eq hother hmem heq, hclosed] at hopen
    cases hopen
  · rw [hjobs]
    exact fun other hother => h.serial_le other ((hmem_iff other).1 hother).1

/-- Whatever a worker does leaves the staff in order. -/
theorem Acts.staffed
    {shop next : Workshop}
    (h : shop.Staffed)
    {worker : Worker}
    (hmem : worker ∈ shop.workers)
    {steps : List Transaction}
    (hacts : Acts shop worker steps next) :
    next.Staffed := by
  cases hacts with
  | turned hnext hopen hasks hawaits => exact h.engage hmem hnext hopen
  | @asked request label status callbacks next hopen hasks hnext =>
      exact (h.serve _ request).engage (h.mem_serve _ request hmem) hnext hopen
  | @published ending status next hopen hended hname hnext =>
      obtain ⟨job, hjob, hserial, -, hrunning⟩ := h.open_running worker hmem hopen
      have hput :=
        Jobs.puts_publish hjob (Job.isRunning_iff.2 hrunning) ending.outcome shop.now
      rw [hserial] at hput
      have hjobs :
          next.jobs =
            shop.jobs.publish worker.serial worker.name ending.outcome shop.now :=
        hnext.jobs
      rw [← hjobs] at hput hnext
      have hclosed :
          (Activity.telling status (shop.callbacksFor status.state)).isOpen =
            false := by
        rw [Activity.isOpen, hended]
        rfl
      refine h.publish hmem hjob hserial hput rfl ?_ hclosed hnext
      simpa [JobState.isTerminal] using Job.isTerminal_publish job ending.outcome shop.now
  | ended hclosed hjobs hcallbacks hworkers => exact h.dismiss hmem hclosed hjobs hworkers

/-! ## What callbacks ask -/

section

variable {allowed : String → JobRequest → Prop}

theorem Asks.engage
    {shop next : Workshop}
    (h : shop.Asks allowed)
    {worker : Worker}
    (hmem : worker ∈ shop.workers)
    {activity : Activity}
    (hnext : Engages shop worker activity next)
    (hactivity : activity.Asks allowed worker.name) :
    next.Asks allowed where
  callbacks := by
    rw [hnext.callbacks]
    exact h.callbacks
  workers other hother := by
    rcases (hnext.mem_iff hmem).1 hother with rfl | ⟨hold, -⟩
    · exact hactivity
    · exact h.workers other hold

theorem Asks.serve
    {shop : Workshop}
    (h : shop.Asks allowed)
    (hstaffed : shop.Staffed)
    (caller : Caller)
    (request : JobRequest) :
    (shop.serve caller request).1.Asks allowed where
  callbacks := h.callbacks
  workers worker hmem := by
    cases hstaffed.serves caller request with
    | kept hquiet hworkers => exact h.workers worker (hworkers ▸ hmem)
    | started spec restartCount health hjobs hmove hended hworkers =>
        rw [hworkers, List.mem_append, List.mem_singleton] at hmem
        rcases hmem with hold | rfl
        · exact h.workers worker hold
        · exact trivial

/-- A worker that acts does not make the callbacks ask for more. -/
theorem Acts.asks
    {shop next : Workshop} {worker : Worker} {steps : List Transaction}
    (hacts : Acts shop worker steps next)
    (hstaffed : shop.Staffed)
    (hmem : worker ∈ shop.workers)
    (hclosed : ∀ name job, allowed name (.restart job) → allowed name (.resume job))
    (h : shop.Asks allowed) :
    next.Asks allowed := by
  cases hacts with
  | turned hnext hopen hasks hawaits => exact h.engage hmem hnext (hasks allowed h)
  | @asked request label status callbacks next hopen hasks hnext =>
      exact (h.serve hstaffed _ request).engage (hstaffed.mem_serve _ request hmem) hnext
        (hasks allowed hclosed h).2
  | @published ending status next hopen hended hname hnext =>
      have hmiddle : Asks allowed { shop with
          jobs := shop.jobs.publish worker.serial worker.name ending.outcome shop.now } :=
        ⟨h.callbacks, h.workers⟩
      exact hmiddle.engage hmem hnext ⟨hname, Asks.callbacksFor h.callbacks _⟩
  | ended hclosed hjobs hcallbacks hworkers =>
      refine ⟨hcallbacks ▸ h.callbacks, fun other hother => ?_⟩
      rw [hworkers] at hother
      exact h.workers other (List.mem_of_mem_filter hother)

end

end Workshop

end PhaseFlow
