import Mathlib.Data.List.Induction
import PhaseFlow.Proofs.Job.Transaction

/-!
# What becomes of a job

A job is running until its worker publishes how it ended; from then on it stays as it
ended, until another job takes its place under the name. Only a job that has ended is
replaced. The module follows the job of a name through any number of steps, taken by
anybody in any order.

* `Job.Coherent` says how the fields of a job go with its state (`coherent_after`).
* `Jobs.StopReached` says that a stop reached a job while it was running
  (`stopRequested_iff`).
* `Jobs.Continues` says what steps leave of a job (`continues_after`).
-/

namespace PhaseFlow

/-- How the fields of a job go with its state. -/
structure Job.Coherent (job : Job) : Prop where
  running_iff : job.state = .running ↔ job.finishedAt = none
  blank : job.state = .running → job.result = .null ∧ job.error = ""
  completed :
    job.state = .completed → job.result ≠ .null ∧ job.error = "" ∧ 1 ≤ job.attempts
  failed : job.state = .failed → job.result = .null
  stopped_iff :
    job.state ≠ .running → (job.state = .stopped ↔ job.stopRequestedAt.isSome = true)

namespace Job

theorem requestStop_of_running
    {job : Job}
    (h : job.isRunning = true)
    (time : Nat) :
    (job.requestStop time).stopRequestedAt.isSome = true := by
  rw [requestStop, if_pos h]
  cases job.stopRequestedAt <;> rfl

/-- A job that has ended takes no notice of being asked to stop. -/
theorem requestStop_of_ended
    {job : Job}
    (h : job.isRunning = false)
    (time : Nat) :
    job.requestStop time = job := by
  rw [requestStop, h, if_neg Bool.false_ne_true]

/-- Being asked to stop changes nothing that anybody may see. -/
@[simp] theorem toJobRecord_asked
    (job : Job)
    (caller : Caller)
    (time : Nat) :
    (job.asked caller time).toJobRecord = job.toJobRecord := by
  unfold asked requestStop
  split <;> split <;> rfl

@[simp] theorem serial_asked
    (job : Job)
    (caller : Caller)
    (time : Nat) :
    (job.asked caller time).serial = job.serial := by
  unfold asked requestStop
  split <;> split <;> rfl

@[simp] theorem spec_asked
    (job : Job)
    (caller : Caller)
    (time : Nat) :
    (job.asked caller time).spec = job.spec := by
  unfold asked requestStop
  split <;> split <;> rfl

/-- A worker that is joined stays joined. -/
theorem joinable_asked_of_joined
    {job : Job}
    (h : job.joinable = false)
    (caller : Caller)
    (time : Nat) :
    (job.asked caller time).joinable = false := by
  unfold asked requestStop
  split <;> split <;> first | rfl | exact h

theorem stopRequestedAt_asked
    (job : Job)
    (caller : Caller)
    (time : Nat) :
    (job.asked caller time).stopRequestedAt =
      (job.requestStop time).stopRequestedAt := by
  unfold asked
  split <;> rfl

/-- Two jobs agree in how they stand. -/
def SameEnd (job other : Job) : Prop :=
  other.state = job.state ∧ other.result = job.result ∧ other.error = job.error ∧
    other.attempts = job.attempts ∧ other.finishedAt = job.finishedAt

/-- Jobs with the same record end alike. -/
theorem SameEnd.of_record
    {job other : Job}
    (h : other.toJobRecord = job.toJobRecord) :
    SameEnd job other := by
  unfold SameEnd
  rw [h]
  exact ⟨rfl, rfl, rfl, rfl, rfl⟩

theorem SameEnd.trans
    {job middle other : Job}
    (h : SameEnd job middle)
    (h' : SameEnd middle other) :
    SameEnd job other :=
  ⟨h'.1.trans h.1, h'.2.1.trans h.2.1, h'.2.2.1.trans h.2.2.1, h'.2.2.2.1.trans h.2.2.2.1,
    h'.2.2.2.2.trans h.2.2.2.2⟩

/-! ## One step on one job -/

theorem Coherent.fresh
    (serial : Nat)
    (spec : JobSpec)
    (restartCount : Nat)
    (health : List HealthRecord) :
    Coherent
      { serial := serial
        spec := spec
        restartCount := restartCount
        health := health } where
  running_iff := ⟨fun _ => rfl, fun _ => rfl⟩
  blank _ := ⟨rfl, rfl⟩
  completed h := by cases h
  failed h := by cases h
  stopped_iff h := absurd rfl h

/-- The state counts, and of an ended job whether it was asked to stop. -/
theorem Coherent.of_same
    {job other : Job}
    (h : job.Coherent)
    (hsame : SameEnd job other)
    (hstop : job.state ≠ .running → other.stopRequestedAt = job.stopRequestedAt) :
    other.Coherent := by
  obtain ⟨hstate, hresult, herror, hattempts, hfinished⟩ := hsame
  constructor
  · rw [hstate, hfinished]
    exact h.running_iff
  · rw [hstate, hresult, herror]
    exact h.blank
  · rw [hstate, hresult, herror, hattempts]
    exact h.completed
  · rw [hstate, hresult]
    exact h.failed
  · rw [hstate]
    intro hended
    rw [hstop hended]
    exact h.stopped_iff hended

/-- A job stays coherent when it is asked to stop. -/
theorem Coherent.asked
    {job : Job}
    (h : job.Coherent)
    (caller : Caller)
    (time : Nat) :
    (job.asked caller time).Coherent := by
  refine h.of_same (.of_record (toJobRecord_asked job caller time)) fun hended => ?_
  rw [stopRequestedAt_asked, requestStop_of_ended (isRunning_eq_false_iff.2 hended)]

/-- A running job that publishes an end becomes coherent as an ended one. -/
theorem Coherent.publish
    {job : Job}
    (h : job.Coherent)
    (hrunning : job.state = .running)
    (ending : Ending)
    (time : Nat) :
    (job.publish ending.outcome time).Coherent := by
  obtain ⟨hresult, herror⟩ := h.blank hrunning
  cases hstop : job.stopRequestedAt with
  | none =>
      cases houtcome : ending.outcome with
      | ok done =>
          have hvalue := ending.output_ne_null houtcome
          have hattempts := ending.attempts_pos houtcome
          constructor <;>
            simp [Job.publish, JobRecord.finish, hstop, herror, hvalue, hattempts]
      | error failure =>
          constructor <;> simp [Job.publish, JobRecord.finish, hstop, hresult]
  | some moment =>
      cases houtcome : ending.outcome with
      | ok done => constructor <;> simp [Job.publish, JobRecord.finish, hstop]
      | error failure => constructor <;> simp [Job.publish, JobRecord.finish, hstop]

end Job

namespace Jobs

/-! ## The numbers of workers -/

/-- The workers of the jobs have numbers that were issued, each its own. -/
structure Numbered (jobs : Jobs) : Prop where
  lt : ∀ {name job}, jobs.get? name = some job → job.serial < jobs.issued
  name_eq :
    ∀ {name other job found},
      jobs.get? name = some job →
      jobs.get? other = some found →
      job.serial = found.serial →
      name = other

/-- Jobs stay numbered if each of them has the number of one that was there. -/
theorem Numbered.of_same
    {jobs next : Jobs}
    (h : jobs.Numbered)
    (hissued : jobs.issued = next.issued)
    (hold :
        ∀ {name job},
          next.get? name = some job →
          ∃ old, jobs.get? name = some old ∧ job.serial = old.serial) :
    next.Numbered where
  lt hjob := by
    obtain ⟨old, hfound, hserial⟩ := hold hjob
    rw [hserial, ← hissued]
    exact h.lt hfound
  name_eq hjob hfound hserial := by
    obtain ⟨old, hold', hserial'⟩ := hold hjob
    obtain ⟨other, hother, hserial''⟩ := hold hfound
    exact h.name_eq hold' hother (hserial'.symm.trans (hserial.trans hserial''))

theorem Puts.numbered
    {jobs next : Jobs} {name : String} {job changed : Job}
    (h : jobs.Numbered)
    (hfound : jobs.get? name = some job)
    (hput : Puts jobs name changed next)
    (hserial : changed.serial = job.serial) :
    next.Numbered := by
  refine h.of_same hput.issued.symm fun {other found} hother => ?_
  by_cases hname : name = other
  · subst hname
    rw [hput.get?_self, Option.some.injEq] at hother
    exact ⟨job, hfound, hother ▸ hserial⟩
  · exact ⟨found, (hput.get?_of_ne hname).symm.trans hother, rfl⟩

/-- A job that is started gets a number that no other job has. -/
theorem Numbered.start
    {jobs : Jobs}
    (h : jobs.Numbered)
    (name : String)
    (spec : JobSpec)
    (restartCount : Nat)
    (health : List HealthRecord) :
    (jobs.start name spec restartCount health).Numbered := by
  have hcases :
      ∀ {other found},
        (jobs.start name spec restartCount health).get? other = some found →
        (name = other ∧ found.serial = jobs.issued) ∨
        jobs.get? other = some found := by
    intro other found hother
    by_cases hname : name = other
    · subst hname
      rw [get?_start_self, Option.some.injEq] at hother
      exact .inl ⟨rfl, hother ▸ rfl⟩
    · exact .inr ((get?_start_of_ne jobs hname _ _ _).symm.trans hother)
  constructor
  · intro other found hother
    show found.serial < jobs.issued + 1
    rcases hcases hother with ⟨-, hserial⟩ | hold
    · exact Nat.lt_succ_of_le (Nat.le_of_eq hserial)
    · exact Nat.lt_succ_of_lt (h.lt hold)
  · intro other another found job hfound hjob hserial
    rcases hcases hfound with ⟨rfl, hissued⟩ | hfound
    · rcases hcases hjob with ⟨hname, -⟩ | hjob
      · exact hname
      · exact absurd (hserial.symm.trans hissued) (Nat.ne_of_lt (h.lt hjob))
    · rcases hcases hjob with ⟨rfl, hissued⟩ | hjob
      · exact absurd (hserial.trans hissued) (Nat.ne_of_lt (h.lt hfound))
      · exact h.name_eq hfound hjob hserial

theorem Numbered.modify
    {jobs : Jobs}
    (h : jobs.Numbered)
    (name : String)
    {change : Job → Job}
    (hserial : ∀ job, (change job).serial = job.serial) :
    (jobs.modify name change).Numbered := by
  refine h.of_same rfl fun {other found} hother => ?_
  rw [get?_modify] at hother
  split at hother
  · next hname =>
      obtain ⟨job, hjob, rfl⟩ := Option.map_eq_some_iff.1 hother
      exact ⟨job, hname ▸ hjob, hserial job⟩
  · exact ⟨found, hother, rfl⟩

/-- One move of a request keeps the jobs numbered. -/
theorem Served.numbered
    {jobs next : Jobs} {caller : Caller} {time : Nat} {request : JobRequest}
    {move : JobMove}
    (hserved : Served jobs caller time request next move)
    (h : jobs.Numbered) :
    next.Numbered := by
  cases hserved with
  | refused => exact h
  | stopped hfound hnext => exact hnext.numbered h hfound (Job.serial_asked _ _ _)
  | restarting hfound hnext => exact hnext.numbered h hfound (Job.serial_asked _ _ _)
  | joined hstarts hfound hended hjoins hnext => exact hnext.numbered h hfound rfl
  | ran hname hfree => exact h.start _ _ _ _
  | resumed hfound hended hfree => exact h.start _ _ _ _

theorem Numbered.perform
    {jobs : Jobs}
    (h : jobs.Numbered)
    (step : Transaction) :
    (jobs.perform step).Numbered := by
  cases step with
  | serve caller time request => exact (served_serve jobs caller time request).numbered h
  | publish serial name ending time =>
      refine h.modify name fun job => ?_
      split <;> rfl
  | record name entry => exact h.modify name fun job => rfl

theorem numbered_empty : Jobs.empty.Numbered where
  lt h := by cases h
  name_eq h := by cases h

/-- Steps keep the jobs numbered. -/
theorem Numbered.after
    {jobs : Jobs}
    (h : jobs.Numbered)
    (history : List Transaction) :
    (jobs.after history).Numbered := by
  induction history generalizing jobs with
  | nil => exact h
  | cons step rest ih => exact ih (h.perform step)

/-! ## Invariants of jobs -/

/-- One step keeps every job coherent. -/
theorem coherent_perform
    {jobs : Jobs}
    (h : ∀ name job, jobs.get? name = some job → job.Coherent)
    (step : Transaction)
    (name : String)
    (job : Job)
    (hjob : (jobs.perform step).get? name = some job) :
    job.Coherent := by
  have hchange := change_perform jobs name step
  rw [hjob] at hchange
  generalize jobs.booked name step = booking at hchange
  generalize hresult : some job = result at hchange
  cases hchange with
  | kept => exact h name job hresult.symm
  | @asked caller time request old hstops hname hfound =>
      cases hresult
      exact (h name old hfound).asked caller time
  | @joined caller time request old hstarts hfound hended =>
      cases hresult
      exact (h name old hfound).of_same (.of_record rfl) fun _ => rfl
  | ran hfree =>
      cases hresult
      exact .fresh _ _ _ _
  | resumed hfound hended hfree =>
      cases hresult
      exact .fresh _ _ _ _
  | @published serial ending time old hfound hserial hrunning =>
      cases hresult
      exact (h name old hfound).publish (Job.isRunning_iff.1 hrunning) ending time
  | @noted entry old hfound =>
      cases hresult
      exact (h name old hfound).of_same ⟨rfl, rfl, rfl, rfl, rfl⟩ fun _ => rfl

/-- **The fields of every job go with its state**, whatever has happened to the jobs. -/
theorem coherent_after
    (history : List Transaction) :
    ∀ name job, (Jobs.empty.after history).get? name = some job → job.Coherent := by
  induction history using List.reverseRecOn with
  | nil =>
      intro name job h
      cases h
  | append_singleton before step ih =>
      rw [after_snoc]
      exact coherent_perform ih step

/-! ## Stops -/

theorem Served.issued_le
    {jobs next : Jobs} {caller : Caller} {time : Nat} {request : JobRequest}
    {move : JobMove}
    (h : Served jobs caller time request next move) :
    jobs.issued ≤ next.issued := by
  cases h with
  | refused => exact Nat.le_refl _
  | stopped hfound hnext => exact Nat.le_of_eq hnext.issued.symm
  | restarting hfound hnext => exact Nat.le_of_eq hnext.issued.symm
  | joined hstarts hfound hended hjoins hnext => exact Nat.le_of_eq hnext.issued.symm
  | ran hname hfree => exact Nat.le_succ _
  | resumed hfound hended hfree => exact Nat.le_succ _

theorem issued_le_perform
    (jobs : Jobs)
    (step : Transaction) :
    jobs.issued ≤ (jobs.perform step).issued := by
  cases step with
  | serve caller time request => exact (served_serve jobs caller time request).issued_le
  | publish serial name ending time => exact Nat.le_refl _
  | record name entry => exact Nat.le_refl _

/-- Numbers are never taken back. -/
theorem issued_le_after
    (jobs : Jobs)
    (history : List Transaction) :
    jobs.issued ≤ (jobs.after history).issued := by
  induction history generalizing jobs with
  | nil => exact Nat.le_refl _
  | cons step rest ih => exact Nat.le_trans (issued_le_perform jobs step) (ih _)

/-- A stop reached the job of a number while it was running. -/
def StopReached
    (history : List Transaction)
    (name : String)
    (serial : Nat) :
    Prop :=
  ∃ before step later job, history = before ++ step :: later ∧ step.asksToStop name = true ∧
    (Jobs.empty.after before).get? name = some job ∧ job.serial = serial ∧ job.state =
      .running

/-- The last step reaches a worker if it asks the running job of this worker to stop. -/
theorem stopReached_snoc
    {history : List Transaction} {step : Transaction} {name : String}
    {serial : Nat} :
    StopReached (history ++ [step]) name serial ↔
      StopReached history name serial ∨
      (step.asksToStop name = true ∧
        ∃ job,
          (Jobs.empty.after history).get? name = some job ∧
          job.serial = serial ∧
          job.state = .running) := by
  constructor
  · rintro ⟨before, asking, later, job, heq, hasks, hjob⟩
    rcases List.eq_nil_or_concat later with rfl | ⟨rest, last, rfl⟩
    · obtain ⟨rfl, hstep⟩ := List.append_inj' heq rfl
      cases hstep
      exact .inr ⟨hasks, job, hjob⟩
    · rw [List.concat_eq_append, ← List.cons_append, ← List.append_assoc] at heq
      obtain ⟨rfl, -⟩ := List.append_inj' heq rfl
      exact .inl ⟨before, asking, rest, job, rfl, hasks, hjob⟩
  · rintro (⟨before, asking, later, job, rfl, hasks, hjob⟩ | ⟨hasks, job, hjob⟩)
    · exact ⟨before, asking, later ++ [step], job, by simp, hasks, hjob⟩
    · exact ⟨history, step, [], job, rfl, hasks, hjob⟩

/-- Only workers that were started are reached. -/
theorem StopReached.serial_lt
    {history : List Transaction} {name : String} {serial : Nat}
    (h : StopReached history name serial) :
    serial < (Jobs.empty.after history).issued := by
  obtain ⟨before, step, later, job, rfl, -, hjob, rfl, -⟩ := h
  have hlt := (numbered_empty.after before).lt hjob
  rw [after_append]
  exact Nat.lt_of_lt_of_le hlt (issued_le_after _ _)

/-- A step that asks no running job to stop reaches nobody. -/
theorem stopReached_snoc_of_quiet
    {history : List Transaction} {step : Transaction} {name : String}
    (h :
        step.asksToStop name = true →
        ∀ job,
          (Jobs.empty.after history).get? name = some job → job.isRunning = false)
    {serial : Nat} :
    StopReached (history ++ [step]) name serial ↔
      StopReached history name serial := by
  rw [stopReached_snoc]
  refine or_iff_left ?_
  rintro ⟨hasks, job, hjob, -, hrunning⟩
  exact Job.isRunning_eq_false_iff.1 (h hasks job hjob) hrunning

/-- No stop has reached a job that is only now started. -/
theorem not_stopReached_issued
    {history : List Transaction} {step : Transaction} {name : String}
    (h : step.asksToStop name = false) :
    ¬ StopReached (history ++ [step]) name (Jobs.empty.after history).issued := by
  rw [stopReached_snoc_of_quiet fun hasks => absurd (h.symm.trans hasks) Bool.false_ne_true]
  exact fun hbefore => absurd hbefore.serial_lt (Nat.lt_irrefl _)

/-- **A job knows whether a stop reached it while it was running.** -/
theorem stopRequested_iff
    (history : List Transaction)
    {name : String} {job : Job}
    (hjob : (Jobs.empty.after history).get? name = some job) :
    job.stopRequestedAt.isSome = true ↔ StopReached history name job.serial := by
  induction history using List.reverseRecOn generalizing job with
  | nil => cases hjob
  | append_singleton before step ih =>
      rw [after_snoc] at hjob
      have hchange := change_perform (Jobs.empty.after before) name step
      rw [hjob] at hchange
      generalize (Jobs.empty.after before).booked name step = booking at hchange
      generalize hresult : some job = result at hchange
      -- Only a request to stop can reach the job; it leaves its mark if the job is running.
      cases hchange with
      | kept hquiet => rw [stopReached_snoc_of_quiet hquiet, ih hresult.symm]
      | @asked caller time request old hstops hname hfound =>
          cases hresult
          rw [Job.stopRequestedAt_asked, Job.serial_asked]
          cases hrunning : old.isRunning with
          | true =>
              have hasks :
                  (Transaction.serve caller time request).asksToStop name = true := by
                simp [Transaction.asksToStop, hstops, hname]
              rw [Job.requestStop_of_running hrunning, stopReached_snoc]
              exact iff_of_true rfl
                (.inr ⟨hasks, old, hfound, rfl, Job.isRunning_iff.1 hrunning⟩)
          | false =>
              rw [Job.requestStop_of_ended hrunning, ih hfound]
              refine (stopReached_snoc_of_quiet fun _ other hother => ?_).symm
              exact Option.some.inj (hfound.symm.trans hother) ▸ hrunning
      | @joined caller time request old hstarts hfound hended =>
          cases hresult
          refine (ih hfound).trans (stopReached_snoc_of_quiet fun _ other hother => ?_).symm
          exact Option.some.inj (hfound.symm.trans hother) ▸ hended
      | ran hfree =>
          cases hresult
          exact iff_of_false Bool.false_ne_true (not_stopReached_issued rfl)
      | resumed hfound hended hfree =>
          cases hresult
          exact iff_of_false Bool.false_ne_true (not_stopReached_issued rfl)
      | @published serial ending time old hfound hserial hrunning =>
          cases hresult
          exact (ih hfound).trans
            (stopReached_snoc_of_quiet fun hasks => by cases hasks).symm
      | @noted entry old hfound =>
          cases hresult
          exact (ih hfound).trans
            (stopReached_snoc_of_quiet fun hasks => by cases hasks).symm

/-! ## What steps leave of a job -/

/-- The book of a name: what the steps enter into it, in order. -/
def bookings (name : String) : Jobs → List Transaction → List Booking
  | _, [] => []
  | jobs, step :: rest =>
      (jobs.booked name step).toList ++ bookings name (jobs.perform step) rest

/-- The book goes on from the jobs as the first steps leave them. -/
theorem bookings_append
    (name : String)
    (jobs : Jobs)
    (before later : List Transaction) :
    bookings name jobs (before ++ later) =
      bookings name jobs before ++ bookings name (jobs.after before) later := by
  induction before generalizing jobs with
  | nil => rfl
  | cons step rest ih =>
      rw [List.cons_append, bookings, ih, bookings, List.append_assoc]
      rfl

theorem bookings_snoc
    (name : String)
    (jobs : Jobs)
    (before : List Transaction)
    (step : Transaction) :
    bookings name jobs (before ++ [step]) =
      bookings name jobs before ++ ((jobs.after before).booked name step).toList := by
  rw [bookings_append, bookings, bookings, List.append_nil]

/-- A later stage of the same job; a job that has ended stays as it ended. -/
structure Continues (job next : Job) : Prop where
  serial : next.serial = job.serial
  spec : next.spec = job.spec
  restartCount : next.restartCount = job.restartCount
  joined : job.joinable = false → next.joinable = false
  stays : job.state ≠ .running → Job.SameEnd job next

theorem Continues.refl (job : Job) : Continues job job :=
  ⟨rfl, rfl, rfl, id, fun _ => .of_record rfl⟩

/-- A later stage of a later stage is a later stage. -/
theorem Continues.trans
    {job middle next : Job}
    (h : Continues job middle)
    (h' : Continues middle next) :
    Continues job next where
  serial := h'.serial.trans h.serial
  spec := h'.spec.trans h.spec
  restartCount := h'.restartCount.trans h.restartCount
  joined := h'.joined ∘ h.joined
  stays hended := by
    have hsame := h.stays hended
    exact hsame.trans (h'.stays (by rwa [hsame.1]))

/-- **One step leaves a job in its place**, unless the job has ended and the step starts
another one. -/
theorem Change.continues
    {jobs : Jobs} {name : String} {step : Transaction}
    {booking : Option Booking} {found : Option Job}
    (h : Change jobs name step booking found)
    {job : Job}
    (hjob : jobs.get? name = some job) :
    ∃ next,
      found = some next ∧
      (Continues job next ∨
        (job.state ≠ .running ∧
          next.serial = jobs.issued ∧
          ∃ entry, booking = some entry ∧ entry.starts = true)) := by
  cases h with
  | kept => exact ⟨job, hjob, .inl (.refl job)⟩
  | @asked caller time request old hstops hname hfound =>
      obtain rfl := Option.some.inj (hfound.symm.trans hjob)
      refine ⟨_, rfl, .inl ⟨Job.serial_asked _ _ _, Job.spec_asked _ _ _, ?_,
        fun hjoined => Job.joinable_asked_of_joined hjoined _ _, fun _ => ?_⟩⟩
      · rw [Job.toJobRecord_asked]
      · exact .of_record (Job.toJobRecord_asked _ _ _)
  | @joined caller time request old hstarts hfound hended =>
      obtain rfl := Option.some.inj (hfound.symm.trans hjob)
      exact ⟨_, rfl, .inl ⟨rfl, rfl, rfl, fun _ => rfl, fun _ => .of_record rfl⟩⟩
  | ran hfree =>
      exact ⟨_, rfl,
        .inr ⟨Job.isRunning_eq_false_iff.1 (hfree job hjob).1, rfl, _, rfl, rfl⟩⟩
  | @resumed caller time old hfound hended hfree =>
      obtain rfl := Option.some.inj (hfound.symm.trans hjob)
      exact ⟨_, rfl, .inr ⟨Job.isRunning_eq_false_iff.1 hended, rfl, _, rfl, rfl⟩⟩
  | @published serial ending time old hfound hserial hrunning =>
      obtain rfl := Option.some.inj (hfound.symm.trans hjob)
      refine ⟨_, rfl, .inl ⟨rfl, rfl, ?_, id, fun hended => ?_⟩⟩
      · unfold Job.publish JobRecord.finish
        split <;> rfl
      · exact absurd (Job.isRunning_iff.1 hrunning) hended
  | @noted entry old hfound =>
      obtain rfl := Option.some.inj (hfound.symm.trans hjob)
      exact ⟨_, rfl, .inl ⟨rfl, rfl, rfl, id, fun _ => ⟨rfl, rfl, rfl, rfl, rfl⟩⟩⟩

/-- **Steps leave a job in its place**, unless they start another one. -/
theorem continues_after
    {jobs : Jobs}
    (hnumbered : jobs.Numbered)
    {name : String} {job : Job}
    (hjob : jobs.get? name = some job)
    (later : List Transaction) :
    ∃ next,
      (jobs.after later).get? name = some next ∧
      (Continues job next ∨
        (job.serial < next.serial ∧
          ∃ entry ∈ bookings name jobs later, entry.starts = true)) := by
  induction later using List.reverseRecOn with
  | nil => exact ⟨job, hjob, .inl (.refl job)⟩
  | append_singleton before step ih =>
      obtain ⟨middle, hmiddle, hbefore⟩ := ih
      obtain ⟨next, hnext, hstep⟩ :=
        (change_perform (jobs.after before) name step).continues hmiddle
      rw [after_snoc, bookings_snoc]
      refine ⟨next, hnext, ?_⟩
      have hlt := (hnumbered.after before).lt hmiddle
      rcases hbefore with hsame | ⟨hserial, entry, hentry, hstarts⟩
      · rcases hstep with hcontinues | ⟨-, hserial, entry, hbooked, hstarts⟩
        · exact .inl (hsame.trans hcontinues)
        · refine .inr ⟨?_, entry, ?_, hstarts⟩
          · rw [hserial, ← hsame.serial]
            exact hlt
          · rw [hbooked]
            exact List.mem_append_right _ (List.mem_singleton.2 rfl)
      · refine .inr ⟨Nat.lt_of_lt_of_le hserial ?_, entry,
          List.mem_append_left _ hentry, hstarts⟩
        rcases hstep with hcontinues | ⟨-, hissued, -⟩
        · exact Nat.le_of_eq hcontinues.serial.symm
        · rw [hissued]
          exact Nat.le_of_lt hlt

end Jobs

end PhaseFlow
