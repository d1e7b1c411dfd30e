import PhaseFlow.Proofs.Job.Joining

/-!
# The life of a job

One caller makes requests, health checks are recorded, and the workers act, in any
order. The main statement follows every job through all that can happen. A job is
running until its worker publishes how it ended, and stays as it ended; only a job that
has ended is replaced, and only by a run or a restart. A call to stop a job returns once
its worker has ended.
-/

namespace PhaseFlow

/-- How a job stands after some steps. -/
structure Job.Stands
    (job : Job)
    (name : String)
    (history : List Transaction) : Prop where
  running_iff : job.state = .running ↔ job.finishedAt = none
  completed :
    job.state = .completed → job.result ≠ .null ∧ job.error = "" ∧ 1 ≤ job.attempts
  failed : job.state = .failed → job.result = .null
  stopped_iff : job.state ≠ .running →
    (job.state = .stopped ↔ Jobs.StopReached history name job.serial)

namespace Site

theorem Reached.stands
    {defaults : RetryPolicy} {history : List Transaction} {site : Site}
    (h : Reached defaults history site)
    {name : String} {job : Job}
    (hjob : site.shop.jobs.get? name = some job) :
    job.Stands name history := by
  rw [h.jobs] at hjob
  have hcoherent := Jobs.coherent_after history name job hjob
  exact ⟨hcoherent.running_iff, hcoherent.completed, hcoherent.failed, fun hended =>
    (hcoherent.stopped_iff hended).trans (Jobs.stopRequested_iff history hjob)⟩

/-- A worker that has not published an end is the worker of the job of its name. -/
theorem eq_of_open
    {shop : Workshop}
    (h : shop.Staffed)
    {worker other : Worker}
    (hworker : worker ∈ shop.workers)
    (hother : other ∈ shop.workers)
    (hname : worker.name = other.name)
    (hopen : worker.activity.isOpen = true)
    (hopen' : other.activity.isOpen = true) :
    worker = other := by
  obtain ⟨job, hjob, hserial, -⟩ := h.open_running worker hworker hopen
  obtain ⟨found, hfound, hserial', -⟩ := h.open_running other hother hopen'
  rw [hname] at hjob
  obtain rfl := Option.some.inj (hjob.symm.trans hfound)
  exact h.eq_of_serial_eq hworker hother (hserial.symm.trans hserial')

/-- No step replaces a running job. -/
theorem Step.keeps_running
    {site next : Site} {steps : List Transaction}
    (h : Step site steps next)
    (hstaffed : site.shop.Staffed)
    {name : String} {job : Job}
    (hjob : site.shop.jobs.get? name = some job)
    (hrunning : job.state = .running) :
    ∃ found, next.shop.jobs.get? name = some found ∧ found.serial = job.serial := by
  rw [h.jobs hstaffed]
  rcases h.steps_cases with rfl | ⟨step, rfl⟩
  · exact ⟨job, hjob, rfl⟩
  · obtain ⟨found, hfound, hcontinues | ⟨hended, -⟩⟩ :=
      (Jobs.change_perform site.shop.jobs name step).continues hjob
    · exact ⟨found, hfound, hcontinues.serial⟩
    · exact absurd hrunning hended

/-- A call to stop a job that can return has ended the worker of the job. -/
theorem Reached.stopped
    {defaults : RetryPolicy} {history : List Transaction} {site : Site}
    (h : Reached defaults history site)
    {name : String} {errand : Errand} {after : Option Nat}
    (herrand : site.errand = some errand)
    (hrequest : errand.request = .stop name)
    (hmove : errand.move = .answer after (.ok (.acted true)))
    (hended : site.shop.hasEnded after = true) :
    ∃ serial job,
      errand.found = some serial ∧
      site.shop.jobs.get? name = some job ∧
      (∀ worker ∈ site.shop.workers, worker.serial ≠ serial) ∧
      serial ≤ job.serial ∧
      (job.serial = serial → job.state ≠ .running) ∧
      ((∀ callback ∈ site.shop.callbacks, callback.request = none) →
        job.serial = serial) := by
  have hstopping := h.stopping name errand herrand hrequest
  obtain ⟨serial, hfound, ⟨job, hjob, hle⟩, hgone, hsame⟩ :=
    hstopping.stops (by rw [hmove]; rfl)
  have hnobody : ∀ worker ∈ site.shop.workers, worker.serial ≠ serial := by
    rcases hgone with hjoins | hgone
    · intro worker hmem heq
      rw [hmove] at hjoins
      exact Workshop.hasEnded_iff.1 hended worker hmem (heq ▸ hjoins)
    · exact hgone
  refine ⟨serial, job, hfound, hjob, hnobody, hle, fun hserial hrunning => ?_,
    fun hsilent => ?_⟩
  · obtain ⟨worker, hmem, hown, -⟩ := h.staffed.running_open hjob hrunning
    exact hnobody worker hmem (hown.trans hserial)
  · obtain ⟨found, hfound', hserial⟩ := hsame hsilent
    obtain rfl := Option.some.inj (hjob.symm.trans hfound')
    exact hserial

/-- How the jobs of a site live that some steps have led to. When a call to stop a job
can return true, the worker of this job has ended, and the job with it; another job can
have taken its place only if a callback has asked for it. -/
structure Lawful (history : List Transaction) (site : Site) : Prop where
  stands : ∀ name job, site.shop.jobs.get? name = some job → job.Stands name history
  stays :
    ∀ later next,
      Leads site later next →
      ∀ name job,
        site.shop.jobs.get? name = some job →
        ∃ found,
          next.shop.jobs.get? name = some found ∧
          ((found.serial = job.serial ∧
              (job.state ≠ .running → job.SameEnd found)) ∨
            (job.serial < found.serial ∧
              ∃ entry ∈ Jobs.bookings name site.shop.jobs later, entry.starts = true))
  keeps_running : ∀ steps next, Step site steps next → ∀ name job,
    site.shop.jobs.get? name = some job → job.state = .running →
      ∃ found, next.shop.jobs.get? name = some found ∧ found.serial = job.serial
  one_open :
    ∀ worker ∈ site.shop.workers,
      ∀ other ∈ site.shop.workers,
        worker.name = other.name →
        worker.activity.isOpen = true →
        other.activity.isOpen = true →
        worker = other
  stopped :
    ∀ name errand after,
      site.errand = some errand →
      errand.request = .stop name →
      errand.move = .answer after (.ok (.acted true)) →
      site.shop.hasEnded after = true →
      ∃ serial job,
        errand.found = some serial ∧
        site.shop.jobs.get? name = some job ∧
        (∀ worker ∈ site.shop.workers, worker.serial ≠ serial) ∧
        serial ≤ job.serial ∧
        (job.serial = serial → job.state ≠ .running) ∧
        ((∀ callback ∈ site.shop.callbacks, callback.request = none) →
          job.serial = serial)

/-- **Jobs live lawfully**, in whatever order the caller and the workers take their
steps. -/
theorem reached_site_lawful
    {defaults : RetryPolicy} {history : List Transaction} {site : Site}
    (h : Reached defaults history site) :
    site.Lawful history where
  stands _ _ := h.stands
  stays later next hleads name job hjob := by
    rw [hleads.jobs h.staffed]
    obtain ⟨found, hfound, hcontinues | hreplaced⟩ :=
      Jobs.continues_after h.staffed.numbered hjob later
    · exact ⟨found, hfound, .inl ⟨hcontinues.serial, hcontinues.stays⟩⟩
    · exact ⟨found, hfound, .inr hreplaced⟩
  keeps_running _ _ hstep _ _ := hstep.keeps_running h.staffed
  one_open _ hworker _ hother := eq_of_open h.staffed hworker hother
  stopped _ _ _ := h.stopped

/-! A job that is run and then stopped by the caller. -/

/-- The first worker acts. -/
def turn (site : Site) : Site :=
  { site with shop := (site.shop.workers.head?.map site.shop.act).getD site.shop }

theorem Leads.turn
    {start site : Site} {history : List Transaction}
    (h : Leads start history site)
    {worker : Worker}
    (hfirst : site.shop.workers.head? = some worker)
    (hfree : site.shop.isFree worker = true) :
    Leads start (history ++ site.shop.stepsOf worker) site.turn := by
  have hturn : site.turn = { site with shop := site.shop.act worker } := by
    rw [Site.turn, hfirst]
    rfl
  rw [hturn]
  exact h.step (.acted (List.mem_of_mem_head? hfirst) hfree)

/-- The site where a job executes. -/
def pinging : Site :=
  turn (turn ⟨((Workshop.ofDefaults {}).serve .outside (.run "ping" {})).1, none⟩)

/-- The site where the worker of the job has ended after a call to stop it. -/
def silenced : Site :=
  turn (turn ⟨(pinging.shop.serve .outside (.stop "ping")).1,
    some ⟨.stop "ping", (pinging.shop.jobs.get? "ping").map Job.serial,
      (pinging.shop.serve .outside (.stop "ping")).2⟩⟩)

theorem reached_silenced : ∃ history, Reached {} history silenced := by
  have hrun : Reached {} _ _ := Leads.here.step (.called (.run "ping" {}))
  have hrunning : Reached {} _ _ := hrun.step (.returned rfl rfl)
  have htold : Reached {} _ _ := hrunning.turn rfl rfl
  have hpinging : Reached {} _ pinging := htold.turn rfl rfl
  have hasked : Reached {} _ _ := hpinging.step (.called (.stop "ping"))
  have hpublished : Reached {} _ _ := hasked.turn rfl rfl
  exact ⟨_, hpublished.turn rfl rfl⟩

theorem reached_site_lawful_silenced :
    ∃ history,
      Reached {} history silenced ∧
      silenced.Lawful history ∧
      silenced.errand.map (fun errand => errand.request) = some (.stop "ping") ∧
      (silenced.shop.jobs.get? "ping").map (fun job => job.state) =
        some .stopped := by
  obtain ⟨history, hreached⟩ := reached_silenced
  exact ⟨history, hreached, reached_site_lawful hreached, rfl, rfl⟩

end Site

end PhaseFlow
