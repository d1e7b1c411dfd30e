import Mathlib.Data.List.TakeWhile
import PhaseFlow.Proofs.Job.Lifecycle

/-!
# What survives the replacement of a job

A job is replaced by every run and restart of its name, but what is kept under the name
goes on: the health history over all replacements, the number of restarts since the last
run, and what was run last. The book of a name lists what was accepted under it, and the
job of the name can be read off its book.

* `Jobs.KeptBy` says what of a job stands in the book (`keptBy_after`).
* A name that was never run has an empty book, and requests about it change nothing
  (`Workshop.Ignores`).
-/

namespace PhaseFlow

namespace Booking

/-- The health check that was recorded. -/
def entry? : Booking → Option HealthRecord
  | noted entry => some entry
  | _ => none

/-- What was run. -/
def spec? : Booking → Option JobSpec
  | ran spec => some spec
  | _ => none

/-- Whether the job was restarted. -/
def isRestart : Booking → Bool
  | restarted => true
  | _ => false

/-- The health checks in a book, oldest first. -/
def entriesIn (book : List Booking) : List HealthRecord :=
  book.filterMap entry?

/-- What was run last. -/
def lastRun? (book : List Booking) : Option JobSpec :=
  (book.filterMap spec?).getLast?

/-- The number of restarts since the last run. -/
def restartsIn (book : List Booking) : Nat :=
  (book.reverse.takeWhile fun booking => booking.spec?.isNone).countP isRestart

theorem entriesIn_snoc
    (book : List Booking)
    (booking : Booking) :
    entriesIn (book ++ [booking]) = entriesIn book ++ booking.entry?.toList := by
  rw [entriesIn, List.filterMap_append]
  cases booking <;> rfl

@[simp] theorem lastRun?_ran
    (book : List Booking)
    (spec : JobSpec) :
    lastRun? (book ++ [ran spec]) = some spec := by
  simp [lastRun?, spec?]

/-- A restart does not change what was run last. -/
@[simp] theorem lastRun?_restarted
    (book : List Booking) :
    lastRun? (book ++ [restarted]) = lastRun? book := by
  simp [lastRun?, spec?]

@[simp] theorem lastRun?_noted
    (book : List Booking)
    (entry : HealthRecord) :
    lastRun? (book ++ [noted entry]) = lastRun? book := by
  simp [lastRun?, spec?]

/-- A run starts the count of restarts anew. -/
@[simp] theorem restartsIn_ran
    (book : List Booking)
    (spec : JobSpec) :
    restartsIn (book ++ [ran spec]) = 0 := by
  simp [restartsIn, spec?]

@[simp] theorem restartsIn_restarted
    (book : List Booking) :
    restartsIn (book ++ [restarted]) = restartsIn book + 1 := by
  rw [restartsIn, List.reverse_concat, List.takeWhile_cons_of_pos rfl,
    List.countP_cons_of_pos rfl]
  rfl

@[simp] theorem restartsIn_noted
    (book : List Booking)
    (entry : HealthRecord) :
    restartsIn (book ++ [noted entry]) = restartsIn book := by
  simp [restartsIn, spec?, isRestart]

end Booking

/-- To cut a history earlier makes no difference to what is kept of it in the end. -/
theorem JobRecord.latest_latest_append
    (history : List HealthRecord)
    (entry : HealthRecord) :
    latest (latest history ++ [entry]) = latest (history ++ [entry]) := by
  have hdrop : latest history ++ [entry] =
      (history ++ [entry]).drop (history.length - historyLimit) :=
    (List.drop_append_of_le_length (Nat.sub_le _ _)).symm
  rw [hdrop, latest, latest, List.drop_drop, List.length_drop, List.length_append,
    List.length_singleton]
  generalize historyLimit = limit
  refine congrArg (fun count => List.drop count _) ?_
  omega

/-- What a book says about the job of its name. -/
structure Job.KeptBy (job : Job) (book : List Booking) : Prop where
  health : job.health = JobRecord.latest (Booking.entriesIn book)
  restartCount : job.restartCount = Booking.restartsIn book
  spec : Booking.lastRun? book = some job.spec

/-- A job is kept by a book as soon as its health history, its restarts and what it runs
are. -/
theorem Job.KeptBy.of_same
    {job other : Job} {book : List Booking}
    (h : job.KeptBy book)
    (hhealth : other.health = job.health)
    (hcount : other.restartCount = job.restartCount)
    (hspec : other.spec = job.spec) :
    other.KeptBy book :=
  ⟨hhealth.trans h.health, hcount.trans h.restartCount, h.spec.trans (hspec ▸ rfl)⟩

/-- A restart takes the health history along and counts one more. -/
theorem Job.KeptBy.restarted
    {job : Job} {book : List Booking}
    (h : job.KeptBy book)
    (serial : Nat) :
    Job.KeptBy
      { serial := serial
        spec := job.spec
        restartCount := job.restartCount + 1
        health := job.health }
      (book ++ [.restarted]) where
  health := by
    rw [Booking.entriesIn_snoc]
    simpa [Booking.entry?] using h.health
  restartCount := by rw [Booking.restartsIn_restarted, ← h.restartCount]
  spec := by rw [Booking.lastRun?_restarted, h.spec]

/-- A health check that is recorded is the latest one in the book. -/
theorem Job.KeptBy.noted
    {job : Job} {book : List Booking}
    (h : job.KeptBy book)
    (entry : HealthRecord) :
    (job.noteHealth entry).KeptBy (book ++ [.noted entry]) where
  health := by
    rw [Booking.entriesIn_snoc]
    show JobRecord.latest (job.health ++ [entry]) = _
    rw [h.health, JobRecord.latest_latest_append]
    rfl
  restartCount := by
    rw [Booking.restartsIn_noted, ← h.restartCount]
    rfl
  spec := by
    rw [Booking.lastRun?_noted, h.spec]
    rfl

namespace Jobs

/-- The job of a name is as the book of the name says; without a job the book is
empty. -/
def KeptBy (jobs : Jobs) (name : String) (book : List Booking) : Prop :=
  (jobs.get? name = none → book = []) ∧ ∀ job, jobs.get? name = some job → job.KeptBy book

theorem KeptBy.health
    {jobs : Jobs} {name : String} {book : List Booking}
    (h : jobs.KeptBy name book) :
    jobs.healthOf name = JobRecord.latest (Booking.entriesIn book) := by
  unfold healthOf
  cases hfound : jobs.get? name with
  | none =>
      rw [h.1 hfound]
      rfl
  | some job => exact (h.2 job hfound).health

theorem keptBy_of_found
    {jobs : Jobs} {name : String} {book : List Booking} {job : Job}
    (hfound : jobs.get? name = some job)
    (h : job.KeptBy book) :
    jobs.KeptBy name book := by
  refine ⟨fun hnone => by simp [hnone] at hfound, fun other hother => ?_⟩
  obtain rfl := Option.some.inj (hfound.symm.trans hother)
  exact h

/-- **A step and its booking go together.** -/
theorem KeptBy.change
    {jobs next : Jobs} {name : String} {book : List Booking}
    (h : jobs.KeptBy name book)
    {step : Transaction} {booking : Option Booking}
    (hchange : Change jobs name step booking (next.get? name)) :
    next.KeptBy name (book ++ booking.toList) := by
  generalize hfound : next.get? name = found at hchange
  cases hchange with
  | kept =>
      rw [Option.toList_none, List.append_nil, KeptBy, hfound]
      exact h
  | @asked caller time request job hstops hname hjob =>
      rw [Option.toList_none, List.append_nil]
      refine keptBy_of_found hfound
        ((h.2 job hjob).of_same ?_ ?_ (Job.spec_asked job caller time)) <;>
        rw [Job.toJobRecord_asked]
  | @joined caller time request job hstarts hjob hended =>
      rw [Option.toList_none, List.append_nil]
      exact keptBy_of_found hfound ((h.2 job hjob).of_same rfl rfl rfl)
  | @ran caller time spec hfree =>
      refine keptBy_of_found hfound
        ⟨?_, (Booking.restartsIn_ran book spec).symm, Booking.lastRun?_ran book spec⟩
      rw [Option.toList_some, Booking.entriesIn_snoc]
      simpa [Booking.entry?] using h.health
  | resumed hjob hended hfree =>
      exact keptBy_of_found hfound ((h.2 _ hjob).restarted jobs.issued)
  | @published serial ending time job hjob hserial hrunning =>
      rw [Option.toList_none, List.append_nil]
      refine keptBy_of_found hfound ((h.2 job hjob).of_same ?_ ?_ rfl) <;>
        (unfold Job.publish JobRecord.finish; split <;> rfl)
  | @noted entry job hjob => exact keptBy_of_found hfound ((h.2 job hjob).noted entry)

/-- **The job of a name is as its book says**, whatever has happened to the jobs. -/
theorem keptBy_after
    (history : List Transaction)
    (name : String) :
    (Jobs.empty.after history).KeptBy name (bookings name Jobs.empty history) := by
  induction history using List.reverseRecOn with
  | nil => exact ⟨fun _ => rfl, fun job hjob => by cases hjob⟩
  | append_singleton before step ih =>
      rw [after_snoc, bookings_snoc]
      exact ih.change (change_perform _ name step)

/-- There is no job under a name that was never run. -/
theorem KeptBy.get?_eq_none
    {jobs : Jobs} {name : String} {book : List Booking}
    (h : jobs.KeptBy name book)
    (hnever : Booking.lastRun? book = none) :
    jobs.get? name = none := by
  cases hfound : jobs.get? name with
  | none => rfl
  | some job =>
      rw [(h.2 job hfound).spec] at hnever
      cases hnever

theorem modify_of_not_found
    {jobs : Jobs} {name : String}
    (h : jobs.get? name = none)
    (change : Job → Job) :
    jobs.modify name change = jobs := by
  have hsame : jobs.jobs.modify name change = jobs.jobs := by
    refine KeyMap.ext_get? fun other => ?_
    rw [KeyMap.get?_modify]
    split
    · next heq =>
        subst heq
        exact (congrArg (Option.map change) h).trans h.symm
    · rfl
  rw [modify, hsame]

end Jobs

namespace Workshop

/-- Requests about a name and health checks of it change nothing, and are answered
accordingly. -/
structure Ignores (shop : Workshop) (name : String) : Prop where
  recordHealth : ∀ entry, shop.recordHealth name entry = (shop, false)
  stop :
    ∀ caller,
      shop.serve caller (.stop name) = (shop, .answer none (.ok (.acted false)))
  restart : ∀ caller, shop.serve caller (.restart name) =
    (shop, .answer none (.error (.unknownJob "restart-job" name)))

/-- Without a job, every request but one to run it is answered without a change. -/
theorem ignores_of_not_found
    {shop : Workshop} {name : String}
    (h : shop.jobs.get? name = none) :
    shop.Ignores name where
  recordHealth entry := by
    simp only [Workshop.recordHealth, Jobs.recordHealth, Jobs.modify_of_not_found h,
      Jobs.contains_eq, h, Option.isSome_none]
  stop caller := by
    simp only [serve, Jobs.serve, Jobs.stop, h, JobRequest.name, Option.toList_none,
      List.filter_nil, List.map_nil, List.append_nil]
  restart caller := by
    simp only [serve, Jobs.serve, Jobs.restart, Jobs.contains_eq, h, Option.isSome_none,
      Bool.false_eq_true, if_false, JobRequest.name, Option.toList_none, List.filter_nil,
      List.map_nil, List.append_nil]

end Workshop

namespace Site

/-- What a site keeps under a name, as the book of the name says. -/
structure Keeps (site : Site) (name : String) (book : List Booking) : Prop where
  job : ∀ job, site.shop.jobs.get? name = some job → job.KeptBy book
  found : Booking.lastRun? book ≠ none → site.shop.jobs.get? name ≠ none
  worker :
    ∀ worker ∈ site.shop.workers,
      worker.name = name →
      worker.activity.isOpen = true →
      Booking.lastRun? book = some worker.spec
  never_run : Booking.lastRun? book = none → book = [] ∧ site.shop.Ignores name

/-- **The books of all names are right**, in whatever order jobs are run, restarted,
checked and ended. -/
theorem reached_site_keeps_books
    {defaults : RetryPolicy} {history : List Transaction} {site : Site}
    (h : Reached defaults history site)
    (name : String) :
    site.Keeps name (Jobs.bookings name Jobs.empty history) := by
  have hkept := Jobs.keptBy_after history name
  rw [← h.jobs] at hkept
  refine ⟨hkept.2, fun hrun hnone => hrun ?_, fun worker hmem hname hopen => ?_,
    fun hnever => ?_⟩
  · rw [hkept.1 hnone]
    rfl
  · obtain ⟨job, hjob, -, hspec, -⟩ := h.staffed.open_running worker hmem hopen
    rw [← hspec]
    exact (hkept.2 job (hname ▸ hjob)).spec
  · have hnone := hkept.get?_eq_none hnever
    exact ⟨hkept.1 hnone, Workshop.ignores_of_not_found hnone⟩

/-! The job that was stopped is checked, and the caller restarts it. -/

/-- The site where the job of `silenced` was restarted after a health check. -/
def revived : Site :=
  let checked := (silenced.shop.recordHealth "ping" ⟨false, "stopped"⟩).1
  let asked := (checked.serve .outside (.restart "ping")).1
  ⟨(asked.serve .outside (.resume "ping")).1,
    some ⟨.restart "ping", (checked.jobs.get? "ping").map Job.serial,
      (asked.serve .outside (.resume "ping")).2⟩⟩

/-- The job of the example was run, has failed a check and was restarted. -/
theorem reached_revived : ∃ history, Reached {} history revived := by
  obtain ⟨history, hsilenced⟩ := reached_silenced
  have hreturned : Reached {} _ _ := hsilenced.step (.returned rfl rfl)
  have hchecked : Reached {} _ _ := hreturned.step (.noted "ping" ⟨false, "stopped"⟩)
  have hasked : Reached {} _ _ := hchecked.step (.called (.restart "ping"))
  exact ⟨_, hasked.step (.wentOn rfl rfl)⟩

theorem reached_site_keeps_books_revived :
    ∃ history,
      Reached {} history revived ∧
      revived.Keeps "ping" (Jobs.bookings "ping" Jobs.empty history) ∧
      (revived.shop.jobs.get? "ping").map
        (fun job => (job.restartCount, job.health)) =
        some (1, [⟨false, "stopped"⟩]) := by
  obtain ⟨history, hreached⟩ := reached_revived
  exact ⟨history, hreached, reached_site_keeps_books hreached "ping", rfl⟩

end Site

end PhaseFlow
