import PhaseFlow.Proofs.Job.Staff

/-!
# One caller and the workers

The workers of a workshop and one caller from outside take their steps in any order, at
any time. A worker acts when nobody keeps it from going on; the caller makes one move of
its request after the other, and goes on once the worker has ended that it joins.
`Site.Step` are these steps, `Site.Leads` is any number of them. Both carry the steps on
the jobs that they consist of.

* `Site.Leads.staffed` and `Site.Leads.jobs` say what all steps keep, whatever the
  callbacks ask.
* `Jobs.Holds` says that a worker can be joined. It can until somebody begins to join it
  (`Jobs.Served.holds`).
-/

namespace PhaseFlow

namespace Jobs

/-- The job of a name has the worker of a number, which nobody has begun to join. -/
def Holds (jobs : Jobs) (name : String) (serial : Nat) : Prop :=
  ∃ job, jobs.get? name = some job ∧ job.serial = serial ∧ job.joinable = true

/-- A caller joins the worker of the job that it asks about, which is not itself. -/
theorem Served.holds_of_after
    {jobs next : Jobs} {caller : Caller} {time : Nat} {request : JobRequest}
    {move : JobMove}
    (h : Served jobs caller time request next move)
    {serial : Nat}
    (hafter : move.after = some serial) :
    jobs.Holds request.name serial ∧ caller ≠ .worker serial := by
  have hjoined : ∀ {name job}, jobs.get? name = some job → caller.joins job = some serial →
      jobs.Holds name serial ∧ caller ≠ .worker serial := by
    intro name job hfound hjoins
    obtain ⟨hjoinable, hcaller, rfl⟩ := Caller.joins_eq_some_iff.1 hjoins
    exact ⟨⟨job, hfound, rfl, hjoinable⟩, hcaller⟩
  cases h with
  | refused => cases hafter
  | stopped hfound hnext => exact hjoined hfound hafter
  | restarting hfound hnext => exact hjoined hfound hafter
  | joined hstarts hfound hended hjoins hnext =>
      cases hafter
      exact hjoined hfound hjoins
  | ran => cases hafter
  | resumed => cases hafter

/-- A worker can be joined until somebody begins to join it. -/
theorem Served.holds
    {jobs next : Jobs} {caller : Caller} {time : Nat} {request : JobRequest}
    {move : JobMove}
    (h : Served jobs caller time request next move)
    {name : String} {serial : Nat}
    (hholds : jobs.Holds name serial) :
    next.Holds name serial ∨ move.after = some serial := by
  by_cases hname : request.name = name
  · subst hname
    obtain ⟨job, hjob, rfl, hjoinable⟩ := hholds
    have hasked : ∀ {found}, jobs.get? request.name = some found →
        Puts jobs request.name (found.asked caller time) next →
          next.Holds request.name job.serial ∨ caller.joins found = some job.serial := by
      intro found hfound hnext
      obtain rfl := Option.some.inj (hfound.symm.trans hjob)
      cases hjoins : caller.joins found with
      | some serial =>
          obtain ⟨-, -, rfl⟩ := Caller.joins_eq_some_iff.1 hjoins
          exact .inr rfl
      | none =>
          refine .inl ⟨_, hnext.get?_self, Job.serial_asked _ _ _, ?_⟩
          rw [Job.asked, hjoins, if_neg (by simp), Job.requestStop]
          split <;> exact hjoinable
    cases h with
    | refused => exact .inl ⟨job, hjob, rfl, hjoinable⟩
    | stopped hfound hnext => exact hasked hfound hnext
    | restarting hfound hnext => exact hasked hfound hnext
    | joined hstarts hfound hended hjoins hnext =>
        obtain rfl := Option.some.inj (hfound.symm.trans hjob)
        exact .inr rfl
    | ran hname hfree =>
        rw [(hfree job hjob).2] at hjoinable
        cases hjoinable
    | resumed hfound hended hfree =>
        obtain rfl := Option.some.inj (hfound.symm.trans hjob)
        rw [hfree] at hjoinable
        cases hjoinable
  · refine .inl ?_
    obtain ⟨job, hjob, hrest⟩ := hholds
    exact ⟨job, (h.get?_of_ne hname).trans hjob, hrest⟩

/-- The worker of the job of a name has a number from some number on. -/
def Reaches (jobs : Jobs) (name : String) (serial : Nat) : Prop :=
  ∃ job, jobs.get? name = some job ∧ serial ≤ job.serial

/-- The number of the worker under a name never goes back. -/
theorem Reaches.after
    {jobs : Jobs}
    (hnumbered : jobs.Numbered)
    {name : String} {serial : Nat}
    (h : jobs.Reaches name serial)
    (later : List Transaction) :
    (jobs.after later).Reaches name serial := by
  obtain ⟨job, hjob, hle⟩ := h
  obtain ⟨next, hnext, hcontinues | ⟨hlt, -⟩⟩ := continues_after hnumbered hjob later
  · exact ⟨next, hnext, hcontinues.serial ▸ hle⟩
  · exact ⟨next, hnext, Nat.le_trans hle (Nat.le_of_lt hlt)⟩

end Jobs

/-! ## Steps of a site -/

/-- A request of the caller that is under way, and the number of the worker of the job
it was made about. -/
structure Errand where
  request : JobRequest
  found : Option Nat
  move : JobMove

/-- A workshop and the request of the caller. -/
structure Site where
  shop : Workshop
  errand : Option Errand := none

/-- A callback makes requests about the job only that it is told about. -/
abbrev StateCallback.MindsItsJob (callback : StateCallback) : Prop :=
  callback.Asks fun name request => request.name = name

namespace Site

/-- The worker that the caller joins. -/
def joins (site : Site) : Option Nat :=
  site.errand.bind fun errand => errand.move.after

/-- **What can happen next**, and the steps on the jobs that it consists of. -/
inductive Step : Site → List Transaction → Site → Prop
  | waited
      {site : Site}
      (time : Nat) :
      Step site [] { site with shop := { site.shop with now := time } }
  | registered
      {site : Site} {callback : StateCallback}
      (hminds : callback.MindsItsJob) :
      Step site [] { site with
        shop := { site.shop with callbacks := site.shop.callbacks ++ [callback] } }
  | noted
      {site : Site}
      (name : String)
      (entry : HealthRecord) :
      Step site [.record name entry]
        { site with shop := (site.shop.recordHealth name entry).1 }
  | called
      {shop : Workshop}
      (request : JobRequest) :
      Step ⟨shop, none⟩ [.serve .outside shop.now request]
        ⟨(shop.serve .outside request).1,
          some ⟨request, (shop.jobs.get? request.name).map Job.serial,
            (shop.serve .outside request).2⟩⟩
  | wentOn
      {shop : Workshop} {errand : Errand} {after : Option Nat}
      {request : JobRequest}
      (hmove : errand.move = .proceed after request)
      (hended : shop.hasEnded after = true) :
      Step ⟨shop, some errand⟩ [.serve .outside shop.now request]
        ⟨(shop.serve .outside request).1,
          some { errand with move := (shop.serve .outside request).2 }⟩
  | returned
      {shop : Workshop} {errand : Errand} {after : Option Nat}
      {answer : Result JobAnswer}
      (hmove : errand.move = .answer after answer)
      (hended : shop.hasEnded after = true) :
      Step ⟨shop, some errand⟩ [] ⟨shop, none⟩
  | acted
      {site : Site} {worker : Worker}
      (hmem : worker ∈ site.shop.workers)
      (hfree : site.shop.isFree worker = true) :
      Step site (site.shop.stepsOf worker) { site with shop := site.shop.act worker }

/-- **What can come of a site**, and the steps on the jobs that have taken place. -/
inductive Leads (site : Site) : List Transaction → Site → Prop
  | here : Leads site [] site
  | step
      {history steps : List Transaction} {middle next : Site}
      (h : Leads site history middle)
      (hstep : Step middle steps next) :
      Leads site (history ++ steps) next

/-- What can come of a workshop without jobs. -/
def Reached
    (defaults : RetryPolicy)
    (history : List Transaction)
    (site : Site) :
    Prop :=
  Leads ⟨.ofDefaults defaults, none⟩ history site

end Site

/-! ## The jobs of a site -/

namespace Workshop

/-- What a worker does to the jobs is what its steps do. -/
theorem Acts.jobs
    {shop next : Workshop} {worker : Worker} {steps : List Transaction}
    (h : Acts shop worker steps next) :
    next.jobs = shop.jobs.after steps := by
  cases h with
  | turned hnext hopen hasks hawaits => exact hnext.jobs
  | asked hopen hasks hnext => exact hnext.jobs
  | published hopen hended hname hnext => exact hnext.jobs
  | ended hclosed hjobs hcallbacks hworkers => exact hjobs

theorem stepsOf_cases
    (shop : Workshop)
    (worker : Worker) :
    shop.stepsOf worker = [] ∨ ∃ step, shop.stepsOf worker = [step] := by
  unfold stepsOf
  split
  · split
    · exact .inr ⟨_, rfl⟩
    · exact .inl rfl
  · exact .inr ⟨_, rfl⟩
  · exact .inr ⟨_, rfl⟩
  · exact .inl rfl

end Workshop

namespace Site

/-- What happens next is one step on the jobs at most. -/
theorem Step.steps_cases
    {site next : Site} {steps : List Transaction}
    (h : Step site steps next) :
    steps = [] ∨ ∃ step, steps = [step] := by
  cases h with
  | waited time => exact .inl rfl
  | registered hminds => exact .inl rfl
  | noted name entry => exact .inr ⟨_, rfl⟩
  | called request => exact .inr ⟨_, rfl⟩
  | wentOn hmove hended => exact .inr ⟨_, rfl⟩
  | returned hmove hended => exact .inl rfl
  | acted hmem hfree => exact Workshop.stepsOf_cases _ _

theorem Step.staffed
    {site next : Site} {steps : List Transaction}
    (h : Step site steps next)
    (hstaffed : site.shop.Staffed) :
    next.shop.Staffed := by
  cases h with
  | waited time => exact hstaffed.quiet (.refl _) rfl
  | registered hminds => exact hstaffed.quiet (.refl _) rfl
  | noted name entry => exact hstaffed.quiet (Jobs.quiet_recordHealth _ name entry) rfl
  | called request => exact hstaffed.serve _ request
  | wentOn hmove hended => exact hstaffed.serve _ _
  | returned hmove hended => exact hstaffed
  | acted hmem hfree => exact (Workshop.acts_act hstaffed hmem).staffed hstaffed hmem

/-- What happens next changes the jobs by its steps only. -/
theorem Step.jobs
    {site next : Site} {steps : List Transaction}
    (h : Step site steps next)
    (hstaffed : site.shop.Staffed) :
    next.shop.jobs = site.shop.jobs.after steps := by
  cases h with
  | waited time => rfl
  | registered hminds => rfl
  | noted name entry => rfl
  | called request => rfl
  | wentOn hmove hended => rfl
  | returned hmove hended => rfl
  | acted hmem hfree => exact (Workshop.acts_act hstaffed hmem).jobs

/-- The staff stays in order, whatever happens. -/
theorem Leads.staffed
    {site next : Site} {history : List Transaction}
    (h : Leads site history next)
    (hstaffed : site.shop.Staffed) :
    next.shop.Staffed := by
  induction h with
  | here => exact hstaffed
  | step _ hstep ih => exact hstep.staffed ih

/-- The jobs are what the steps have made of them. -/
theorem Leads.jobs
    {site next : Site} {history : List Transaction}
    (h : Leads site history next)
    (hstaffed : site.shop.Staffed) :
    next.shop.jobs = site.shop.jobs.after history := by
  induction h with
  | here => rfl
  | step hbefore hstep ih =>
      rw [Jobs.after_append, ← ih]
      exact hstep.jobs (hbefore.staffed hstaffed)

theorem Reached.staffed
    {defaults : RetryPolicy} {history : List Transaction} {site : Site}
    (h : Reached defaults history site) :
    site.shop.Staffed :=
  Leads.staffed h (Workshop.staffed_ofDefaults defaults)

theorem Reached.jobs
    {defaults : RetryPolicy} {history : List Transaction} {site : Site}
    (h : Reached defaults history site) :
    site.shop.jobs = Jobs.empty.after history :=
  Leads.jobs h (Workshop.staffed_ofDefaults defaults)

end Site

end PhaseFlow
