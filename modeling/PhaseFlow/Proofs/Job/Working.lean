import PhaseFlow.Job.Watch
import PhaseFlow.Proofs.Job.Joining

/-!
# A workshop at work

A workshop lets what is due happen, one moment after the other. Whatever comes of this
consists of acts of workers and of time that passes, so it is one of the orders in which
a site can take its steps (`Workshop.Works.leads`).

As long as the callbacks neither run nor restart the job of a name, the job stays in its
place (`Workshop.Carries.works`), and a restart from outside that is answered with
success has started exactly one job (`Workshop.restart_counts`).
-/

namespace PhaseFlow

/-- Whether a request is meant to put another job in the place of one. -/
def JobRequest.replaces : JobRequest → Bool
  | run _ _ | restart _ | resume _ => true
  | stop _ | status _ => false

namespace Workshop

/-- What can come of a workshop that is left alone, and the steps on the jobs that have
taken place. -/
inductive Works (shop : Workshop) : List Transaction → Workshop → Prop
  | here : Works shop [] shop
  | waited
      {history : List Transaction} {middle : Workshop}
      (h : Works shop history middle)
      (time : Nat) :
      Works shop history { middle with now := time }
  | acted
      {history : List Transaction} {middle : Workshop}
      (h : Works shop history middle)
      {worker : Worker}
      (hmem : worker ∈ middle.workers)
      (hfree : middle.isFree worker = true) :
      Works shop (history ++ middle.stepsOf worker) (middle.act worker)

theorem Works.trans
    {shop middle next : Workshop} {before later : List Transaction}
    (h : Works shop before middle)
    (h' : Works middle later next) :
    Works shop (before ++ later) next := by
  induction h' with
  | here =>
      rw [List.append_nil]
      exact h
  | waited _ time ih => exact ih.waited time
  | acted _ hmem hfree ih =>
      rw [← List.append_assoc]
      exact ih.acted hmem hfree

/-- What has become due is kept back by nobody. -/
theorem isFree_of_isDue
    {shop : Workshop} {worker : Worker}
    (h : shop.isDue worker = true) :
    shop.isFree worker = true := by
  unfold isDue dueAt at h
  unfold isFree
  cases hactivity : worker.activity with
  | asking label status move callbacks =>
      rw [hactivity] at h
      dsimp only at h
      split at h
      · next hended => exact hended
      · cases h
  | _ => rfl

theorem works_step
    {shop next : Workshop} {deadline : Option Nat}
    (h : shop.step deadline = some next) :
    ∃ history, Works shop history next := by
  unfold step at h
  split at h
  · cases h
  · next time htime =>
      split at h
      · cases h
      · dsimp only at h
        split at h
        · next worker hfind =>
            cases h
            have hdue := List.find?_some hfind
            exact ⟨_, (Works.here.waited time).acted (List.mem_of_find?_eq_some hfind)
              (isFree_of_isDue hdue)⟩
        · cases h
          exact ⟨_, Works.here.waited time⟩

theorem works_stepUntil
    (condition : Workshop → Bool)
    (deadline : Option Nat)
    (steps : Nat)
    (shop : Workshop) :
    ∃ history, Works shop history (stepUntil condition deadline steps shop) := by
  induction steps generalizing shop with
  | zero => exact ⟨[], .here⟩
  | succ steps ih =>
      rw [stepUntil]
      split
      · exact ⟨[], .here⟩
      · split
        · next next hstep =>
            obtain ⟨before, hbefore⟩ := works_step hstep
            obtain ⟨later, hlater⟩ := ih next
            exact ⟨_, hbefore.trans hlater⟩
        · exact ⟨[], .here⟩

theorem works_advanceTo
    (shop : Workshop)
    (time : Nat) :
    ∃ history, Works shop history (shop.advanceTo time) := by
  obtain ⟨history, h⟩ := works_stepUntil (fun _ => false) (some time) stepLimit shop
  exact ⟨history, h.waited _⟩

/-- A workshop works until the next move of a request. -/
theorem works_between
    (shop : Workshop)
    (condition : Workshop → Bool)
    (deadline : Option Nat) :
    ∃ history, Works shop history (shop.runUntil condition deadline).settle := by
  obtain ⟨before, hbefore⟩ := works_stepUntil condition deadline stepLimit shop
  obtain ⟨later, hlater⟩ := works_advanceTo (shop.runUntil condition deadline) _
  exact ⟨_, hbefore.trans hlater⟩

/-- **A workshop that is left alone takes steps that a site can take.** -/
theorem Works.leads
    {shop next : Workshop} {history : List Transaction}
    (h : Works shop history next)
    (errand : Option Errand) :
    Site.Leads ⟨shop, errand⟩ history ⟨next, errand⟩ := by
  induction h with
  | here => exact .here
  | waited _ time ih =>
      have hstep := ih.step (.waited time)
      rwa [List.append_nil] at hstep
  | @acted history middle _ worker hmem hfree ih =>
      have hacted :
          Site.Step ⟨middle, errand⟩ (middle.stepsOf worker)
            ⟨middle.act worker, errand⟩ :=
        .acted hmem hfree
      exact ih.step hacted

/-! ## A job that is left in its place -/

/-- No callback runs or restarts the job of a name. -/
abbrev Leaves (shop : Workshop) (name : String) : Prop :=
  shop.Asks fun _ request => request.name = name → request.replaces = false

end Workshop

namespace Jobs

theorem booked_of_not_replaces
    {jobs : Jobs} {name : String} {caller : Caller} {time : Nat}
    {request : JobRequest}
    (h : request.name = name → request.replaces = false) :
    jobs.booked name (.serve caller time request) = none := by
  by_cases hname : request.name = name
  · have hreplaces := h hname
    cases request <;> first | rfl | cases hreplaces
  · exact booked_serve_of_ne hname

end Jobs

namespace Workshop

/-- Nothing is entered into the book of a name by workers whose callbacks leave its job
alone. -/
theorem Acts.bookings_eq_nil
    {shop next : Workshop} {worker : Worker} {steps : List Transaction}
    (h : Acts shop worker steps next)
    {name : String}
    (hleaves : shop.Leaves name) :
    Jobs.bookings name shop.jobs steps = [] := by
  cases h with
  | turned => rfl
  | asked hopen hasks hnext =>
      have hnot := (hasks _ (fun other job hrestart hname => hrestart hname) hleaves).1
      rw [Jobs.bookings, Jobs.booked_of_not_replaces hnot]
      rfl
  | published => rfl
  | ended => rfl

/-- **A workshop that is left alone enters nothing into the book of a name** if the
callbacks leave its job alone. -/
theorem Works.bookings_eq_nil
    {shop next : Workshop} {history : List Transaction}
    (h : Works shop history next)
    {name : String}
    (hstaffed : shop.Staffed)
    (hleaves : shop.Leaves name) :
    next.Leaves name ∧ Jobs.bookings name shop.jobs history = [] := by
  induction h with
  | here => exact ⟨hleaves, rfl⟩
  | waited _ time ih => exact ⟨⟨ih.1.callbacks, ih.1.workers⟩, ih.2⟩
  | @acted history middle hworks worker hmem hfree ih =>
      obtain ⟨hbefore, hnothing⟩ := ih
      have hleads := hworks.leads none
      have hacts := acts_act (hleads.staffed hstaffed) hmem
      refine ⟨hacts.asks (hleads.staffed hstaffed) hmem
        (fun _ _ hrestart hname => hrestart hname) hbefore, ?_⟩
      rw [Jobs.bookings_append, hnothing, List.nil_append, ← hleads.jobs hstaffed]
      exact hacts.bookings_eq_nil hbefore

/-- The job of a name is at a later stage of a given one, and no callback runs or
restarts it. -/
structure Carries (shop : Workshop) (name : String) (job : Job) : Prop where
  staffed : shop.Staffed
  leaves : shop.Leaves name
  found : ∃ found, shop.jobs.get? name = some found ∧ Jobs.Continues job found

theorem Carries.acts
    {shop next : Workshop} {name : String} {job : Job}
    (h : shop.Carries name job)
    {worker : Worker}
    (hmem : worker ∈ shop.workers)
    {steps : List Transaction}
    (hacts : Acts shop worker steps next) :
    next.Carries name job where
  staffed := hacts.staffed h.staffed hmem
  leaves := hacts.asks h.staffed hmem (fun _ _ hrestart hname => hrestart hname) h.leaves
  found := by
    obtain ⟨found, hfound, hcontinues⟩ := h.found
    rw [hacts.jobs]
    obtain ⟨later, hlater, hsame | ⟨-, entry, hentry, -⟩⟩ :=
      Jobs.continues_after h.staffed.numbered hfound steps
    · exact ⟨later, hlater, hcontinues.trans hsame⟩
    · rw [hacts.bookings_eq_nil h.leaves] at hentry
      cases hentry

/-- **A workshop that is left alone leaves a job in its place** if the callbacks do. -/
theorem Carries.works
    {shop next : Workshop} {name : String} {job : Job}
    (h : shop.Carries name job)
    {history : List Transaction}
    (hworks : Works shop history next) :
    next.Carries name job := by
  induction hworks with
  | here => exact h
  | waited _ time ih =>
      exact ⟨ih.staffed.quiet (.refl _) rfl, ⟨ih.leaves.callbacks, ih.leaves.workers⟩,
        ih.found⟩
  | acted _ hmem hfree ih => exact ih.acts hmem (acts_act ih.staffed hmem)

/-! ## Restarts from outside -/

theorem conclude_answer
    (moves : Nat)
    (shop : Workshop)
    (after : Option Nat)
    (answer : Result JobAnswer) :
    conclude (moves + 1) shop (.answer after answer) =
      ((shop.runUntil (fun shop => shop.hasEnded after) none).settle, some answer) :=
  rfl

/-- Somebody outside who asks a job to stop has begun to join its worker, or somebody
else has. -/
theorem joinable_asked_outside
    (job : Job)
    (time : Nat) :
    (job.asked .outside time).joinable = false := by
  have howns : Caller.outside.owns job = false := by simp [Caller.owns]
  cases hjoinable : job.joinable with
  | true =>
      rw [Job.asked, Caller.joins_of_joinable hjoinable howns, Option.isSome_some,
        if_pos rfl]
      rfl
  | false => exact Job.joinable_asked_of_joined hjoinable .outside time

/-- The job of a name was restarted a number of times. -/
structure Counts (shop : Workshop) (name : String) (count : Nat) : Prop where
  staffed : shop.Staffed
  found : ∃ job, shop.jobs.get? name = some job ∧ job.restartCount = count

theorem Carries.counts
    {shop : Workshop} {name : String} {job : Job}
    (h : shop.Carries name job) :
    shop.Counts name job.restartCount := by
  obtain ⟨found, hfound, hcontinues⟩ := h.found
  exact ⟨h.staffed, found, hfound, hcontinues.restartCount⟩

/-- Once a request is answered, the job of a name stays in its place. -/
theorem Carries.conclude
    {shop : Workshop} {name : String} {job : Job}
    (h : shop.Carries name job)
    (moves : Nat)
    (after : Option Nat)
    (answer : Result JobAnswer) :
    (conclude (moves + 1) shop (.answer after answer)).1.Counts name
      job.restartCount ∧
    (conclude (moves + 1) shop (.answer after answer)).2 = some answer := by
  rw [conclude_answer]
  obtain ⟨history, hworks⟩ := works_between shop (fun shop => shop.hasEnded after) none
  exact ⟨(h.works hworks).counts, rfl⟩

/-- The second half of a restart starts a job and succeeds, or it starts none and
fails. -/
theorem Carries.resume
    {shop : Workshop} {name : String} {job : Job}
    (h : shop.Carries name job)
    (hjoined : job.joinable = false)
    (moves : Nat) :
    (Workshop.conclude (moves + 1)
        (shop.serve .outside (.resume name)).1
        (shop.serve .outside (.resume name)).2).1.Counts name
      (job.restartCount +
          if Monitor.succeeded (Workshop.conclude (moves + 1)
              (shop.serve .outside (.resume name)).1
              (shop.serve .outside (.resume name)).2).2 then
            1
          else 0) := by
  obtain ⟨found, hfound, hcontinues⟩ := h.found
  have hstaffed := h.staffed.serve .outside (.resume name)
  have hleaves := h.leaves.serve h.staffed .outside (.resume name)
  have hserved := shop.served .outside (.resume name)
  generalize (shop.serve .outside (.resume name)).1 = next at hstaffed hleaves hserved ⊢
  generalize (shop.serve .outside (.resume name)).2 = move at hserved ⊢
  generalize hjobs : next.jobs = jobs at hserved
  cases hserved with
  | @refused _ answer hstops hfails hanswer =>
      obtain ⟨error, rfl⟩ := hfails rfl
      have hcarries : next.Carries name job :=
        ⟨hstaffed, hleaves, found, hjobs ▸ hfound, hcontinues⟩
      obtain ⟨hcounts, hended⟩ := hcarries.conclude moves none (.error error)
      rw [hended]
      exact hcounts
  | @joined _ other jobs hstarts hother hended hjoins hnext =>
      obtain rfl := Option.some.inj (hfound.symm.trans hother)
      have hjoinable := (Caller.joins_eq_some_iff.1 hjoins).1
      rw [hcontinues.joined hjoined] at hjoinable
      cases hjoinable
  | @resumed _ other hother hended hfree =>
      obtain rfl := Option.some.inj (hfound.symm.trans hother)
      have hcarries : next.Carries name _ :=
        ⟨hstaffed, hleaves, _, hjobs ▸ Jobs.get?_start_self _ _ _ _ _, .refl _⟩
      obtain ⟨hcounts, hended⟩ := hcarries.conclude moves none (.ok (.acted true))
      rw [JobMove.done, hended]
      rw [hcontinues.restartCount] at hcounts
      exact hcounts

/-- **A restart that succeeds is counted once, and one that fails not at all.** -/
theorem restart_counts
    {shop : Workshop} {name : String} {count : Nat}
    (h : shop.Counts name count)
    (hleaves : shop.Leaves name) :
    (shop.request (.restart name)).1.Counts name (count +
        if Monitor.succeeded (shop.request (.restart name)).2 then 1 else 0) := by
  obtain ⟨hstaffed, job, hjob, rfl⟩ := h
  obtain ⟨history, hworks⟩ := works_advanceTo shop shop.now
  have hcarries : shop.Carries name job := ⟨hstaffed, hleaves, job, hjob, .refl job⟩
  have hsettled : shop.settle.Carries name job := hcarries.works hworks
  have hrequest : shop.request (.restart name) =
      conclude (999 + 1) (shop.settle.serve .outside (.restart name)).1
        (shop.settle.serve .outside (.restart name)).2 := rfl
  rw [hrequest]
  obtain ⟨found, hfound, hcontinues⟩ := hsettled.found
  have hstaffed := hsettled.staffed.serve .outside (.restart name)
  have hleaves := hsettled.leaves.serve hsettled.staffed .outside (.restart name)
  have hserved := shop.settle.served .outside (.restart name)
  generalize (shop.settle.serve .outside (.restart name)).1 = next
    at hstaffed hleaves hserved ⊢
  generalize (shop.settle.serve .outside (.restart name)).2 = move at hserved ⊢
  generalize hjobs : next.jobs = jobs at hserved
  cases hserved with
  | refused hstops =>
      rw [JobRequest.name, hfound] at hstops
      cases hstops rfl
  | @restarting _ other jobs hother hnext =>
      obtain rfl := Option.some.inj (hfound.symm.trans hother)
      have hasked : next.Carries name (found.asked .outside shop.settle.now) :=
        ⟨hstaffed, hleaves, _, hjobs ▸ hnext.get?_self, .refl _⟩
      obtain ⟨later, hlater⟩ :=
        works_between next (fun shop => shop.hasEnded (Caller.outside.joins found)) none
      have hcounts := (hasked.works hlater).resume (joinable_asked_outside _ _) 998
      rw [Job.toJobRecord_asked, hcontinues.restartCount] at hcounts
      exact hcounts
  | joined hstarts => cases hstarts

end Workshop

end PhaseFlow
