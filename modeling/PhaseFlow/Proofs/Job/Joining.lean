import PhaseFlow.Proofs.Job.Site

/-!
# Who joins whom

Somebody who stops or replaces a job joins its worker, and thereby takes care of it: as
long as a worker has not ended, it can be joined still, or somebody is about to wait for
its end. The callbacks of a worker act on its own job only, so a worker joins only
workers that began after it; nobody waits in a circle.

* `Workshop.Orderly` is this invariant; every step of a site keeps it
  (`Site.Reached.orderly`).
* While the caller joins nobody, every worker can be joined (`Workshop.Orderly.holds`).
* A call to stop a job is about the worker that the caller joins then, or about one that
  has ended already (`Site.Reached.stopping`).
-/

namespace PhaseFlow

namespace Workshop

/-- A worker joins the worker of a number. -/
def Joined (shop : Workshop) (serial : Nat) : Prop :=
  ∃ worker ∈ shop.workers, worker.activity.awaits = some serial

/-- Every worker can be joined or is joined. The caller joins the worker `pending`, if
any. -/
structure Attended (shop : Workshop) (pending : Option Nat) : Prop where
  attended : ∀ worker ∈ shop.workers, shop.jobs.Holds worker.name worker.serial ∨
    pending = some worker.serial ∨ shop.Joined worker.serial
  joins_later :
    ∀ worker ∈ shop.workers,
      ∀ serial,
        worker.activity.awaits = some serial →
        worker.serial < serial ∧ shop.jobs.Reaches worker.name serial

/-- The order that workers and the caller keep among them. -/
structure Orderly (shop : Workshop) (pending : Option Nat) : Prop where
  staffed : shop.Staffed
  asks : shop.Asks fun name request => request.name = name
  attended : shop.Attended pending

theorem hasEnded_iff
    {shop : Workshop} {serial : Option Nat} :
    shop.hasEnded serial = true ↔
      ∀ worker ∈ shop.workers, serial ≠ some worker.serial := by
  cases serial with
  | none => simp [hasEnded]
  | some serial => simp [hasEnded, eq_comm (a := serial)]

/-- **While the caller joins nobody, every worker can be joined.** -/
theorem Orderly.holds
    {shop : Workshop}
    (h : shop.Orderly none)
    {worker : Worker}
    (hmem : worker ∈ shop.workers) :
    shop.jobs.Holds worker.name worker.serial := by
  -- A worker that is joined is joined by an earlier one, whose own job was replaced by then.
  induction hserial : worker.serial using Nat.strongRecOn generalizing worker with
  | ind serial ih =>
      subst hserial
      rcases h.attended.attended worker hmem with hholds | hpending |
        ⟨other, hother, hawaits⟩
      · exact hholds
      · cases hpending
      · obtain ⟨hlt, job, hjob, hle⟩ := h.attended.joins_later other hother _ hawaits
        obtain ⟨found, hfound, hown, -⟩ := ih other.serial hlt hother rfl
        obtain rfl := Option.some.inj (hfound.symm.trans hjob)
        exact absurd hle (Nat.not_le_of_lt (hown ▸ hlt))

/-! ## Steps of workers -/

theorem Engages.joined
    {shop next : Workshop} {worker : Worker} {activity : Activity}
    (h : Engages shop worker activity next)
    (hnodup : (shop.workers.map Worker.serial).Nodup)
    (hmem : worker ∈ shop.workers)
    {serial : Nat}
    (hjoined : shop.Joined serial)
    (hnot : worker.activity.awaits ≠ some serial) :
    next.Joined serial := by
  obtain ⟨other, hother, hawaits⟩ := hjoined
  refine ⟨other, (h.mem_iff hmem).2 (.inr ⟨hother, fun heq => hnot ?_⟩), hawaits⟩
  rw [← List.inj_on_of_nodup_map hnodup hother hmem heq]
  exact hawaits

theorem Attended.engage
    {base next : Workshop} {worker : Worker} {activity : Activity}
    {pending : Option Nat}
    (hnext : Engages base worker activity next)
    (hnodup : (next.workers.map Worker.serial).Nodup)
    (hmem : worker ∈ base.workers)
    (hattended :
        ∀ other ∈ base.workers,
          base.jobs.Holds other.name other.serial ∨
          pending = some other.serial ∨
          activity.awaits = some other.serial ∨
          (base.Joined other.serial ∧ worker.activity.awaits ≠ some other.serial))
    (hlater :
        ∀ other ∈ base.workers,
          other.serial ≠ worker.serial →
          ∀ serial,
            other.activity.awaits = some serial →
            other.serial < serial ∧ base.jobs.Reaches other.name serial)
    (hjoins :
        ∀ serial,
          activity.awaits = some serial →
          worker.serial < serial ∧ base.jobs.Reaches worker.name serial) :
    next.Attended pending where
  attended other hother := by
    rw [hnext.jobs]
    have hold : ∀ old ∈ base.workers, base.jobs.Holds old.name old.serial ∨
        pending = some old.serial ∨ next.Joined old.serial := by
      intro old hold
      rcases hattended old hold with hholds | hpending | hactivity | ⟨hjoined, hnot⟩
      · exact .inl hholds
      · exact .inr (.inl hpending)
      · exact .inr (.inr ⟨_, (hnext.mem_iff hmem).2 (.inl rfl), hactivity⟩)
      · exact .inr (.inr (hnext.joined (hnext.map_serial ▸ hnodup) hmem hjoined hnot))
    rcases (hnext.mem_iff hmem).1 hother with rfl | ⟨hold', -⟩
    · exact hold worker hmem
    · exact hold other hold'
  joins_later other hother serial hawaits := by
    rw [hnext.jobs]
    rcases (hnext.mem_iff hmem).1 hother with rfl | ⟨hold, hne⟩
    · exact hjoins serial hawaits
    · exact hlater other hold hne serial hawaits

/-- The workers after a move are the old ones, and one that can be joined if a job was
started. -/
theorem Staffed.mem_of_mem_serve
    {shop : Workshop}
    (h : shop.Staffed)
    (caller : Caller)
    (request : JobRequest)
    {worker : Worker}
    (hmem : worker ∈ (shop.serve caller request).1.workers) :
    worker ∈ shop.workers ∨
    (shop.jobs.issued ≤ worker.serial ∧
      worker.activity.awaits = none ∧
      (shop.serve caller request).1.jobs.Holds worker.name worker.serial) := by
  cases h.serves caller request with
  | kept hquiet hworkers => exact .inl (hworkers ▸ hmem)
  | started spec restartCount health hjobs hmove hended hworkers =>
      rw [hworkers, List.mem_append, List.mem_singleton] at hmem
      rcases hmem with hold | rfl
      · exact .inl hold
      · refine .inr ⟨Nat.le_refl _, rfl, ?_⟩
        rw [hjobs]
        exact ⟨_, Jobs.get?_start_self _ _ _ _ _, rfl, rfl⟩

/-- A move leaves every worker that can be joined or is joined, or its caller joins
it. -/
theorem Attended.serve
    {shop : Workshop} {pending : Option Nat}
    (h : shop.Attended pending)
    (hstaffed : shop.Staffed)
    (caller : Caller)
    (request : JobRequest)
    {worker : Worker}
    (hmem : worker ∈ (shop.serve caller request).1.workers) :
    (shop.serve caller request).1.jobs.Holds worker.name worker.serial ∨
    (shop.serve caller request).2.after = some worker.serial ∨
    (worker ∈ shop.workers ∧
      (pending = some worker.serial ∨
        (shop.serve caller request).1.Joined worker.serial)) := by
  rcases hstaffed.mem_of_mem_serve caller request hmem with hold | ⟨-, -, hholds⟩
  · rcases h.attended worker hold with hholds | hpending | ⟨other, hother, hawaits⟩
    · rcases (shop.served caller request).holds hholds with hstill | hjoins
      · exact .inl hstill
      · exact .inr (.inl hjoins)
    · exact .inr (.inr ⟨hold, .inl hpending⟩)
    · exact .inr
        (.inr ⟨hold, .inr ⟨other, hstaffed.mem_serve caller request hother, hawaits⟩⟩)
  · exact .inl hholds

theorem Attended.joins_later_serve
    {shop : Workshop} {pending : Option Nat}
    (h : shop.Attended pending)
    (hstaffed : shop.Staffed)
    (caller : Caller)
    (request : JobRequest)
    {worker : Worker}
    (hmem : worker ∈ (shop.serve caller request).1.workers)
    {serial : Nat}
    (hawaits : worker.activity.awaits = some serial) :
    worker.serial < serial ∧
    (shop.serve caller request).1.jobs.Reaches worker.name serial := by
  rcases hstaffed.mem_of_mem_serve caller request hmem with hold | ⟨-, hnone, -⟩
  · obtain ⟨hlt, hreaches⟩ := h.joins_later worker hold serial hawaits
    exact ⟨hlt, hreaches.after hstaffed.numbered [.serve caller shop.now request]⟩
  · rw [hnone] at hawaits
    cases hawaits

/-- The caller makes a move once the worker has ended that it joins. -/
theorem Orderly.serve
    {shop : Workshop} {pending : Option Nat}
    (h : shop.Orderly pending)
    (hended : shop.hasEnded pending = true)
    (request : JobRequest) :
    (shop.serve .outside request).1.Orderly
      (shop.serve .outside request).2.after where
  staffed := h.staffed.serve _ request
  asks := h.asks.serve h.staffed _ request
  attended :=
    { attended := fun worker hmem => by
        rcases h.attended.serve h.staffed _ request hmem with hholds | hjoins | ⟨hold, hrest⟩
        · exact .inl hholds
        · exact .inr (.inl hjoins)
        · exact .inr (.inr (hrest.resolve_left (hasEnded_iff.1 hended worker hold)))
      joins_later := fun worker hmem serial hawaits =>
        h.attended.joins_later_serve h.staffed _ request hmem hawaits }

/-- A worker that nobody keeps from going on joins no worker. -/
theorem Attended.of_free
    {shop : Workshop} {pending : Option Nat}
    (h : shop.Attended pending)
    {worker : Worker}
    (hfree : shop.isFree worker = true)
    {other : Worker}
    (hother : other ∈ shop.workers) :
    shop.jobs.Holds other.name other.serial ∨
    pending = some other.serial ∨
    (shop.Joined other.serial ∧ worker.activity.awaits ≠ some other.serial) := by
  rcases h.attended other hother with hholds | hpending | hjoined
  · exact .inl hholds
  · exact .inr (.inl hpending)
  · exact .inr (.inr ⟨hjoined, hasEnded_iff.1 hfree other hother⟩)

theorem Attended.turned
    {shop next : Workshop} {pending : Option Nat}
    (h : shop.Attended pending)
    {worker : Worker}
    (hmem : worker ∈ shop.workers)
    (hfree : shop.isFree worker = true)
    {activity : Activity}
    (hnext : Engages shop worker activity next)
    (hawaits : activity.awaits = none)
    (hstaffed : next.Staffed) :
    next.Attended pending := by
  refine .engage hnext hstaffed.nodup hmem (fun other hother => ?_)
    (fun other hother _ => h.joins_later other hother) (fun serial hjoins => ?_)
  · rcases h.of_free hfree hother with hholds | hpending | hjoined
    · exact .inl hholds
    · exact .inr (.inl hpending)
    · exact .inr (.inr (.inr hjoined))
  · rw [hawaits] at hjoins
    cases hjoins

/-- The worker that a callback joins has taken the place of its own, so it began
later. -/
theorem Staffed.joins_later
    {shop : Workshop}
    (h : shop.Staffed)
    {worker : Worker}
    (hmem : worker ∈ shop.workers)
    {request : JobRequest}
    (hname : request.name = worker.name)
    {serial : Nat}
    (hjoins : (shop.serve (.worker worker.serial) request).2.after = some serial) :
    worker.serial < serial ∧
    (shop.serve (.worker worker.serial) request).1.jobs.Reaches worker.name
      serial := by
  obtain ⟨⟨job, hjob, hserial, -⟩, hcaller⟩ := (shop.served _ request).holds_of_after hjoins
  rw [hname] at hjob
  obtain ⟨own, hown, hle⟩ := h.serial_le worker hmem
  obtain rfl := Option.some.inj (hjob.symm.trans hown)
  have hreaches : shop.jobs.Reaches worker.name serial :=
    ⟨job, hjob, Nat.le_of_eq hserial.symm⟩
  exact ⟨Nat.lt_of_le_of_ne (hserial ▸ hle) fun heq => hcaller (heq ▸ rfl),
    hreaches.after h.numbered [.serve _ shop.now request]⟩

theorem Attended.asked
    {shop next : Workshop} {pending : Option Nat}
    (h : shop.Attended pending)
    (hstaffed : shop.Staffed)
    {worker : Worker}
    (hmem : worker ∈ shop.workers)
    (hfree : shop.isFree worker = true)
    {request : JobRequest}
    (hname : request.name = worker.name)
    {label : String} {status : JobStatus} {callbacks : List StateCallback}
    (hnext :
        Engages (shop.serve (.worker worker.serial) request).1 worker
          (.asking label status (shop.serve (.worker worker.serial) request).2
              callbacks) next)
    (hstaffed' : next.Staffed) :
    next.Attended pending := by
  refine .engage hnext hstaffed'.nodup (hstaffed.mem_serve _ request hmem)
    (fun other hother => ?_)
    (fun other hother _ serial => h.joins_later_serve hstaffed _ request hother)
    (fun serial => hstaffed.joins_later hmem hname)
  rcases h.serve hstaffed _ request hother with hholds | hjoins | ⟨hold, hpending | hjoined⟩
  · exact .inl hholds
  · exact .inr (.inr (.inl hjoins))
  · exact .inr (.inl hpending)
  · exact .inr (.inr (.inr ⟨hjoined, hasEnded_iff.1 hfree other hold⟩))

theorem Attended.published
    {shop next : Workshop} {pending : Option Nat}
    (h : shop.Attended pending)
    (hstaffed : shop.Staffed)
    {worker : Worker}
    (hmem : worker ∈ shop.workers)
    (hfree : shop.isFree worker = true)
    (hopen : worker.activity.isOpen = true)
    {ending : Ending} {status : JobStatus} {callbacks : List StateCallback}
    (hnext : Engages { shop with
        jobs := shop.jobs.publish worker.serial worker.name ending.outcome shop.now }
        worker (.telling status callbacks) next)
    (hstaffed' : next.Staffed) :
    next.Attended pending := by
  obtain ⟨job, hjob, hserial, -, hrunning⟩ := hstaffed.open_running worker hmem hopen
  have hput := Jobs.puts_publish hjob (Job.isRunning_iff.2 hrunning) ending.outcome shop.now
  rw [hserial] at hput
  refine .engage hnext hstaffed'.nodup hmem (fun other hother => ?_)
    (fun other hother _ serial hawaits => ?_) (fun serial hjoins => by cases hjoins)
  · rcases h.of_free hfree hother with ⟨found, hfound, hown, hjoinable⟩ | hpending | hjoined
    · refine .inl ?_
      by_cases heq : worker.name = other.name
      · rw [← heq] at hfound ⊢
        obtain rfl := Option.some.inj (hfound.symm.trans hjob)
        exact ⟨_, hput.get?_self, hown, hjoinable⟩
      · exact ⟨found, (hput.get?_of_ne heq).trans hfound, hown, hjoinable⟩
    · exact .inr (.inl hpending)
    · exact .inr (.inr (.inr hjoined))
  · obtain ⟨hlt, hreaches⟩ := h.joins_later other hother serial hawaits
    exact ⟨hlt, hreaches.after hstaffed.numbered
      [.publish worker.serial worker.name ending shop.now]⟩

/-- A worker that is gone joined nobody when it went. -/
theorem Attended.ended
    {shop next : Workshop} {pending : Option Nat}
    (h : shop.Attended pending)
    (hstaffed : shop.Staffed)
    {worker : Worker}
    (hmem : worker ∈ shop.workers)
    (hfree : shop.isFree worker = true)
    (hjobs : next.jobs = shop.jobs)
    (hworkers :
        next.workers = shop.workers.filter fun other => other.serial ≠ worker.serial) :
    next.Attended pending := by
  have hmem_iff : ∀ other, other ∈ next.workers ↔
      other ∈ shop.workers ∧ other.serial ≠ worker.serial := by
    simp [hworkers]
  constructor
  · intro other hother
    rw [hjobs]
    rcases h.of_free hfree ((hmem_iff other).1 hother).1 with
      hholds | hpending | ⟨⟨joining, hjoining, hawaits⟩, hnot⟩
    · exact .inl hholds
    · exact .inr (.inl hpending)
    · refine .inr
        (.inr ⟨joining, (hmem_iff joining).2 ⟨hjoining, fun heq => hnot ?_⟩, hawaits⟩)
      rw [← hstaffed.eq_of_serial_eq hjoining hmem heq]
      exact hawaits
  · intro other hother
    rw [hjobs]
    exact h.joins_later other ((hmem_iff other).1 hother).1

/-- A worker acts that nobody keeps from going on. -/
theorem Orderly.acts
    {shop next : Workshop} {pending : Option Nat}
    (h : shop.Orderly pending)
    {worker : Worker}
    (hmem : worker ∈ shop.workers)
    (hfree : shop.isFree worker = true)
    {steps : List Transaction}
    (hacts : Acts shop worker steps next) :
    next.Orderly pending where
  staffed := hacts.staffed h.staffed hmem
  asks := hacts.asks h.staffed hmem (fun _ _ hname => hname) h.asks
  attended := by
    have hstaffed := hacts.staffed h.staffed hmem
    cases hacts with
    | turned hnext hopen hasks hawaits =>
        exact h.attended.turned hmem hfree hnext hawaits hstaffed
    | asked hopen hasks hnext =>
        have hname := (hasks _ (fun _ _ hname => hname) h.asks).1
        exact h.attended.asked h.staffed hmem hfree hname hnext hstaffed
    | published hopen hended hname hnext =>
        exact h.attended.published h.staffed hmem hfree hopen hnext hstaffed
    | ended hclosed hjobs hcallbacks hworkers =>
        exact h.attended.ended h.staffed hmem hfree hjobs hworkers

theorem Acts.callbacks
    {shop next : Workshop} {worker : Worker} {steps : List Transaction}
    (hacts : Acts shop worker steps next) :
    next.callbacks = shop.callbacks := by
  cases hacts with
  | turned hnext hopen hasks hawaits => exact hnext.callbacks
  | asked hopen hasks hnext => exact hnext.callbacks
  | published hopen hended hname hnext => exact hnext.callbacks
  | ended hclosed hjobs hcallbacks hworkers => exact hcallbacks

/-- The workers keep their numbers, and new workers get new ones. -/
theorem Acts.serial_cases
    {shop next : Workshop} {worker : Worker} {steps : List Transaction}
    (hacts : Acts shop worker steps next)
    (hstaffed : shop.Staffed)
    (hmem : worker ∈ shop.workers)
    {other : Worker}
    (hother : other ∈ next.workers) :
    (∃ old ∈ shop.workers, old.serial = other.serial) ∨
    shop.jobs.issued ≤ other.serial := by
  cases hacts with
  | turned hnext hopen hasks hawaits =>
      rcases (hnext.mem_iff hmem).1 hother with rfl | ⟨hold, -⟩
      · exact .inl ⟨worker, hmem, rfl⟩
      · exact .inl ⟨other, hold, rfl⟩
  | @asked request label status callbacks next hopen hasks hnext =>
      rcases (hnext.mem_iff (hstaffed.mem_serve _ request hmem)).1 hother with rfl |
        ⟨hold, -⟩
      · exact .inl ⟨worker, hmem, rfl⟩
      · rcases hstaffed.mem_of_mem_serve _ request hold with hold | ⟨hissued, -⟩
        · exact .inl ⟨other, hold, rfl⟩
        · exact .inr hissued
  | published hopen hended hname hnext =>
      rcases (hnext.mem_iff hmem).1 hother with rfl | ⟨hold, -⟩
      · exact .inl ⟨worker, hmem, rfl⟩
      · exact .inl ⟨other, hold, rfl⟩
  | ended hclosed hjobs hcallbacks hworkers =>
      rw [hworkers] at hother
      exact .inl ⟨other, List.mem_of_mem_filter hother, rfl⟩

end Workshop

namespace Site

theorem Step.asks
    {allowed : String → JobRequest → Prop}
    (hclosed : ∀ name job, allowed name (.restart job) → allowed name (.resume job))
    {site next : Site} {steps : List Transaction}
    (h : Step site steps next)
    (hstaffed : site.shop.Staffed)
    (hasks :
        (∀ callback ∈ site.shop.callbacks, callback.Asks allowed) →
        site.shop.Asks allowed)
    (hnext : ∀ callback ∈ next.shop.callbacks, callback.Asks allowed) :
    next.shop.Asks allowed := by
  cases h with
  | waited time => exact ⟨(hasks hnext).callbacks, (hasks hnext).workers⟩
  | registered hminds =>
      exact ⟨hnext,
        (hasks fun callback hmem =>
            hnext callback (List.mem_append_left _ hmem)).workers⟩
  | noted name entry => exact ⟨(hasks hnext).callbacks, (hasks hnext).workers⟩
  | called request => exact (hasks hnext).serve hstaffed _ request
  | wentOn hmove hended => exact (hasks hnext).serve hstaffed _ _
  | returned hmove hended => exact hasks hnext
  | acted hmem hfree =>
      have hacts := Workshop.acts_act hstaffed hmem
      exact hacts.asks hstaffed hmem hclosed (hasks (hacts.callbacks ▸ hnext))

/-- **What the callbacks ask is what they were registered for**, also while workers tell
them. -/
theorem Reached.asks
    {allowed : String → JobRequest → Prop}
    (hclosed : ∀ name job, allowed name (.restart job) → allowed name (.resume job))
    {defaults : RetryPolicy} {history : List Transaction} {site : Site}
    (h : Reached defaults history site)
    (hcallbacks : ∀ callback ∈ site.shop.callbacks, callback.Asks allowed) :
    site.shop.Asks allowed := by
  induction h with
  | here => exact ⟨hcallbacks, fun worker hmem => by cases hmem⟩
  | step hbefore hstep ih => exact hstep.asks hclosed (Reached.staffed hbefore) ih hcallbacks

theorem orderly_of_holds
    {shop next : Workshop} {pending : Option Nat}
    (h : shop.Orderly pending)
    (hstaffed : next.Staffed)
    (hasks : next.Asks fun name request => request.name = name)
    (hworkers : next.workers = shop.workers)
    (hholds :
        ∀ {name serial}, shop.jobs.Holds name serial → next.jobs.Holds name serial)
    (hreaches :
        ∀ {name serial},
          shop.jobs.Reaches name serial → next.jobs.Reaches name serial) :
    next.Orderly pending where
  staffed := hstaffed
  asks := hasks
  attended :=
    { attended := fun worker hmem => by
        rcases h.attended.attended worker (hworkers ▸ hmem) with hold | hpending |
          ⟨other, hother, hawaits⟩
        · exact .inl (hholds hold)
        · exact .inr (.inl hpending)
        · exact .inr (.inr ⟨other, hworkers.symm ▸ hother, hawaits⟩)
      joins_later := fun worker hmem serial hawaits =>
        (h.attended.joins_later worker (hworkers ▸ hmem) serial hawaits).imp_right hreaches }

theorem Step.orderly
    {site next : Site} {steps : List Transaction}
    (h : Step site steps next)
    (horderly : site.shop.Orderly site.joins) :
    next.shop.Orderly next.joins := by
  have hstaffed := h.staffed horderly.staffed
  cases h with
  | waited time =>
      exact orderly_of_holds horderly hstaffed
        ⟨horderly.asks.callbacks, horderly.asks.workers⟩ rfl id id
  | @registered site callback hminds =>
      refine orderly_of_holds horderly hstaffed
        ⟨fun other hmem => ?_, horderly.asks.workers⟩ rfl id id
      rcases List.mem_append.1 hmem with hold | hnew
      · exact horderly.asks.callbacks other hold
      · exact List.mem_singleton.1 hnew ▸ hminds
  | @noted site name entry =>
      refine orderly_of_holds horderly hstaffed
        ⟨horderly.asks.callbacks, horderly.asks.workers⟩ rfl
        (fun {other serial} hholds => ?_)
        (fun hreaches => hreaches.after horderly.staffed.numbered [.record name entry])
      obtain ⟨job, hjob, hserial, hjoinable⟩ := hholds
      by_cases hname : name = other
      · subst hname
        exact ⟨_, (Jobs.puts_modify hjob fun found => found.noteHealth
          entry).get?_self, hserial, hjoinable⟩
      · refine ⟨job, ?_, hserial, hjoinable⟩
        rw [← hjob]
        exact (Jobs.get?_modify _ _ _ _).trans (if_neg hname)
  | called request => exact horderly.serve rfl request
  | wentOn hmove hended =>
      refine horderly.serve ?_ _
      rw [joins, Option.bind_some, hmove]
      exact hended
  | @returned shop errand after answer hmove hended =>
      refine ⟨horderly.staffed, horderly.asks, fun worker hmem => ?_,
        horderly.attended.joins_later⟩
      rcases horderly.attended.attended worker hmem with hholds | hpending | hjoined
      · exact .inl hholds
      · rw [joins, Option.bind_some, hmove] at hpending
        exact absurd hpending (Workshop.hasEnded_iff.1 hended worker hmem)
      · exact .inr (.inr hjoined)
  | acted hmem hfree =>
      exact horderly.acts hmem hfree (Workshop.acts_act horderly.staffed hmem)

/-- **Who joins whom is in order** at every site that can come of a workshop without
jobs. -/
theorem Reached.orderly
    {defaults : RetryPolicy} {history : List Transaction} {site : Site}
    (h : Reached defaults history site) :
    site.shop.Orderly site.joins := by
  induction h with
  | here =>
      refine ⟨Workshop.staffed_ofDefaults defaults, ⟨?_, ?_⟩, ⟨?_, ?_⟩⟩ <;>
        (intro _ hmem; cases hmem)
  | step _ hstep ih => exact hstep.orderly ih

end Site

/-! ## Stopping -/

/-- What is known of a request to stop the job of a name while it is under way. -/
structure Errand.Stopping
    (errand : Errand)
    (shop : Workshop)
    (name : String) : Prop where
  answers : ∃ after answer, errand.move = .answer after answer
  stops :
    errand.move.accepts = true →
    ∃ serial,
      errand.found = some serial ∧
      shop.jobs.Reaches name serial ∧
      (errand.move.after = some serial ∨
        ∀ worker ∈ shop.workers, worker.serial ≠ serial) ∧
      ((∀ callback ∈ shop.callbacks, callback.request = none) →
        ∃ job, shop.jobs.get? name = some job ∧ job.serial = serial)

/-- Workers that act by themselves leave a request to stop as it is. -/
theorem Errand.Stopping.frame
    {errand : Errand} {shop next : Workshop} {name : String}
    (h : errand.Stopping shop name)
    (hnumbered : shop.jobs.Numbered)
    {steps : List Transaction}
    (hjobs : next.jobs = shop.jobs.after steps)
    (hworkers :
        ∀ worker ∈ next.workers,
          (∃ old ∈ shop.workers, old.serial = worker.serial) ∨
          shop.jobs.issued ≤ worker.serial)
    (hsilent :
        (∀ callback ∈ next.callbacks, callback.request = none) →
        (∀ callback ∈ shop.callbacks, callback.request = none) ∧
        ∀ job,
          shop.jobs.get? name = some job →
          ∃ found, next.jobs.get? name = some found ∧ found.serial = job.serial) :
    errand.Stopping next name where
  answers := h.answers
  stops haccepts := by
    obtain ⟨serial, hfound, hreaches, hgone, hsame⟩ := h.stops haccepts
    refine ⟨serial, hfound, hjobs ▸ hreaches.after hnumbered steps, ?_, fun hnone => ?_⟩
    · refine hgone.imp_right fun hgone worker hmem heq => ?_
      rcases hworkers worker hmem with ⟨old, hold, hserial⟩ | hissued
      · exact hgone old hold (hserial.trans heq)
      · obtain ⟨job, hjob, hle⟩ := hreaches
        have hlt := hnumbered.lt hjob
        omega
    · obtain ⟨hbefore, hkeeps⟩ := hsilent hnone
      obtain ⟨job, hjob, hserial⟩ := hsame hbefore
      obtain ⟨found, hfound', hserial'⟩ := hkeeps job hjob
      exact ⟨found, hfound', hserial'.trans hserial⟩

namespace Workshop

/-- A worker whose callbacks ask nothing starts no job. -/
theorem Acts.keeps_serial
    {shop next : Workshop} {worker : Worker} {steps : List Transaction}
    (hacts : Acts shop worker steps next)
    (hstaffed : shop.Staffed)
    (hmem : worker ∈ shop.workers)
    (hsilent : shop.Asks fun _ _ => False)
    {name : String} {job : Job}
    (hjob : shop.jobs.get? name = some job) :
    ∃ found, next.jobs.get? name = some found ∧ found.serial = job.serial := by
  cases hacts with
  | turned hnext hopen hasks hawaits => exact ⟨job, hnext.jobs ▸ hjob, rfl⟩
  | asked hopen hasks hnext => exact (hasks _ (fun _ _ h => h) hsilent).1.elim
  | @published ending status next hopen hended hname hnext =>
      obtain ⟨own, hown, hserial, -, hrunning⟩ := hstaffed.open_running worker hmem hopen
      have hput :=
        Jobs.puts_publish hown (Job.isRunning_iff.2 hrunning) ending.outcome shop.now
      rw [hserial] at hput
      rw [hnext.jobs]
      by_cases heq : worker.name = name
      · subst heq
        obtain rfl := Option.some.inj (hown.symm.trans hjob)
        exact ⟨_, hput.get?_self, rfl⟩
      · exact ⟨job, (hput.get?_of_ne heq).trans hjob, rfl⟩
  | ended hclosed hjobs hcallbacks hworkers => exact ⟨job, hjobs ▸ hjob, rfl⟩

/-- **A caller that stops a job joins its worker, or the worker has ended.** -/
theorem Orderly.stopping
    {shop : Workshop}
    (h : shop.Orderly none)
    (name : String) :
    Errand.Stopping ⟨.stop name, (shop.jobs.get? name).map Job.serial,
      (shop.serve .outside (.stop name)).2⟩ (shop.serve .outside (.stop name)).1
      name := by
  have hserved := shop.served .outside (.stop name)
  have hworkers : ∀ worker ∈ (shop.serve .outside (.stop name)).1.workers,
      worker ∈ shop.workers ∨ shop.jobs.issued ≤ worker.serial :=
    fun _ hmem => (h.staffed.mem_of_mem_serve _ _ hmem).imp_right And.left
  generalize (shop.serve .outside (.stop name)).1 = next at hserved hworkers
  generalize (shop.serve .outside (.stop name)).2 = move at hserved
  generalize hjobs : next.jobs = jobs at hserved
  cases hserved with
  | refused hstops hfails hanswer =>
      exact ⟨⟨_, _, rfl⟩, fun haccepts => by simp [hanswer] at haccepts⟩
  | @stopped _ job jobs hfound hnext =>
      subst hjobs
      refine ⟨⟨_, _, rfl⟩, fun _ => ⟨job.serial, by rw [hfound]; rfl, ?_, ?_, fun _ => ?_⟩⟩
      · exact ⟨_, hnext.get?_self, Nat.le_of_eq (Job.serial_asked _ _ _).symm⟩
      · cases hjoinable : job.joinable with
        | true =>
            refine .inl (Caller.joins_eq_some_iff.2 ⟨hjoinable, fun heq => ?_, rfl⟩)
            cases heq
        | false =>
            refine .inr fun worker hmem heq => ?_
            rcases hworkers worker hmem with hold | hissued
            · obtain ⟨own, hown, hserial, howned⟩ := h.holds hold
              obtain rfl := h.staffed.numbered.name_eq hown hfound (hserial.trans heq)
              obtain rfl := Option.some.inj (hown.symm.trans hfound)
              rw [hjoinable] at howned
              cases howned
            · have hlt := h.staffed.numbered.lt hfound
              omega
      · exact ⟨_, hnext.get?_self, Job.serial_asked _ _ _⟩
  | joined hstarts => cases hstarts

end Workshop

namespace Site

/-- What is known of a request to stop the job of a name, if the caller has made one. -/
def Stopping (site : Site) (name : String) : Prop :=
  ∀ errand, site.errand = some errand → errand.request = .stop name → errand.Stopping
    site.shop name

theorem Step.stopping
    {site next : Site} {steps : List Transaction}
    (h : Step site steps next)
    (horderly : site.shop.Orderly site.joins)
    (hsilent :
        (∀ callback ∈ site.shop.callbacks, callback.request = none) →
        site.shop.Asks fun _ _ => False)
    {name : String}
    (hstopping : site.Stopping name) :
    next.Stopping name := by
  have hnumbered := horderly.staffed.numbered
  have hjobs := h.jobs horderly.staffed
  intro errand herrand hrequest
  cases h with
  | waited time =>
      exact (hstopping errand herrand hrequest).frame hnumbered hjobs
        (fun worker hmem => .inl ⟨worker, hmem, rfl⟩)
        (fun hnone => ⟨hnone, fun job hjob => ⟨job, hjob, rfl⟩⟩)
  | registered hminds =>
      exact (hstopping errand herrand hrequest).frame hnumbered hjobs
        (fun worker hmem => .inl ⟨worker, hmem, rfl⟩)
        (fun hnone => ⟨fun callback hmem => hnone callback (List.mem_append_left _ hmem),
          fun job hjob => ⟨job, hjob, rfl⟩⟩)
  | @noted site other entry =>
      refine (hstopping errand herrand hrequest).frame hnumbered hjobs
        (fun worker hmem => .inl ⟨worker, hmem, rfl⟩)
          (fun hnone => ⟨hnone, fun job hjob => ?_⟩)
      obtain ⟨hgone, -⟩ | ⟨old, changed, hold, hchanged, hserial, -⟩ :=
        (Jobs.quiet_recordHealth site.shop.jobs other entry).get? name
      · rw [hgone] at hjob
        cases hjob
      · obtain rfl := Option.some.inj (hold.symm.trans hjob)
        exact ⟨changed, hchanged, hserial⟩
  | called request =>
      cases herrand
      cases hrequest
      exact horderly.stopping name
  | wentOn hmove hended =>
      cases herrand
      obtain ⟨after, answer, hanswer⟩ := (hstopping _ rfl hrequest).answers
      rw [hmove] at hanswer
      cases hanswer
  | returned hmove hended => cases herrand
  | @acted site worker hmem hfree =>
      have hacts := Workshop.acts_act horderly.staffed hmem
      refine (hstopping errand herrand hrequest).frame hnumbered hjobs
        (fun other hother => hacts.serial_cases horderly.staffed hmem hother)
          (fun hnone => ?_)
      have hbefore : ∀ callback ∈ site.shop.callbacks, callback.request = none :=
        hacts.callbacks ▸ hnone
      exact ⟨hbefore,
        fun job hjob =>
          hacts.keeps_serial horderly.staffed hmem (hsilent hbefore) hjob⟩

theorem Reached.silent
    {defaults : RetryPolicy} {history : List Transaction} {site : Site}
    (h : Reached defaults history site)
    (hnone : ∀ callback ∈ site.shop.callbacks, callback.request = none) :
    site.shop.Asks fun _ _ => False := by
  refine h.asks (fun _ _ hnever => hnever) fun callback hmem request hrequest => ?_
  rw [hnone callback hmem] at hrequest
  cases hrequest

theorem Reached.stopping
    {defaults : RetryPolicy} {history : List Transaction} {site : Site}
    (h : Reached defaults history site)
    (name : String) :
    site.Stopping name := by
  induction h with
  | here =>
      intro errand herrand
      cases herrand
  | step hbefore hstep ih =>
      exact hstep.stopping (Reached.orderly hbefore) (Reached.silent hbefore) ih

end Site

end PhaseFlow
