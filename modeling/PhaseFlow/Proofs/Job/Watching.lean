import PhaseFlow.Proofs.Job.Bookkeeping
import PhaseFlow.Proofs.Job.Working

/-!
# What a watch counts

A watch checks its job again and again. The jobs may stand in any way at a check, and
the probe may find anything, so the rounds of a watch are any list of workshops and
probes. The rounds are listed latest first.

* `streak` is the number of failed checks in a row, and `WatchOptions.Due` says when a
  restart is due.
* `Monitor.Tells` says what a monitor that has been watching tells after some rounds.
* `Monitor.Linked` says that nobody but the watch has run or restarted the job since it
  was run.
-/

namespace PhaseFlow

/-- A check of a job: the workshop at that time, and what is asked about the job. -/
structure Round where
  shop : Workshop
  probe : Probe

namespace Round

/-- What is recorded about a job. -/
def found (round : Round) (name : String) : HealthRecord :=
  round.probe.find name round.shop.jobs

/-- Whether a check succeeds; it fails if the probe raises an error. -/
def healthy (round : Round) (name : String) : Bool :=
  match round.probe name round.shop.jobs with
  | .ok found => found.healthy
  | .error _ => false

/-- The workshop once the check is recorded. -/
def recorded (round : Round) (name : String) : Workshop :=
  (round.shop.recordHealth name (round.found name)).1

/-- What comes of a restart, if the check makes one. -/
def restart
    (round : Round)
    (name : String) :
    Workshop × Option (Result JobAnswer) :=
  (round.recorded name).request (.restart name)

/-- Whether a restart succeeds, if the check makes one. -/
def restarts (round : Round) (name : String) : Bool :=
  Monitor.succeeded (round.restart name).2

theorem healthy_found
    (round : Round)
    (name : String) :
    (round.found name).healthy = round.healthy name := by
  unfold found Probe.find healthy
  cases round.probe name round.shop.jobs <;> rfl

end Round

/-- The number of failed checks in a row. -/
def streak (name : String) (rounds : List Round) : Nat :=
  (rounds.takeWhile fun round => !round.healthy name).length

/-- A healthy check ends a streak, and a failed one prolongs it. -/
theorem streak_cons
    (name : String)
    (round : Round)
    (earlier : List Round) :
    streak name (round :: earlier) =
      if round.healthy name = true then 0 else streak name earlier + 1 := by
  unfold streak
  cases hhealthy : round.healthy name with
  | true =>
      rw [List.takeWhile_cons_of_neg (by simp [hhealthy])]
      rfl
  | false =>
      rw [List.takeWhile_cons_of_pos (by simp [hhealthy])]
      rfl

/-- Whether a restart is due after so many failed checks in a row and so many
restarts. -/
def WatchOptions.Due (options : WatchOptions) (streak restarts : Nat) : Prop :=
  0 < streak ∧ options.threshold ∣ streak ∧ options.restart = true ∧
    (options.maxRestarts = 0 ∨ restarts < options.maxRestarts)

instance
    (options : WatchOptions)
    (streak restarts : Nat) :
    Decidable (options.Due streak restarts) :=
  inferInstanceAs (Decidable (_ ∧ _))

/-- The number of restarts that were due in some rounds and succeeded. -/
def successes (options : WatchOptions) (name : String) : List Round → Nat
  | [] => 0
  | round :: earlier =>
      successes options name earlier +
        if options.Due (streak name (round :: earlier)) (successes options name earlier) ∧
          round.restarts name = true then 1 else 0

/-- No more restarts succeed than are allowed. -/
theorem successes_le
    {options : WatchOptions}
    (h : 0 < options.maxRestarts)
    (name : String)
    (rounds : List Round) :
    successes options name rounds ≤ options.maxRestarts := by
  induction rounds with
  | nil => exact Nat.zero_le _
  | cons round earlier ih =>
      rw [successes]
      split
      · next hdue =>
          obtain ⟨-, -, -, hnone | hlt⟩ := hdue.1
          · omega
          · exact hlt
      · exact ih

/-! ## One check -/

/-- A watch has counted the failed checks in a row and the restarts. -/
structure Watch.Tallied
    (watch : Watch)
    (options : WatchOptions)
    (streak restarts : Nat) : Prop where
  options_eq : watch.options = options
  failures_eq : watch.failures = streak % options.threshold
  restarts_eq : watch.restarts = restarts

namespace Watch

theorem mayRestart_iff
    (watch : Watch) :
    watch.mayRestart = true ↔
      watch.options.restart = true ∧
      (watch.options.maxRestarts = 0 ∨
        watch.restarts < watch.options.maxRestarts) := by
  simp [mayRestart]

theorem Tallied.note_healthy
    {watch : Watch} {options : WatchOptions} {streak restarts : Nat}
    (h : watch.Tallied options streak restarts) :
    (watch.note true).1.Tallied options 0 restarts ∧
    ((watch.note true).2 = true ↔ options.Due 0 restarts) :=
  ⟨⟨h.options_eq, (Nat.zero_mod _).symm, h.restarts_eq⟩,
    iff_of_false Bool.false_ne_true fun hdue => hdue.1.ne rfl⟩

/-- The count of failed checks begins anew when it reaches the threshold. -/
theorem Tallied.note_unhealthy
    {watch : Watch} {options : WatchOptions} {streak restarts : Nat}
    (h : watch.Tallied options streak restarts)
    (hthreshold : 0 < options.threshold) :
    (watch.note false).1.Tallied options (streak + 1) restarts ∧
    ((watch.note false).2 = true ↔ options.Due (streak + 1) restarts) := by
  obtain ⟨rfl, hfailures, rfl⟩ := h
  have hlt := Nat.mod_lt streak hthreshold
  have hdivides :
      watch.options.threshold ∣ streak + 1 ↔
        (streak + 1) % watch.options.threshold = 0 :=
    Nat.dvd_iff_mod_eq_zero
  have hnext : (streak + 1) % watch.options.threshold =
      (streak % watch.options.threshold + 1) % watch.options.threshold :=
    (Nat.mod_add_mod _ _ _).symm
  rw [note, if_neg Bool.false_ne_true, hfailures]
  split
  · next hbelow =>
      rw [Nat.mod_eq_of_lt hbelow] at hnext
      refine ⟨⟨rfl, hnext.symm, rfl⟩, iff_of_false Bool.false_ne_true fun hdue => ?_⟩
      rw [hdivides.1 hdue.2.1] at hnext
      cases hnext
  · next hreached =>
      have hfull : streak % watch.options.threshold + 1 = watch.options.threshold := by omega
      rw [hfull, Nat.mod_self] at hnext
      refine ⟨⟨rfl, hnext.symm, rfl⟩, ?_⟩
      rw [mayRestart_iff]
      exact ⟨fun hmay => ⟨Nat.succ_pos _, hdivides.2 hnext, hmay⟩, fun hdue => hdue.2.2⟩

/-- **A check counts**, and says whether a restart is due. -/
theorem Tallied.note
    {watch : Watch} {options : WatchOptions} {streak restarts : Nat}
    (h : watch.Tallied options streak restarts)
    (hthreshold : 0 < options.threshold)
    (healthy : Bool) :
    (watch.note healthy).1.Tallied options
      (if healthy = true then 0 else streak + 1) restarts ∧
    ((watch.note healthy).2 = true ↔
        options.Due (if healthy = true then 0 else streak + 1) restarts) := by
  cases healthy with
  | true => exact h.note_healthy
  | false => exact h.note_unhealthy hthreshold

theorem Tallied.noteRestart
    {watch : Watch} {options : WatchOptions} {streak restarts : Nat}
    (h : watch.Tallied options streak restarts) :
    watch.noteRestart.Tallied options streak (restarts + 1) :=
  ⟨h.options_eq, h.failures_eq, congrArg (· + 1) h.restarts_eq⟩

end Watch

namespace Monitor

/-- A check that asks a probe of its own. -/
def checkAt
    (monitor : Monitor)
    (name : String)
    (round : Round) :
    Monitor × Workshop :=
  (monitor.modify name fun watch => { watch with probe := round.probe }).check
    round.shop name

/-- The monitor after some checks. -/
def checks (monitor : Monitor) (name : String) : List Round → Monitor
  | [] => monitor
  | round :: earlier => ((checks monitor name earlier).checkAt name round).1

/-- A monitor watches a job and has counted its failed checks in a row and its
restarts. -/
def Tallied
    (monitor : Monitor)
    (name : String)
    (options : WatchOptions)
    (streak restarts : Nat) :
    Prop :=
  ∃ watch, monitor.get? name = some watch ∧ watch.Tallied options streak restarts

theorem get?_modify
    (monitor : Monitor)
    (name : String)
    (change : Watch → Watch) :
    (monitor.modify name change).get? name = (monitor.get? name).map change :=
  (KeyMap.get?_modify _ _ _ _).trans (if_pos rfl)

theorem Tallied.failures
    {monitor : Monitor} {name : String} {options : WatchOptions}
    {streak restarts : Nat}
    (h : monitor.Tallied name options streak restarts) :
    monitor.failures name = streak % options.threshold := by
  obtain ⟨watch, hwatch, htallied⟩ := h
  rw [Monitor.failures, hwatch, ← htallied.failures_eq]
  rfl

theorem Tallied.restarts
    {monitor : Monitor} {name : String} {options : WatchOptions}
    {streak restarts : Nat}
    (h : monitor.Tallied name options streak restarts) :
    monitor.restarts name = restarts := by
  obtain ⟨watch, hwatch, htallied⟩ := h
  rw [Monitor.restarts, hwatch, ← htallied.restarts_eq]
  rfl

/-- A watch that is accepted has a positive threshold, and has counted nothing. -/
theorem tallied_of_watch
    {monitor watching : Monitor} {name : String} {options : WatchOptions}
    {probe : Probe}
    (h : monitor.watch name options probe = .ok watching) :
    0 < options.threshold ∧ watching.Tallied name options 0 0 := by
  unfold watch at h
  split at h
  · cases h
  · next hfault =>
      split at h
      · cases h
      · cases h
        refine ⟨Nat.pos_of_ne_zero fun hzero => ?_,
          { options := options, probe := probe }, KeyMap.get?_insert_self _ _ _,
          ⟨rfl, (Nat.zero_mod _).symm, rfl⟩⟩
        rw [WatchOptions.fault?, hzero, if_pos rfl] at hfault
        split at hfault <;> cases hfault

/-- **What a check does**, to the counts and to the jobs. -/
theorem Tallied.checkAt
    {monitor : Monitor} {name : String} {options : WatchOptions}
    {streak restarts : Nat}
    (h : monitor.Tallied name options streak restarts)
    (hthreshold : 0 < options.threshold)
    (round : Round)
    {now : Nat}
    (hnow : now = if round.healthy name = true then 0 else streak + 1) :
    (monitor.checkAt name round).1.Tallied name options now (restarts +
        if options.Due now restarts ∧ round.restarts name = true then 1 else 0) ∧
    (monitor.checkAt name round).2 =
      if options.Due now restarts then
        (round.restart name).1
      else round.recorded name := by
  obtain ⟨watch, hwatch, hcounted⟩ := h
  have hasked :
      ({ watch with probe := round.probe } : Watch).Tallied options streak restarts :=
    ⟨hcounted.options_eq, hcounted.failures_eq, hcounted.restarts_eq⟩
  obtain ⟨hnoted, hdue⟩ := hasked.note hthreshold (round.healthy name)
  rw [← hnow] at hnoted hdue
  have hget :
      (monitor.modify name fun watch =>
          { watch with probe := round.probe }).get? name =
        some { watch with probe := round.probe } := by
    rw [get?_modify, hwatch, Option.map_some]
  have hfound : (round.probe.find name round.shop.jobs).healthy = round.healthy name :=
    round.healthy_found name
  unfold Monitor.checkAt check
  rw [hget]
  simp only [hfound]
  by_cases hrestart : options.Due now restarts
  · rw [if_pos hrestart]
    simp only [hdue.2 hrestart, if_true]
    refine ⟨⟨_, by rw [get?_modify, hget, Option.map_some], ?_⟩, rfl⟩
    show (if round.restarts name = true then _ else _ : Watch).Tallied options now _
    by_cases hsucceeds : round.restarts name = true
    · rw [if_pos hsucceeds, if_pos ⟨hrestart, hsucceeds⟩]
      exact hnoted.noteRestart
    · rw [if_neg hsucceeds, if_neg fun hboth => hsucceeds hboth.2]
      exact hnoted
  · have hnot := Bool.eq_false_iff.2 fun htrue => hrestart (hdue.1 htrue)
    simp only [hnot, Bool.false_eq_true, if_false, hrestart, false_and, Nat.add_zero]
    exact ⟨⟨_, by rw [get?_modify, hget, Option.map_some], hnoted⟩, rfl⟩

/-- Round by round, a monitor counts the streak and the restarts that have succeeded. -/
theorem tallied_checks
    {monitor watching : Monitor} {name : String} {options : WatchOptions}
    {probe : Probe}
    (h : monitor.watch name options probe = .ok watching)
    (rounds : List Round) :
    (watching.checks name rounds).Tallied name options (streak name rounds)
      (successes options name rounds) := by
  obtain ⟨hthreshold, hnothing⟩ := tallied_of_watch h
  induction rounds with
  | nil => exact hnothing
  | cons round earlier ih =>
      exact (ih.checkAt hthreshold round (streak_cons name round earlier)).1

end Monitor

/-! ## The restarts of the job -/

namespace Workshop

/-- Steps that start no job of a name leave its restarts as they are. -/
theorem Counts.continues
    {shop next : Workshop} {name : String} {count : Nat}
    (h : shop.Counts name count)
    (hstaffed : next.Staffed)
    {steps : List Transaction}
    (hjobs : next.jobs = shop.jobs.after steps)
    (hnot : ∀ entry ∈ Jobs.bookings name shop.jobs steps, entry.starts = false) :
    next.Counts name count := by
  obtain ⟨hbefore, job, hjob, rfl⟩ := h
  obtain ⟨found, hfound, hcontinues | ⟨-, entry, hentry, hstarts⟩⟩ :=
    Jobs.continues_after hbefore.numbered hjob steps
  · exact ⟨hstaffed, found, hjobs ▸ hfound, hcontinues.restartCount⟩
  · rw [hnot entry hentry] at hstarts
    cases hstarts

theorem Counts.recordHealth
    {shop : Workshop} {name : String} {count : Nat}
    (h : shop.Counts name count)
    (entry : HealthRecord) :
    (shop.recordHealth name entry).1.Counts name count := by
  have hjobs :
      (shop.recordHealth name entry).1.jobs = shop.jobs.after [.record name entry] :=
    rfl
  refine h.continues (h.staffed.quiet (Jobs.quiet_recordHealth _ name entry) rfl) hjobs
    fun booking hbooking => ?_
  rw [Jobs.bookings, Jobs.bookings, List.append_nil, Jobs.booked] at hbooking
  split at hbooking
  · cases List.mem_singleton.1 hbooking
    rfl
  · cases hbooking

end Workshop

/-- The job of a name was run once and is not replaced since. -/
def Jobs.RanOnce (name : String) (history : List Transaction) : Prop :=
  ∃ spec, (bookings name Jobs.empty history).filter Booking.starts = [.ran spec]

/-- A job that was run once has not been restarted. -/
theorem Jobs.RanOnce.counts
    {name : String} {history : List Transaction}
    (h : RanOnce name history)
    {defaults : RetryPolicy} {shop : Workshop}
    (hreached : Site.Reached defaults history ⟨shop, none⟩) :
    shop.Counts name 0 := by
  obtain ⟨spec, hfilter⟩ := h
  have hkept := Jobs.keptBy_after history name
  rw [← hreached.jobs] at hkept
  cases hfound : shop.jobs.get? name with
  | none =>
      rw [hkept.1 hfound] at hfilter
      cases hfilter
  | some job =>
      refine ⟨hreached.staffed, job, hfound, (hkept.2 job hfound).restartCount.trans ?_⟩
      refine List.countP_eq_zero.2 fun booking hbooking hrestart => ?_
      have hmem := (List.takeWhile_sublist _).subset hbooking
      have hstarts : booking.starts = true := by
        cases booking <;> first | rfl | cases hrestart
      have hran := List.mem_filter.2 ⟨List.mem_reverse.1 hmem, hstarts⟩
      rw [hfilter, List.mem_singleton] at hran
      rw [hran] at hrestart
      cases hrestart

namespace Monitor

/-- The job was run once before the first of some rounds, and nobody else has run or
restarted it since: neither a callback nor a caller between two rounds. -/
def Linked (watching : Monitor) (name : String) : List Round → Prop
  | [] => True
  | [round] => round.shop.Leaves name ∧ ∃ defaults history,
      Site.Reached defaults history ⟨round.shop, none⟩ ∧ Jobs.RanOnce name history
  | round :: last :: earlier => round.shop.Leaves name ∧
      (∃ history, Site.Leads ⟨((watching.checks name earlier).checkAt name last).2,
        none⟩ history
          ⟨round.shop, none⟩ ∧
        ∀ entry ∈ Jobs.bookings name
          ((watching.checks name earlier).checkAt name last).2.jobs history,
          entry.starts = false) ∧
      Linked watching name (last :: earlier)

/-- The restarts that a job counts are those of the watch, if nobody else runs or
restarts it. -/
theorem counts_of_linked
    {monitor watching : Monitor} {name : String} {options : WatchOptions}
    {probe : Probe}
    (h : monitor.watch name options probe = .ok watching)
    (round : Round)
    (earlier : List Round)
    (hlinked : watching.Linked name (round :: earlier)) :
    ((watching.checks name earlier).checkAt name round).2.Counts name
      (successes options name (round :: earlier)) := by
  obtain ⟨hthreshold, -⟩ := tallied_of_watch h
  have hcheck : ∀ (round : Round) (earlier : List Round), round.shop.Leaves name →
      round.shop.Counts name (successes options name earlier) →
        ((watching.checks name earlier).checkAt name round).2.Counts name
          (successes options name (round :: earlier)) := by
    intro round earlier hleaves hcounts
    have hrecorded : (round.recorded name).Counts name _ := hcounts.recordHealth _
    rw [((tallied_checks h earlier).checkAt hthreshold round
      (streak_cons name round earlier)).2, successes]
    split
    · next hdue =>
        have hrestart :=
          Workshop.restart_counts hrecorded ⟨hleaves.callbacks, hleaves.workers⟩
        simp only [hdue, true_and]
        exact hrestart
    · next hnot =>
        simp only [hnot, false_and, if_false, Nat.add_zero]
        exact hrecorded
  induction earlier generalizing round with
  | nil =>
      obtain ⟨hleaves, defaults, history, hreached, honce⟩ := hlinked
      exact hcheck round [] hleaves (honce.counts hreached)
  | cons last earlier ih =>
      obtain ⟨hleaves, ⟨history, hleads, hnot⟩, hbefore⟩ := hlinked
      have hlast := ih last hbefore
      exact hcheck round (last :: earlier) hleaves
        (hlast.continues (hleads.staffed hlast.staffed) (hleads.jobs hlast.staffed) hnot)

/-- **A workshop that is left alone between two checks links them.** -/
theorem linked_of_works
    {monitor watching : Monitor} {name : String} {options : WatchOptions}
    {probe : Probe}
    (h : monitor.watch name options probe = .ok watching)
    {round last : Round} {earlier : List Round}
    (hlinked : watching.Linked name (last :: earlier))
    {history : List Transaction}
    (hworks :
        ((watching.checks name earlier).checkAt name last).2.Works history round.shop)
    (hleaves : ((watching.checks name earlier).checkAt name last).2.Leaves name) :
    watching.Linked name (round :: last :: earlier) := by
  have hstaffed := (counts_of_linked h last earlier hlinked).staffed
  obtain ⟨hafter, hnothing⟩ := hworks.bookings_eq_nil hstaffed hleaves
  refine ⟨hafter, ⟨history, hworks.leads none, fun entry hentry => ?_⟩, hlinked⟩
  rw [hnothing] at hentry
  cases hentry

/-- What a monitor that watches a job tells after some rounds. A check restarts the job
when a restart is due, and records only what it has found otherwise; the job counts the
same restarts as the watch if nobody else runs or restarts it. -/
structure Tells
    (watching : Monitor)
    (name : String)
    (options : WatchOptions)
    (rounds : List Round) : Prop where
  failures :
    (watching.checks name rounds).failures name =
      streak name rounds % options.threshold
  failures_lt : (watching.checks name rounds).failures name < options.threshold
  restarts :
    (watching.checks name rounds).restarts name = successes options name rounds
  restarts_le : 0 < options.maxRestarts →
    (watching.checks name rounds).restarts name ≤ options.maxRestarts
  attempt :
    ∀ round,
      ((watching.checks name rounds).checkAt name round).2 =
        if options.Due (streak name (round :: rounds))
          ((watching.checks name rounds).restarts name) then
          (round.restart name).1
        else round.recorded name
  restartCount :
    ∀ round,
      watching.Linked name (round :: rounds) →
      ∃ job,
        ((watching.checks name rounds).checkAt name round).2.jobs.get? name =
          some job ∧
        job.restartCount = (watching.checks name (round :: rounds)).restarts name

/-- **A watch counts rightly**, whatever its checks find and whatever comes of its
restarts. -/
theorem watching_tells
    {monitor watching : Monitor} {name : String} {options : WatchOptions}
    {probe : Probe}
    (h : monitor.watch name options probe = .ok watching)
    (rounds : List Round) :
    watching.Tells name options rounds := by
  obtain ⟨hthreshold, -⟩ := tallied_of_watch h
  have htallied := tallied_checks h rounds
  refine ⟨htallied.failures, ?_, htallied.restarts, fun hlimit => ?_, fun round => ?_,
    fun round hlinked => ?_⟩
  · rw [htallied.failures]
    exact Nat.mod_lt _ hthreshold
  · rw [htallied.restarts]
    exact successes_le hlimit name rounds
  · rw [htallied.restarts]
    exact (htallied.checkAt hthreshold round (streak_cons name round rounds)).2
  · rw [(tallied_checks h (round :: rounds)).restarts]
    exact (counts_of_linked h round rounds hlinked).found

/-! A job that was run once is watched, and left alone between two checks that fail. -/

/-- The workshop where a job was run. -/
def begun : Workshop :=
  ((Workshop.ofDefaults {}).serve .outside (.run "ping" {})).1

/-- A check whose probe raises an error. -/
def failing : Round :=
  ⟨begun, fun _ _ => .error "unreachable"⟩

/-- Another such check, a second later. -/
def failingAgain : Round :=
  ⟨(failing.recorded "ping").advanceTo 1000, failing.probe⟩

theorem linked_failing
    (watching : Monitor) :
    watching.Linked "ping" [failing] := by
  refine ⟨⟨fun callback hmem => (by cases hmem), fun worker hmem => ?_⟩, {}, _,
    (Site.Leads.here.step (.called (.run "ping" {}))).step (.returned rfl rfl), {}, rfl⟩
  cases List.mem_singleton.1 hmem
  exact trivial

theorem linked_failingAgain
    {watching : Monitor}
    (h : empty.watch "ping" { threshold := 2 } .standard = .ok watching) :
    watching.Linked "ping" [failingAgain, failing] := by
  have hlinked := linked_failing watching
  have hleaves : failing.shop.Leaves "ping" := hlinked.1
  have hshop :
      ((watching.checks "ping" []).checkAt "ping" failing).2 = failing.recorded "ping" := by
    cases h
    rfl
  obtain ⟨history, hworks⟩ :
      ∃ history, (failing.recorded "ping").Works history failingAgain.shop :=
    Workshop.works_advanceTo _ 1000
  rw [← hshop] at hworks
  refine linked_of_works h hlinked hworks ?_
  rw [hshop]
  exact ⟨hleaves.callbacks, hleaves.workers⟩

theorem watching_tells_failing :
    ∃ watching,
      empty.watch "ping" { threshold := 2 } .standard = .ok watching ∧
      watching.Tells "ping" { threshold := 2 } [failingAgain, failing] ∧
      watching.Linked "ping" [failingAgain, failing] ∧
      streak "ping" [failingAgain, failing] = 2 ∧
      successes { threshold := 2 } "ping" [failingAgain, failing] = 1 ∧
      ∃ job,
        ((watching.checks "ping" [failing]).checkAt "ping"
            failingAgain).2.jobs.get? "ping" =
          some job ∧
        job.restartCount = 1 := by
  have hwatch : empty.watch "ping" { threshold := 2 } .standard = .ok _ := rfl
  have hlinked := linked_failingAgain hwatch
  have hrestarts : failingAgain.restarts "ping" = true := by decide +kernel
  have hsuccesses : successes { threshold := 2 } "ping" [failingAgain, failing] = 1 := by
    rw [successes, hrestarts]
    rfl
  have htells := watching_tells hwatch [failingAgain, failing]
  obtain ⟨job, hjob, hcount⟩ :=
    (watching_tells hwatch [failing]).restartCount failingAgain hlinked
  rw [htells.restarts, hsuccesses] at hcount
  exact ⟨_, hwatch, htells, hlinked, rfl, hsuccesses, job, hjob, hcount⟩

end Monitor

end PhaseFlow
