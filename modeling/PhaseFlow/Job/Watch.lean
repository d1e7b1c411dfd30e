import PhaseFlow.Job.Workshop

/-!
# Watching jobs

A watch checks a job at regular intervals. A check asks a probe, adds what was found to
the health history of the job, and counts the failed checks in a row. When the count
reaches the threshold it starts again from zero, and the job is restarted if the watch
may do so and has restarts left.

* `Watch.note` is the bookkeeping of one check, and says whether a restart is due.
* `Monitor.check` is a whole check of a job at work. A restart that fails is not
  counted.
-/

namespace PhaseFlow

/-- A probe: from the name of a job and the jobs to what is found, or the text of an
error. -/
abbrev Probe :=
  String → Jobs → Except String HealthRecord

namespace Probe

/-- The probe that finds a job unhealthy if it is missing or has failed. -/
def standard : Probe := fun name jobs =>
  .ok <|
    match jobs.get? name with
    | none => ⟨false, "job not found"⟩
    | some job =>
        if job.state = .failed then ⟨false, "job failed: " ++ job.error⟩
        else ⟨true, job.state.name⟩

/-- What a probe finds; an error of the probe counts as an unhealthy job, and its text
ends before the first NUL character. -/
def find (probe : Probe) (name : String) (jobs : Jobs) : HealthRecord :=
  match probe name jobs with
  | .ok found => found
  | .error text => ⟨false, "probe error: " ++ Text.beforeNul text⟩

end Probe

/-- How a watch checks its job: every so many milliseconds, with a restart due after
`threshold` failed checks in a row, and at most `maxRestarts` of them, of which zero is
no limit. -/
structure WatchOptions where
  interval : Int := 1000
  restart : Bool := true
  threshold : Nat := 3
  maxRestarts : Nat := 5
  deriving DecidableEq

/-- Why settings of a watch are refused. -/
def WatchOptions.fault? (options : WatchOptions) : Option ConfigurationFault :=
  if options.interval ≤ 0 then some .intervalNotPositive
  else if options.threshold = 0 then some .thresholdZero
  else none

/-- The watch over a job, with the failed checks in a row below the threshold and the
restarts made. -/
structure Watch where
  options : WatchOptions
  probe : Probe := .standard
  failures : Nat := 0
  restarts : Nat := 0

namespace Watch

/-- Whether the watch may restart its job once more. -/
def mayRestart (watch : Watch) : Bool :=
  watch.options.restart &&
    (watch.options.maxRestarts = 0 || watch.restarts < watch.options.maxRestarts)

/-- The watch after a check, and whether a restart is due. -/
def note (watch : Watch) (healthy : Bool) : Watch × Bool :=
  if healthy then ({ watch with failures := 0 }, false)
  else if watch.failures + 1 < watch.options.threshold then
    ({ watch with failures := watch.failures + 1 }, false)
  else ({ watch with failures := 0 }, watch.mayRestart)

/-- The count of failures stays below a positive threshold. -/
theorem failures_note_lt
    (watch : Watch)
    (healthy : Bool)
    (h : 0 < watch.options.threshold) :
    (watch.note healthy).1.failures < watch.options.threshold := by
  unfold note
  split
  · exact h
  · split
    · assumption
    · exact h

/-- The watch after a restart has succeeded. -/
def noteRestart (watch : Watch) : Watch :=
  { watch with restarts := watch.restarts + 1 }

end Watch

/-- The watches by the name of the job. -/
structure Monitor where
  watches : KeyMap Watch := KeyMap.empty

namespace Monitor

/-- No watches. -/
def empty : Monitor :=
  {}

/-- The watch over a job. -/
def get? (monitor : Monitor) (name : String) : Option Watch :=
  monitor.watches.get? name

/-- Whether a job is watched. -/
def isWatching (monitor : Monitor) (name : String) : Bool :=
  monitor.watches.contains name

/-- The names of the jobs that are watched, ascending. -/
def watched (monitor : Monitor) : List String :=
  monitor.watches.keys

/-- The failed checks in a row; zero for a job that is not watched. -/
def failures (monitor : Monitor) (name : String) : Nat :=
  ((monitor.get? name).map Watch.failures).getD 0

/-- The restarts made; zero for a job that is not watched. -/
def restarts (monitor : Monitor) (name : String) : Nat :=
  ((monitor.get? name).map Watch.restarts).getD 0

/-- The monitor with a watch over one more job, which need not exist. -/
def watch
    (monitor : Monitor)
    (name : String)
    (options : WatchOptions)
    (probe : Probe) :
    Result Monitor :=
  match options.fault? with
  | some fault => refuse fault
  | none =>
      if monitor.isWatching name then refuse (.alreadyWatched name)
      else .ok ⟨monitor.watches.insert name { options := options, probe := probe }⟩

/-- The monitor without the watch over a job. -/
def unwatch (monitor : Monitor) (name : String) : Monitor :=
  ⟨monitor.watches.erase name⟩

/-- The monitor with the watch over a job changed. -/
def modify
    (monitor : Monitor)
    (name : String)
    (change : Watch → Watch) :
    Monitor :=
  ⟨monitor.watches.modify name change⟩

/-- Whether a request was carried out. -/
def succeeded : Option (Result JobAnswer) → Bool
  | some (.ok _) => true
  | _ => false

/-- **A check of a job**; nothing happens to a job that is not watched. -/
def check
    (monitor : Monitor)
    (shop : Workshop)
    (name : String) :
    Monitor × Workshop :=
  match monitor.get? name with
  | none => (monitor, shop)
  | some watch =>
      let found := watch.probe.find name shop.jobs
      let (shop, _) := shop.recordHealth name found
      let (watch, restartDue) := watch.note found.healthy
      let (watch, shop) :=
        if restartDue then
          let (shop, answer) := shop.request (.restart name)
          (if succeeded answer then watch.noteRestart else watch, shop)
        else (watch, shop)
      (monitor.modify name fun _ => watch, shop)

end Monitor

end PhaseFlow
