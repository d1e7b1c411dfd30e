import PhaseFlow.Log.Line
import PhaseFlow.Proofs.Phase.Script

/-!
# The log of a phase

A log that is written in full, previews aside, tells the course of a phase: that it
begins, of each attempt that it starts and that it is to be repeated, and in the end one
of two things, completion or failure. Which attempts are to be repeated is settled by
the script of the phase (`Script.repeats`): those that failed within their time limit,
unless they are the last ones that the policy allows. How the log ends is settled by the
outcome (`ending`).

An attempt whose result the JSON library does not write makes the log claim that the
phase has completed (`Script.claims`), and the phase goes on. So the log says as many
times more that the phase is over as there are such attempts (`LogsCourse`), and it
keeps what a log should be exactly without them (`LogsOneEnd`).

`Script.Logs` is kept from the last attempt back to the first, along the steps of
`Script.Step`. Main statement: `phase_logs_its_course`.
-/

namespace PhaseFlow

namespace Log

/-- Whether an event shows data. -/
def Event.isPreview : Event → Bool
  | .preview .. => true
  | _ => false

/-- Whether an event says that a phase is over. -/
def Event.endsPhase : Event → Bool
  | .transition _ _ state => state = "COMPLETED" || state = "FAILED"
  | _ => false

/-- The events that do not show data. -/
def withoutPreviews (events : List Event) : List Event :=
  events.filter fun event => !event.isPreview

theorem withoutPreviews_append
    (events more : List Event) :
    withoutPreviews (events ++ more) =
      withoutPreviews events ++ withoutPreviews more :=
  List.filter_append ..

/-- With the finest severity everything is written but previews that are switched
off. -/
theorem admits_eq
    {config : Config}
    (hlevel : config.minLevel = .debug)
    (event : Event) :
    config.admits event = (config.previews || !event.isPreview) := by
  cases event <;> simp [Config.admits, Event.isPreview, hlevel, Level.isBelow, Level.rank]

theorem filter_admits
    {config : Config}
    (hlevel : config.minLevel = .debug)
    (hpreviews : config.previews = false)
    (events : List Event) :
    events.filter config.admits = withoutPreviews events := by
  refine List.filter_congr fun event _ => ?_
  rw [admits_eq hlevel, hpreviews, Bool.false_or]

end Log

namespace Execution

theorem unwritten?_of_writes
    {writer : Json.Writer} {value : Json}
    (hwrites : writer.Writes value) :
    unwritten? writer (.ok value) = none := by
  show (if value.isNull then none else writer.objection value) = none
  rw [hwrites, ite_self]

namespace Script

/-- What the JSON library objects to in the result of an attempt. -/
def objection? (script : Script) (number : Nat) : Option String :=
  (script.attempt number).outcome.bind (unwritten? script.invocation.writer)

/-- The text of an attempt that failed within its time limit. -/
def failure? (script : Script) (number : Nat) : Option String :=
  match (script.attempt number).outcome with
  | some (.ok .null) => some "executor returned no result"
  | some (.ok value) => script.invocation.writer.objection value
  | some (.error raised) => some raised.message
  | none => none

/-- The state that was reported last after some attempts. -/
def reported (script : Script) : Nat → PhaseState
  | 0 => .running
  | done + 1 =>
      if (script.objection? (done + 1)).isSome then .completed else script.reported
        done

/-- What the log tells of the start of an attempt. -/
def begins (script : Script) (number : Nat) : Log.Event :=
  .phaseStart (script.invocation.subject number) script.invocation.input.byteSize
    script.invocation.progress

/-- The log claims that the phase has completed if the result of the attempt is not
written. -/
def claims (script : Script) (number : Nat) : List Log.Event :=
  (script.objection? number).toList.map fun _ =>
    transition (script.invocation.subject number) (script.reported (number - 1)) .completed

/-- The log tells that an attempt is to be repeated if it failed and the policy allows
another one. -/
def repeats (script : Script) (number : Nat) : List Log.Event :=
  if number < script.policy.retries then
    (script.failure? number).toList.map fun text =>
      .phaseRetry (script.invocation.subject number) text script.policy.delay
  else []

/-- What the log tells of an attempt. -/
def told (script : Script) (number : Nat) : List Log.Event :=
  script.begins number :: (script.claims number ++ script.repeats number)

end Script

/-- What the log tells of the end of a phase that is in some state after some
attempts. -/
def ending
    (invocation : Invocation)
    (attempts : Nat)
    (state : PhaseState) :
    Except Failure Completion → List Log.Event
  | .ok done =>
      [transition (invocation.subject attempts) state .completed,
        .phaseComplete (invocation.subject attempts) attempts (Binary64.ofNat done.duration)
          done.output.byteSize invocation.progress]
  | .error failure =>
      [transition (invocation.subject attempts) state .failed,
        .error (invocation.subject attempts) failure.lastError "execute-phase"]

namespace Script

variable {script : Script} {number done count : Nat}

/-! ## One attempt -/

theorem objection?_of_outcome
    {outcome : Outcome}
    (h : (script.attempt number).outcome = some outcome) :
    script.objection? number = unwritten? script.invocation.writer outcome := by
  rw [objection?, h]
  rfl

theorem objection?_of_timedOut
    (h : (script.attempt number).outcome = none) :
    script.objection? number = none := by
  rw [objection?, h]
  rfl

theorem failure?_of_completed
    {value : Json}
    (h : (script.attempt number).outcome = some (.ok value))
    (hvalue : value ≠ .null)
    (hwrites : script.invocation.writer.Writes value) :
    script.failure? number = none := by
  unfold failure?
  rw [h]
  cases value with
  | null => exact absurd rfl hvalue
  | _ => exact hwrites

theorem failure?_of_timedOut
    (h : (script.attempt number).outcome = none) :
    script.failure? number = none := by
  unfold failure?
  rw [h]

theorem failure?_of_fails
    {outcome : Outcome} {text : String}
    (h : (script.attempt number).outcome = some outcome)
    (hfails : Fails script.invocation.writer outcome text) :
    script.failure? number = some text := by
  unfold failure?
  rw [h]
  cases hfails with
  | @unwritten value _ hvalue hobjection =>
      cases value with
      | null => exact absurd rfl hvalue
      | _ => exact hobjection
  | _ => rfl

theorem reported_succ_of_none
    (h : script.objection? (done + 1) = none) :
    script.reported (done + 1) = script.reported done := by
  simp [reported, h]

/-- The state that an attempt leaves behind has been reported. -/
theorem state_trailAfter
    {trail : Trail} {outcome : Outcome}
    (h : (script.attempt (done + 1)).outcome = some outcome)
    (htrail : trail.state = script.reported done) :
    (trailAfter script.invocation trail outcome).state =
      script.reported (done + 1) := by
  rw [reported, objection?_of_outcome h, ← htrail]
  rfl

theorem unwrittenEvents_eq_claims
    {trail : Trail} {outcome : Outcome}
    (h : (script.attempt (done + 1)).outcome = some outcome)
    (htrail : trail.state = script.reported done) :
    unwrittenEvents script.invocation (done + 1) trail.state outcome =
      script.claims (done + 1) := by
  rw [claims, objection?_of_outcome h, Nat.add_sub_cancel, ← htrail]
  rfl

/-- An attempt that did not fail is not to be repeated. -/
theorem told_of_none
    (hobjection : script.objection? number = none)
    (hfailure : script.failure? number = none) :
    script.told number = [script.begins number] := by
  simp [told, claims, repeats, hobjection, hfailure]

theorem repeats_of_le
    (h : script.policy.retries ≤ number) :
    script.repeats number = [] := by
  rw [repeats, if_neg (Nat.not_lt.2 h)]

theorem repeats_of_fails
    {outcome : Outcome} {text : String}
    (h : (script.attempt number).outcome = some outcome)
    (hfails : Fails script.invocation.writer outcome text)
    (hmore : number < script.policy.retries) :
    script.repeats number =
      [.phaseRetry (script.invocation.subject number) text script.policy.delay] := by
  rw [repeats, if_pos hmore, failure?_of_fails h hfails]
  rfl

theorem withoutPreviews_startEvents
    (script : Script)
    (number : Nat) :
    Log.withoutPreviews (startEvents script.invocation number) =
      [script.begins number] :=
  rfl

theorem withoutPreviews_claims
    (script : Script)
    (number : Nat) :
    Log.withoutPreviews (script.claims number) = script.claims number := by
  refine List.filter_eq_self.2 fun event hevent => ?_
  obtain ⟨words, -, rfl⟩ := List.mem_map.1 hevent
  rfl

/-! ## All attempts -/

/-- From attempt `done + 1` on, `count` attempts take place, and the log tells of each
of them and of the end of the phase. -/
structure Logs
    (script : Script)
    (done count : Nat)
    (execution : Execution) : Prop where
  invoked : execution.invocations.length = count
  tells :
    Log.withoutPreviews execution.events =
      (List.range' (done + 1) count).flatMap script.told ++
        ending script.invocation (done + count) (script.reported (done + count))
          execution.outcome

/-- The phase stops with this attempt; `more` is what is told of it after its start. -/
theorem Logs.here
    {rest : Execution} {more : List Log.Event}
    (htold : script.told (done + 1) = script.begins (done + 1) :: more)
    (hinvoked : rest.invocations = [])
    (htells :
        Log.withoutPreviews rest.events =
          more ++
            ending script.invocation (done + 1) (script.reported (done + 1))
              rest.outcome)
    (time : Nat) :
    script.Logs done 1
      (after (startEvents script.invocation (done + 1)) [time] rest) where
  invoked := by simp [after, hinvoked]
  tells := by
    show Log.withoutPreviews (startEvents script.invocation (done + 1) ++ rest.events) = _
    rw [Log.withoutPreviews_append, withoutPreviews_startEvents, htells, List.range'_one,
      List.flatMap_singleton, htold]
    rfl

/-- What is logged of an attempt that has failed. -/
theorem withoutPreviews_failing
    {trail : Trail} {outcome : Outcome}
    (h : (script.attempt (done + 1)).outcome = some outcome)
    (htrail : trail.state = script.reported done)
    (rest : Execution) :
    Log.withoutPreviews (script.failing done trail outcome rest).events =
      script.claims (done + 1) ++ Log.withoutPreviews rest.events := by
  show Log.withoutPreviews (unwrittenEvents _ _ _ _ ++ rest.events) = _
  rw [Log.withoutPreviews_append, unwrittenEvents_eq_claims h htrail, withoutPreviews_claims]

/-- The phase goes on after this attempt. -/
theorem Logs.later
    {trail : Trail} {outcome : Outcome} {text : String} {rest : Execution}
    (h : (script.attempt (done + 1)).outcome = some outcome)
    (htrail : trail.state = script.reported done)
    (hrepeats :
        script.repeats (done + 1) =
          [.phaseRetry (script.invocation.subject (done + 1)) text
              script.policy.delay])
    (hrest : script.Logs (done + 1) count rest)
    (time : Nat) :
    script.Logs done (count + 1)
      (after (startEvents script.invocation (done + 1)) [time]
          (script.failing done trail outcome (script.retrying done text rest))) where
  invoked := by simp [after, failing, retrying, hrest.invoked]
  tells := by
    have hretrying : Log.withoutPreviews (script.retrying done text rest).events =
        script.repeats (done + 1) ++ Log.withoutPreviews rest.events := by
      rw [hrepeats]
      rfl
    show Log.withoutPreviews (startEvents script.invocation (done + 1) ++
      (script.failing done trail outcome (script.retrying done text rest)).events) = _
    rw [Log.withoutPreviews_append, withoutPreviews_failing h htrail, hretrying, hrest.tells,
      withoutPreviews_startEvents, List.range'_succ, List.flatMap_cons, told,
      Nat.add_right_comm done 1 count]
    simp only [List.append_assoc, List.cons_append, List.nil_append]
    rfl

/-- **From every attempt on, the log tells the course of the phase.** -/
theorem logs_courseFrom
    (script : Script) :
    ∀ {remaining done : Nat} (trail : Trail),
      trail.state = script.reported done →
      done + (remaining + 1) = script.policy.retries →
      (script.turn done).signal.seenAt (script.turn done).time = false →
      ∃ count, script.Logs done count (script.courseFrom (remaining + 1) done trail)
  | remaining, done, trail, htrail, hleft, hseen => by
      obtain ⟨rest, hcourse, hstep⟩ := courseFrom_succ remaining trail hseen
      rw [hcourse]
      cases hstep with
      | completed h hvalue hwrites =>
          have hobjection := (objection?_of_outcome h).trans (unwritten?_of_writes hwrites)
          have htold := told_of_none hobjection (failure?_of_completed h hvalue hwrites)
          rw [htrail, ← reported_succ_of_none hobjection]
          exact ⟨1, .here htold rfl rfl _⟩
      | timedOut h =>
          have hobjection := objection?_of_timedOut h
          have htold := told_of_none hobjection (failure?_of_timedOut h)
          refine ⟨1, .here htold rfl ?_ _⟩
          rw [reported_succ_of_none hobjection, ← htrail]
          rfl
      | exhausted h hfails =>
          refine ⟨1, .here rfl rfl ?_ _⟩
          rw [withoutPreviews_failing h htrail, repeats_of_le (Nat.le_of_eq hleft.symm),
            List.append_nil, ← state_trailAfter h htrail]
          rfl
      | cancelled h hfails hcancelled moment =>
          -- The repetition has been announced before the cancellation is seen.
          refine ⟨1, .here rfl rfl ?_ _⟩
          rw [withoutPreviews_failing h htrail, repeats_of_fails h hfails (by omega),
            ← state_trailAfter h htrail, List.append_assoc]
          rfl
      | @retried remaining outcome h hfails hgoes =>
          obtain ⟨count, hrest⟩ := logs_courseFrom script
            (trailAfter script.invocation trail outcome) (state_trailAfter h htrail)
            (by omega : done + 1 + (remaining + 1) = _) (Bool.eq_false_iff.2 hgoes)
          exact ⟨count + 1, .later h htrail (repeats_of_fails h hfails (by omega)) hrest _⟩

/-- The whole course: a phase that is cancelled beforehand, or that is allowed no
attempt, fails at once. -/
theorem logs_course
    (script : Script) :
    ∃ count, script.Logs 0 count (script.courseFrom script.policy.retries 0 {}) := by
  cases hretries : script.policy.retries with
  | zero => exact ⟨0, rfl, rfl⟩
  | succ remaining =>
      cases hseen : script.signal.seenAt script.start with
      | true =>
          rw [script.courseFrom_of_seen remaining hseen]
          exact ⟨0, rfl, rfl⟩
      | false =>
          exact script.logs_courseFrom {} rfl ((Nat.zero_add _).trans hretries.symm) hseen

/-! ## The end of a phase -/

/-- The result of an attempt is not written. -/
def isUnwritten (script : Script) (number : Nat) : Bool :=
  (script.objection? number).isSome

theorem countP_endsPhase_told
    (script : Script)
    (number : Nat) :
    (script.told number).countP Log.Event.endsPhase =
      if script.isUnwritten number then 1 else 0 := by
  have hbegins : (script.begins number).endsPhase = false := rfl
  have hrepeats : (script.repeats number).countP Log.Event.endsPhase = 0 := by
    refine List.countP_eq_zero.2 fun event hevent => ?_
    unfold repeats at hevent
    split at hevent
    · obtain ⟨text, -, rfl⟩ := List.mem_map.1 hevent
      exact Bool.false_ne_true
    · exact absurd hevent List.not_mem_nil
  rw [told, List.countP_cons, List.countP_append, hbegins, hrepeats, claims, isUnwritten]
  cases script.objection? number <;> rfl

/-- The log says once for each result that is not written that the phase is over. -/
theorem countP_endsPhase_flatMap_told
    (script : Script)
    (numbers : List Nat) :
    (numbers.flatMap script.told).countP Log.Event.endsPhase =
      numbers.countP script.isUnwritten := by
  induction numbers with
  | nil => rfl
  | cons number rest ih =>
      rw [List.flatMap_cons, List.countP_append, ih, countP_endsPhase_told, List.countP_cons,
        Nat.add_comm]

theorem countP_endsPhase_ending
    (invocation : Invocation)
    (attempts : Nat)
    (state : PhaseState)
    (outcome : Except Failure Completion) :
    (ending invocation attempts state outcome).countP Log.Event.endsPhase = 1 := by
  cases outcome <;> rfl

/-- Without such results the state is reported as running until the end. -/
theorem reported_of_written
    (script : Script) :
    ∀ {count : Nat},
      (∀ number, 1 ≤ number → number ≤ count → script.objection? number = none) →
      script.reported count = .running
  | 0, _ => rfl
  | count + 1, h => by
      rw [reported_succ_of_none (h (count + 1) (Nat.succ_pos count) (Nat.le_refl _))]
      exact script.reported_of_written fun number hlow hhigh =>
        h number hlow (Nat.le_succ_of_le hhigh)

theorem told_of_written
    (h : script.objection? number = none) :
    script.told number = script.begins number :: script.repeats number := by
  rw [told, claims, h]
  rfl

end Script

/-- What is logged by a call that executes a phase. -/
def logged (invocation : Invocation) : Except Refusal Execution → List Log.Event
  | .ok execution => execution.events
  | .error refusal => refusal.events invocation

/-- The log of a phase that was executed: the phase begins, each attempt is told of, and
the phase ends in the way in which it has ended. The attempts are as many as the
invocations of the capability. -/
structure LogsCourse
    (script : Script)
    (execution : Execution)
    (events : List Log.Event) : Prop where
  course : events =
    transition (script.invocation.subject 0) .pending .running ::
      ((List.range' 1 execution.invocations.length).flatMap script.told ++
        ending script.invocation execution.invocations.length
          (script.reported execution.invocations.length) execution.outcome)
  ends : events.countP Log.Event.endsPhase =
    (List.range' 1 execution.invocations.length).countP script.isUnwritten + 1

/-- The log of a phase as it should be: of each attempt it is told that it begins and
that it is to be repeated only, and the phase ends once, coming from the state in which
it runs. -/
structure LogsOneEnd
    (script : Script)
    (execution : Execution)
    (events : List Log.Event) : Prop where
  course :
    events =
      transition (script.invocation.subject 0) .pending .running ::
        ((List.range' 1 execution.invocations.length).flatMap
            (fun number => script.begins number :: script.repeats number) ++
            ending script.invocation execution.invocations.length .running
              execution.outcome)
  once : events.countP Log.Event.endsPhase = 1

theorem logsCourse_withPolicy
    (script : Script) :
    LogsCourse script
      (withPolicy script.invocation script.policy script.signal script.start)
      (Log.withoutPreviews
          (withPolicy script.invocation script.policy script.signal
              script.start).events) := by
  obtain ⟨count, hlogs⟩ := script.logs_course
  have hinvoked : (withPolicy script.invocation script.policy script.signal
      script.start).invocations.length = count := hlogs.invoked
  have hcourse : Log.withoutPreviews
      (withPolicy script.invocation script.policy script.signal script.start).events =
        transition (script.invocation.subject 0) .pending .running ::
          ((List.range' 1 count).flatMap script.told ++
            ending script.invocation count (script.reported count)
              (withPolicy script.invocation script.policy script.signal
                script.start).outcome) := by
    have htells := congrArg
      (List.cons (transition (script.invocation.subject 0) .pending .running)) hlogs.tells
    rw [Nat.zero_add, Nat.zero_add] at htells
    exact htells
  constructor
  case course => rw [hcourse, hinvoked]
  case ends =>
    rw [hcourse, hinvoked, List.countP_cons, List.countP_append,
      script.countP_endsPhase_flatMap_told, Script.countP_endsPhase_ending]
    rfl

/-- **The log is as it should be exactly if all results are written.** -/
theorem LogsCourse.oneEnd_iff
    {script : Script} {execution : Execution} {events : List Log.Event}
    (h : LogsCourse script execution events) :
    LogsOneEnd script execution events ↔
      ∀ number,
        1 ≤ number →
        number ≤ execution.invocations.length →
        script.objection? number = none := by
  constructor
  · intro hone number hlow hhigh
    have hcount :
        (List.range' 1 execution.invocations.length).countP script.isUnwritten =
          0 := by
      have hends := h.ends.symm.trans hone.once
      omega
    have hmem : number ∈ List.range' 1 execution.invocations.length :=
      List.mem_range'_1.2 ⟨hlow, by omega⟩
    have hwritten := List.countP_eq_zero.1 hcount number hmem
    rw [Script.isUnwritten, Bool.not_eq_true, Option.isSome_eq_false_iff] at hwritten
    exact Option.isNone_iff_eq_none.1 hwritten
  · intro hwritten
    have hattempts : ∀ number ∈ List.range' 1 execution.invocations.length,
        script.objection? number = none := by
      intro number hnumber
      obtain ⟨hlow, hhigh⟩ := List.mem_range'_1.1 hnumber
      exact hwritten number hlow (by omega)
    constructor
    case course =>
      have htold := List.map_congr_left fun number hnumber =>
        Script.told_of_written (hattempts number hnumber)
      rw [h.course, script.reported_of_written hwritten, List.flatMap_def, htold,
        ← List.flatMap_def]
    case once =>
      have hcount :
          (List.range' 1 execution.invocations.length).countP
            script.isUnwritten =
            0 := by
        refine List.countP_eq_zero.2 fun number hnumber => ?_
        rw [Script.isUnwritten, hattempts number hnumber]
        exact Bool.false_ne_true
      rw [h.ends, hcount]

/-- **A phase logs its course.** With everything written but previews, a call whose
retry settings are refused logs nothing, a call whose input is not written logs the
beginning only, and any other call logs the beginning, the attempts and the end of its
execution. It tells of one end exactly if all results of the attempts are written. -/
theorem phase_logs_its_course
    {config : Log.Config}
    (hlevel : config.minLevel = .debug)
    (hpreviews : config.previews = false)
    (invocation : Invocation)
    (defaults : RetryPolicy)
    (signal : Signal)
    (start : Nat) :
    (∀ fault,
        RetryPolicy.ofConfig invocation.config defaults = .error fault →
        run invocation defaults signal start = .error (.settings fault) ∧
        (logged invocation (run invocation defaults signal start)).filter
          config.admits =
          []) ∧
    ∀ policy,
      RetryPolicy.ofConfig invocation.config defaults = .ok policy →
      (∀ words,
          invocation.writer.objection invocation.input = some words →
          run invocation defaults signal start = .error (.input words) ∧
          (logged invocation (run invocation defaults signal start)).filter
            config.admits =
            [transition (invocation.subject 0) .pending .running]) ∧
      (invocation.writer.Writes invocation.input →
        ∃ execution events,
          run invocation defaults signal start = .ok execution ∧
          (logged invocation (run invocation defaults signal start)).filter
            config.admits =
            events ∧
          LogsCourse ⟨invocation, policy, signal, start⟩ execution events ∧
          (LogsOneEnd ⟨invocation, policy, signal, start⟩ execution events ↔
              ∀ number,
                1 ≤ number →
                number ≤ execution.invocations.length →
                Script.objection? ⟨invocation, policy, signal, start⟩ number =
                  none)) := by
  constructor
  · intro fault hfault
    rw [run_of_refused hfault]
    exact ⟨rfl, rfl⟩
  · intro policy hpolicy
    constructor
    · intro words hwords
      rw [run_of_unwritten hpolicy hwords, Log.filter_admits hlevel hpreviews]
      exact ⟨rfl, rfl⟩
    · intro hwrites
      have hcourse := logsCourse_withPolicy ⟨invocation, policy, signal, start⟩
      rw [run_of_writes hpolicy hwrites signal start, Log.filter_admits hlevel hpreviews]
      exact ⟨_, _, rfl, rfl, hcourse, hcourse.oneEnd_iff⟩

/-- Everything is written but previews. -/
def fullLog : Log.Config where
  minLevel := .debug

theorem phase_logs_its_course_stubborn :
    fullLog.minLevel = .debug ∧
    fullLog.previews = false ∧
    RetryPolicy.ofConfig stubborn.invocation.config {} = .ok stubborn.policy ∧
    ∃ execution,
      run stubborn.invocation {} stubborn.signal stubborn.start =
        .ok execution ∧
      execution.invocations.length = 3 ∧
      LogsOneEnd stubborn execution ((logged stubborn.invocation
            (run stubborn.invocation {} stubborn.signal stubborn.start)).filter
          fullLog.admits) := by
  have hpolicy :
      RetryPolicy.ofConfig stubborn.invocation.config {} = .ok stubborn.policy :=
    rfl
  have hlevel : fullLog.minLevel = .debug := rfl
  have hpreviews : fullLog.previews = false := rfl
  have hwrites : stubborn.invocation.writer.Writes stubborn.invocation.input := rfl
  obtain ⟨execution, events, hrun, hevents, -, hone⟩ :=
    ((phase_logs_its_course hlevel hpreviews
    stubborn.invocation {} stubborn.signal stubborn.start).2 stubborn.policy
      hpolicy).2 hwrites
  have htimes : (run stubborn.invocation {} stubborn.signal stubborn.start).map
      Execution.invocations = .ok [0, 1000, 2000] := rfl
  rw [hrun] at htimes
  have hlength : execution.invocations.length = 3 :=
    congrArg List.length (Except.ok.inj htimes)
  refine ⟨hlevel, hpreviews, hpolicy, execution, hrun, hlength, ?_⟩
  rw [hevents, hone, hlength]
  intro number hlow hhigh
  obtain rfl | rfl | rfl : number = 1 ∨ number = 2 ∨ number = 3 := by omega
  all_goals rfl

/-- A phase whose result is not written is reported as completed and then as failed, and
one whose input is not written is reported as neither. -/
theorem unwritten_values_spoil_the_end :
    ((logged (once (.value (.str "ÿ")))
          (run (once (.value (.str "ÿ"))) {} {} 0)).filter fullLog.admits).countP
      Log.Event.endsPhase =
      2 ∧
    ((logged { once (.value .null) with input := .str "ÿ" }
          (run { once (.value .null) with input := .str "ÿ" } {}
              {} 0)).filter fullLog.admits).countP Log.Event.endsPhase =
      0 :=
  ⟨rfl, rfl⟩

end Execution

end PhaseFlow
