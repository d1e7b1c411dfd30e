import PhaseFlow.Phase.Execution
import PhaseFlow.Proofs.Answer

/-!
# One attempt and the rest

An attempt either settles how a phase ends, or the phase goes on after a delay
(`afterAttempt_cases`). So what holds of a phase that has failed or completed, and is
kept by the events that precede an end, holds of every course of a phase
(`run_induction`).
-/

namespace PhaseFlow

namespace Execution

/-- The result of an attempt is a value other than null that is written. -/
theorem result?_eq_some_iff
    {writer : Json.Writer} {outcome : Outcome} {value : Json} :
    result? writer outcome = some value ↔
      outcome = .ok value ∧ value ≠ .null ∧ writer.Writes value := by
  cases outcome with
  | error raised => simp [result?]
  | ok found =>
      cases hobjection : writer.objection found with
      | some words =>
          refine iff_of_false (by simp [result?, hobjection]) ?_
          rintro ⟨heq, -, hwrites⟩
          cases heq
          cases hobjection.symm.trans hwrites
      | none =>
          by_cases hnull : found.isNull = true
          · refine iff_of_false (by simp [result?, hnull]) ?_
            rintro ⟨heq, hne, -⟩
            cases heq
            exact hne (Json.isNull_iff.1 hnull)
          · have hne : found ≠ .null := fun heq => hnull (Json.isNull_iff.2 heq)
            simp only [result?, hobjection, hnull, Option.isSome_none, Bool.or_self,
              Bool.false_eq_true, if_false, Option.some.injEq, Except.ok.injEq]
            constructor
            · rintro rfl
              exact ⟨rfl, hne, hobjection⟩
            · exact And.left

/-- What follows the start of an attempt that ended in some way; `goOn` is the course
from the next attempt on. -/
def afterAttempt
    (invocation : Invocation)
    (policy : RetryPolicy)
    (begun remaining attempt : Nat)
    (trail : Trail)
    (ended : Attempt)
    (goOn : Trail → Signal → Nat → Execution) :
    Execution :=
  match ended.outcome with
  | none =>
      failed invocation { trail with lastError := timeoutText policy.timeout } attempt
        ended.finish
  | some outcome =>
      match result? invocation.writer outcome with
      | some output =>
          completed invocation trail.state ⟨output, attempt, ended.finish - begun⟩
            ended.finish
      | none =>
          let left := trailAfter invocation trail outcome
          after (unwrittenEvents invocation attempt trail.state outcome) [] <|
            if remaining = 0 then failed invocation left attempt ended.finish
            else
              let resume := ended.finish + Clock.span policy.delay
              after
                [.phaseRetry (invocation.subject attempt) left.lastError policy.delay]
                [] <|
                match ended.signal.seenDuring ended.finish resume with
                | some moment =>
                    failed invocation { left with lastError := cancelledText } attempt moment
                | none => goOn left ended.signal resume

theorem attemptsFrom_of_seen
    {invocation : Invocation} {policy : RetryPolicy}
    {begun remaining attempt : Nat} {trail : Trail} {signal : Signal}
    {time : Nat}
    (h : signal.seenAt time = true) :
    attemptsFrom invocation policy begun (remaining + 1) attempt trail signal
      time =
      failed invocation { trail with lastError := cancelledText } (attempt - 1)
        time := by
  rw [attemptsFrom, h, if_pos rfl]

theorem attemptsFrom_of_not_seen
    {invocation : Invocation} {policy : RetryPolicy}
    {begun remaining attempt : Nat} {trail : Trail} {signal : Signal}
    {time : Nat}
    (h : signal.seenAt time = false) :
    attemptsFrom invocation policy begun (remaining + 1) attempt trail signal
      time =
      after (startEvents invocation attempt) [time]
        (afterAttempt invocation policy begun remaining attempt trail
            (Attempt.of (invocation.reply attempt) signal time policy.timeout)
            (attemptsFrom invocation policy begun remaining (attempt + 1))) := by
  rw [attemptsFrom, h, if_neg Bool.false_ne_true]
  rfl

theorem eq_of_mem_unwrittenEvents
    {invocation : Invocation} {attempt : Nat} {state : PhaseState}
    {outcome : Outcome} {event : Log.Event}
    (h : event ∈ unwrittenEvents invocation attempt state outcome) :
    event = transition (invocation.subject attempt) state .completed := by
  obtain ⟨words, -, rfl⟩ := List.mem_map.1 h
  rfl

/-- A phase that is refused has logged its beginning at most. -/
theorem Refusal.eq_of_mem_events
    {invocation : Invocation} {refusal : Refusal} {event : Log.Event}
    (h : event ∈ refusal.events invocation) :
    event = transition (invocation.subject 0) .pending .running := by
  cases refusal with
  | settings fault => exact absurd h List.not_mem_nil
  | input words => exact List.mem_singleton.1 h

variable {invocation : Invocation} {motive : Execution → Prop}

/-- The events that stand before other ones in the course of a phase. -/
inductive Precedes (invocation : Invocation) : List Log.Event → Prop
  | begun : Precedes invocation [transition (invocation.subject 0) .pending .running]
  | started (attempt : Nat) : Precedes invocation (startEvents invocation attempt)
  | unwritten
      (attempt : Nat)
      (state : PhaseState)
      (outcome : Outcome) :
      Precedes invocation (unwrittenEvents invocation attempt state outcome)
  | retried
      (attempt : Nat)
      (text : String)
      (delay : Nat) :
      Precedes invocation [.phaseRetry (invocation.subject attempt) text delay]

theorem attemptsFrom_induction
    {policy : RetryPolicy} {begun : Nat}
    (hfailed :
        ∀ trail attempts finish, motive (failed invocation trail attempts finish))
    (hcompleted :
        ∀ state done finish,
          done.output ≠ .null → motive (completed invocation state done finish))
    (hafter :
        ∀ events invocations rest,
          Precedes invocation events →
          motive rest →
          motive (after events invocations rest)) :
    ∀ (remaining attempt : Nat) (trail : Trail) (signal : Signal) (time : Nat),
      motive
        (attemptsFrom invocation policy begun remaining attempt trail signal time)
  | 0, attempt, trail, _, time => hfailed trail (attempt - 1) time
  | remaining + 1, attempt, trail, signal, time => by
      cases hseen : signal.seenAt time with
      | true =>
          rw [attemptsFrom_of_seen hseen]
          exact hfailed _ _ _
      | false =>
          rw [attemptsFrom_of_not_seen hseen]
          refine hafter _ _ _ (.started attempt) ?_
          unfold afterAttempt
          split
          · exact hfailed _ _ _
          · split
            · next value hvalue => exact hcompleted _ _ _ (result?_eq_some_iff.1 hvalue).2.1
            · refine hafter _ _ _ (.unwritten attempt _ _) ?_
              split
              · exact hfailed _ _ _
              · refine hafter _ _ _ (.retried attempt _ policy.delay) ?_
                split
                · exact hfailed _ _ _
                · exact attemptsFrom_induction hfailed hcompleted hafter remaining
                    (attempt + 1)
                    _ _ _

/-! ## Phases that are executed -/

variable {defaults policy : RetryPolicy} {signal : Signal} {start : Nat}
variable {execution : Execution}

/-- A phase is executed if its settings are accepted and its input is written. -/
theorem run_eq_ok_iff :
    run invocation defaults signal start = .ok execution ↔
      ∃ policy,
        RetryPolicy.ofConfig invocation.config defaults = .ok policy ∧
        invocation.writer.Writes invocation.input ∧
        withPolicy invocation policy signal start = execution := by
  unfold run Json.Writer.Writes
  cases RetryPolicy.ofConfig invocation.config defaults with
  | error fault => simp
  | ok policy => cases invocation.writer.objection invocation.input <;> simp

theorem run_of_writes
    (hpolicy : RetryPolicy.ofConfig invocation.config defaults = .ok policy)
    (hwrites : invocation.writer.Writes invocation.input)
    (signal : Signal)
    (start : Nat) :
    run invocation defaults signal start =
      .ok (withPolicy invocation policy signal start) :=
  run_eq_ok_iff.2 ⟨policy, hpolicy, hwrites, rfl⟩

theorem run_of_refused
    {fault : ConfigurationFault}
    (hfault : RetryPolicy.ofConfig invocation.config defaults = .error fault) :
    run invocation defaults signal start = .error (.settings fault) := by
  rw [run, hfault]

theorem run_of_unwritten
    (hpolicy : RetryPolicy.ofConfig invocation.config defaults = .ok policy)
    {words : String}
    (hwords : invocation.writer.objection invocation.input = some words) :
    run invocation defaults signal start = .error (.input words) := by
  simp only [run, hpolicy, hwords]

/-- **What holds of the ends of a phase holds of its whole course**, if the events
before keep it. -/
theorem run_induction
    (hrun : run invocation defaults signal start = .ok execution)
    (hfailed :
        ∀ trail attempts finish, motive (failed invocation trail attempts finish))
    (hcompleted :
        ∀ state done finish,
          done.output ≠ .null → motive (completed invocation state done finish))
    (hafter :
        ∀ events invocations rest,
          Precedes invocation events →
          motive rest →
          motive (after events invocations rest)) :
    motive execution := by
  obtain ⟨policy, -, -, rfl⟩ := run_eq_ok_iff.1 hrun
  exact hafter _ _ _ .begun
    (attemptsFrom_induction hfailed hcompleted hafter policy.retries 1 {} signal start)

/-- A phase that completes puts out a value. -/
theorem output_ne_null_of_run
    (hrun : run invocation defaults signal start = .ok execution) :
    ∀ done, execution.outcome = .ok done → done.output ≠ .null := by
  refine run_induction
    (motive := fun execution => ∀ done, execution.outcome = .ok done → done.output ≠ .null)
    hrun ?_ ?_ ?_
  · intro trail attempts finish done hdone
    cases hdone
  · intro state done finish hvalue found hfound
    cases hfound
    exact hvalue
  · exact fun events invocations rest _ hrest => hrest

end Execution

end PhaseFlow
