import PhaseFlow.Executor.Capability
import PhaseFlow.Log.Event
import PhaseFlow.Phase.Policy
import PhaseFlow.Time.Clock

/-!
# Executing one phase

A phase is attempted until an attempt yields a value other than null, the attempts are
used up, an attempt exceeds its time limit, or the phase is cancelled. Time is counted
in milliseconds on a time line of the caller's choice; how long a limit or a delay lasts
is what the clock makes of it.

* `Signal` says when the caller cancels the phase. A point of time sees a cancellation
  that came before it; a wait sees one that comes before its end.
* `Attempt.of` runs one attempt. With a time limit the executor gets a token of its own,
  which is cancelled at the deadline and together with the caller's; what the executor
  does to this token does not reach the caller. An executor that ignores its token is
  waited for, and a result that comes after the deadline counts as a timeout.
* `Execution.run` is the whole course: outcome, log, times of the invocations.

The sizes of the input and of the result are logged, so both are written by the JSON
library. An input that the library objects to ends the phase before the first attempt,
with the error of the library. A result that it objects to makes the attempt fail, with
the words of the library as its text; by then the phase has been reported as completed.
-/

namespace PhaseFlow

/-- When a phase is cancelled by its owner: it is already, or it will be at a point of
time. -/
structure Signal where
  raised : Bool := false
  raisedAt : Option Nat := none
  deriving DecidableEq

namespace Signal

/-- Whether the cancellation is seen at a point of time. -/
def seenAt (signal : Signal) (time : Nat) : Bool :=
  signal.raised || signal.raisedAt.any fun moment => moment < time

/-- When a wait from `start` to `finish` sees the cancellation. -/
def seenDuring (signal : Signal) (start finish : Nat) : Option Nat :=
  if signal.raised then some start
  else
    match signal.raisedAt with
    | some moment => if moment < finish then some (max start moment) else none
    | none => none

/-- The signal after the executor has cancelled the token, or an attempt has seen the
cancellation. -/
def raise (signal : Signal) : Signal :=
  { signal with raised := true }

end Signal

/-! ## One attempt -/

/-- How an attempt ended; no outcome stands for one that exceeded its time limit. The
cancellation of the phase is the one afterwards. -/
structure Attempt where
  outcome : Option Outcome
  finish : Nat
  signal : Signal

namespace Attempt

/-- An attempt without a time limit. -/
def unlimited (reply : Reply) (signal : Signal) (start : Nat) : Attempt :=
  let finish := start + reply.duration
  let seen := signal.seenDuring start finish
  let after := if reply.cancelsToken || seen.isSome then signal.raise else signal
  match reply.whenCancelled, seen with
  | some early, some moment => ⟨some early, moment, after⟩
  | _, _ => ⟨some reply.outcome, finish, after⟩

/-- An attempt that has to end before a deadline. -/
def limited (reply : Reply) (signal : Signal) (start limit : Nat) : Attempt :=
  let deadline := start + limit
  let finish := start + reply.duration
  let seen := signal.seenDuring start finish
  let after := if seen.isSome then signal.raise else signal
  let cancelled := (seen.map (min deadline)).getD deadline
  let (outcome, finish) :=
    match reply.whenCancelled with
    | some early =>
        if cancelled < finish then (early, cancelled) else (reply.outcome, finish)
    | none => (reply.outcome, finish)
  if deadline ≤ finish then ⟨none, finish, after⟩ else ⟨some outcome, finish, after⟩

/-- The attempt that starts at some time; a limit of zero is no limit. -/
def of (reply : Reply) (signal : Signal) (start limit : Nat) : Attempt :=
  if limit = 0 then unlimited reply signal start
  else limited reply signal start (Clock.span limit)

end Attempt

/-! ## The whole course -/

/-- What is executed, and the severity at which its course is reported. The graph is
empty outside of a graph. -/
structure Invocation where
  name : String
  phase : String
  capability : Capability
  config : Json
  input : Json
  graphId : String := ""
  progress : Log.Level := .debug
  writer : Json.Writer := {}

namespace Invocation

/-- The context of one attempt. -/
def context (invocation : Invocation) (attempt : Nat) : Context :=
  ⟨invocation.name, invocation.phase, invocation.graphId, attempt⟩

/-- What the events of one attempt are about. -/
def subject (invocation : Invocation) (attempt : Nat) : Log.Subject :=
  ⟨invocation.graphId, invocation.name, invocation.phase, attempt⟩

/-- The reply to one attempt. -/
def reply (invocation : Invocation) (attempt : Nat) : Reply :=
  invocation.capability.invoke invocation.input invocation.config
    (invocation.context attempt)

end Invocation

/-- The record of a completed phase, with the milliseconds from the first attempt to
completion. -/
structure Completion where
  output : Json
  attempts : Nat
  duration : Nat

/-- Why a phase failed. -/
structure Failure where
  lastError : String
  attempts : Nat
  deriving DecidableEq

/-- Where a phase stands. -/
inductive PhaseState where
  | pending
  | running
  | completed
  | failed
  deriving DecidableEq

/-- The name of a state. -/
def PhaseState.name : PhaseState → String
  | pending => "PENDING"
  | running => "RUNNING"
  | completed => "COMPLETED"
  | failed => "FAILED"

/-- What the attempts so far have left behind: the last error, and the state that was
reported last. -/
structure Trail where
  lastError : String := ""
  state : PhaseState := .running
  deriving DecidableEq

/-- The course of a phase. -/
structure Execution where
  outcome : Except Failure Completion
  events : List Log.Event
  invocations : List Nat
  finish : Nat

namespace Execution

/-! ### What an attempt leads to -/

/-- The text of an exceeded time limit. -/
def timeoutText (limit : Nat) : String :=
  "execution timeout after " ++ Text.ofNat limit ++ " ms"

/-- The text of a cancelled phase. -/
def cancelledText : String :=
  "cancelled"

/-- What the JSON library objects to in the value that came out, if it is not null. -/
def unwritten? (writer : Json.Writer) : Outcome → Option String
  | .ok value => if value.isNull then none else writer.objection value
  | .error _ => none

/-- The result of an attempt, if it has one and it is written. -/
def result? (writer : Json.Writer) : Outcome → Option Json
  | .ok value => if value.isNull || (writer.objection value).isSome then none else some value
  | .error _ => none

/-- The text of an outcome that is no result. -/
def failureText (writer : Json.Writer) : Outcome → String
  | .ok value => (unwritten? writer (.ok value)).getD "executor returned no result"
  | .error raised => raised.message

/-! ### Ends of a phase -/

/-- What the subject of some events goes through. -/
def transition (subject : Log.Subject) (old new : PhaseState) : Log.Event :=
  .transition subject old.name new.name

/-- The events at the start of an attempt. -/
def startEvents (invocation : Invocation) (attempt : Nat) : List Log.Event :=
  [.phaseStart (invocation.subject attempt) invocation.input.byteSize invocation.progress,
    .preview (invocation.subject attempt) "input" invocation.input]

/-- The events of a completed phase. -/
def completionEvents
    (invocation : Invocation)
    (state : PhaseState)
    (done : Completion) :
    List Log.Event :=
  let subject := invocation.subject done.attempts
  [transition subject state .completed,
    .phaseComplete subject done.attempts (Binary64.ofNat done.duration) done.output.byteSize
      invocation.progress,
    .preview subject "output" done.output]

/-- The end of a phase that failed. -/
def failed
    (invocation : Invocation)
    (trail : Trail)
    (attempts : Nat)
    (finish : Nat) :
    Execution :=
  let subject := invocation.subject attempts
  { outcome := .error ⟨trail.lastError, attempts⟩
    events := [transition subject trail.state .failed,
      .error subject trail.lastError "execute-phase"]
    invocations := []
    finish := finish }

/-- The end of a phase that completed. -/
def completed
    (invocation : Invocation)
    (state : PhaseState)
    (done : Completion)
    (finish : Nat) :
    Execution :=
  { outcome := .ok done
    events := completionEvents invocation state done
    invocations := []
    finish := finish }

/-- The course with some events and invocations before it. -/
def after
    (events : List Log.Event)
    (invocations : List Nat)
    (rest : Execution) :
    Execution :=
  { rest with
    events := events ++ rest.events
    invocations := invocations ++ rest.invocations }

/-! ### All attempts -/

/-- What is left behind by an attempt that ended without a result. -/
def trailAfter
    (invocation : Invocation)
    (trail : Trail)
    (outcome : Outcome) :
    Trail :=
  { lastError := failureText invocation.writer outcome
    state :=
      if (unwritten? invocation.writer outcome).isSome then .completed
      else trail.state }

/-- What is logged of a result that is not written: the phase was taken for
completed. -/
def unwrittenEvents
    (invocation : Invocation)
    (attempt : Nat)
    (state : PhaseState)
    (outcome : Outcome) :
    List Log.Event :=
  (unwritten? invocation.writer outcome).toList.map fun _ =>
    transition (invocation.subject attempt) state .completed

/-- The course from an attempt on, `remaining` attempts being left. The phase was begun
at `begun`, and the attempts before have left a trail. -/
def attemptsFrom
    (invocation : Invocation)
    (policy : RetryPolicy)
    (begun : Nat) :
    (remaining : Nat) → (attempt : Nat) → Trail → Signal → (time : Nat) → Execution
  | 0, attempt, trail, _, time => failed invocation trail (attempt - 1) time
  | remaining + 1, attempt, trail, signal, time =>
      if signal.seenAt time then
        failed invocation { trail with lastError := cancelledText } (attempt - 1) time
      else
        let ended := Attempt.of (invocation.reply attempt) signal time policy.timeout
        after (startEvents invocation attempt) [time] <|
          match ended.outcome with
          | none =>
              failed invocation { trail with lastError := timeoutText policy.timeout }
                attempt ended.finish
          | some outcome =>
              match result? invocation.writer outcome with
              | some output =>
                  completed invocation trail.state ⟨output, attempt, ended.finish - begun⟩
                    ended.finish
              | none =>
                  let left := trailAfter invocation trail outcome
                  after (unwrittenEvents invocation attempt trail.state outcome) [] <|
                    if remaining = 0 then failed invocation left attempt ended.finish
                    else
                      let resume := ended.finish + Clock.span policy.delay
                      after [.phaseRetry (invocation.subject attempt) left.lastError
                          policy.delay] [] <|
                        match ended.signal.seenDuring ended.finish resume with
                        | some moment =>
                            failed invocation { left with lastError := cancelledText }
                              attempt moment
                        | none =>
                            attemptsFrom invocation policy begun remaining (attempt + 1) left
                              ended.signal resume

/-- The course of a phase under a policy. -/
def withPolicy
    (invocation : Invocation)
    (policy : RetryPolicy)
    (signal : Signal)
    (start : Nat) :
    Execution :=
  after [transition (invocation.subject 0) .pending .running] [] <|
    attemptsFrom invocation policy start policy.retries 1 {} signal start

/-- Why a phase is not attempted: its retry settings are invalid, or the JSON library
objects to its input. -/
inductive Refusal where
  | settings (fault : ConfigurationFault)
  | input (words : String)
  deriving DecidableEq

/-- The error that is raised. -/
def Refusal.error : Refusal → Error
  | settings fault => .configuration fault
  | input words => .json (.unwritable words)

/-- What has been logged by then. -/
def Refusal.events (invocation : Invocation) : Refusal → List Log.Event
  | settings _ => []
  | input _ => [transition (invocation.subject 0) .pending .running]

/-- **The course of a phase**, unless it is refused before its first attempt. -/
def run
    (invocation : Invocation)
    (defaults : RetryPolicy)
    (signal : Signal)
    (start : Nat) :
    Except Refusal Execution :=
  match RetryPolicy.ofConfig invocation.config defaults with
  | .error fault => .error (.settings fault)
  | .ok policy =>
      match invocation.writer.objection invocation.input with
      | some words => .error (.input words)
      | none => .ok (withPolicy invocation policy signal start)

end Execution

/-- The error that a failed phase raises. -/
def Failure.error (failure : Failure) (phase : String) : Error :=
  .phaseFailed phase failure.lastError failure.attempts

end PhaseFlow
