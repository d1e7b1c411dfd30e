import PhaseFlow.Proofs.Phase.Attempts

/-!
# The attempts of a phase

The attempts of a phase follow one another: the next one begins after the delay, with
the cancellation that the one before has left. So all of them are settled beforehand,
whether they take place or not (`Script.attempt`). The phase stops with the first
attempt that returns a value, exceeds its time limit, is followed by a cancellation or
is the last one that the policy allows (`Script.Stops`), and this attempt says how the
phase ends (`Script.Ends`).

`Script.Step` lists what one attempt can lead to, and `Script.Follows` is kept from the
last attempt back to the first. Main statement: `run_follows_script`. A capability is
not invoked beyond the attempts that take place (`attemptsFrom_congr`).
-/

namespace PhaseFlow

theorem Signal.isSome_seenDuring
    (signal : Signal)
    (start finish : Nat) :
    (signal.seenDuring start finish).isSome = signal.seenAt finish := by
  unfold Signal.seenDuring Signal.seenAt
  cases signal.raised with
  | true => rfl
  | false =>
      cases signal.raisedAt with
      | none => rfl
      | some moment => by_cases h : moment < finish <;> simp [h]

namespace Log

/-- The number of the attempt that an event says begins. -/
def Event.attempt? : Event → Option Nat
  | .phaseStart subject .. => some subject.attempt
  | _ => none

def attemptsIn (events : List Event) : List Nat :=
  events.filterMap Event.attempt?

theorem attemptsIn_append
    (events more : List Event) :
    attemptsIn (events ++ more) = attemptsIn events ++ attemptsIn more :=
  List.filterMap_append

end Log

namespace Execution

/-! ## Outcomes without result -/

/-- An outcome that is no result, and the text under which it is reported. -/
inductive Fails (writer : Json.Writer) : Outcome → String → Prop
  | null : Fails writer (.ok .null) "executor returned no result"
  | unwritten
      {value : Json} {words : String}
      (hvalue : value ≠ .null)
      (h : writer.objection value = some words) :
      Fails writer (.ok value) words
  | text (words : String) : Fails writer (.error (.text words)) (Text.beforeNul words)
  | error (cause : Error) : Fails writer (.error (.error cause)) cause.message
  | foreign : Fails writer (.error .foreign) "unknown exception"

theorem fails_failureText
    {writer : Json.Writer} {outcome : Outcome}
    (h : result? writer outcome = none) :
    Fails writer outcome (failureText writer outcome) := by
  cases outcome with
  | error raised =>
      cases raised with
      | error cause => exact .error cause
      | text words => exact .text words
      | foreign => exact .foreign
  | ok value =>
      by_cases hnull : value = .null
      · rw [hnull]
        exact .null
      · have hvalue : value.isNull = false :=
          Bool.eq_false_iff.2 fun heq => hnull (Json.isNull_iff.1 heq)
        cases hobjection : writer.objection value with
        | none => simp [result?, hvalue, hobjection] at h
        | some words =>
            have htext : failureText writer (.ok value) = words := by
              simp [failureText, unwritten?, hvalue, hobjection]
            rw [htext]
            exact .unwritten hnull hobjection

/-- An outcome that fails is no result. -/
theorem Fails.not_result
    {writer : Json.Writer} {value : Json} {text : String}
    (h : Fails writer (.ok value) text) :
    ¬ (value ≠ .null ∧ writer.Writes value) := by
  rintro ⟨hvalue, hwrites⟩
  cases h with
  | null => exact hvalue rfl
  | unwritten _ hobjection => cases hobjection.symm.trans hwrites

/-- What the caller of a phase is told: the output and the attempts used, or the
error. -/
def answered
    (invocation : Invocation)
    (execution : Execution) :
    Result (Json × Nat) :=
  (execution.outcome.mapError fun failure => failure.error invocation.name).map fun done =>
    (done.output, done.attempts)

/-! ## Scripts -/

/-- Where a phase stands when an attempt begins. -/
structure Turn where
  signal : Signal
  time : Nat

/-- A phase that is about to be attempted under a policy. -/
structure Script where
  invocation : Invocation
  policy : RetryPolicy
  signal : Signal
  start : Nat

namespace Script

/-- Where the phase stands after some attempts and the delays that follow them. -/
def turn (script : Script) : Nat → Turn
  | 0 => ⟨script.signal, script.start⟩
  | done + 1 =>
      let ended := Attempt.of (script.invocation.reply (done + 1)) (script.turn done).signal
        (script.turn done).time script.policy.timeout
      ⟨ended.signal, ended.finish + Clock.span script.policy.delay⟩

/-- The attempt of a number, the first one being number 1. -/
def attempt (script : Script) (number : Nat) : Attempt :=
  Attempt.of (script.invocation.reply number) (script.turn (number - 1)).signal
    (script.turn (number - 1)).time script.policy.timeout

/-- The phase is cancelled when the delay after an attempt is over. -/
def CancelledAfter (script : Script) (number : Nat) : Prop :=
  (script.attempt number).signal.seenAt
    ((script.attempt number).finish + Clock.span script.policy.delay) = true

/-- The phase goes no further than an attempt. -/
def Stops (script : Script) (number : Nat) : Prop :=
  (∃ value, (script.attempt number).outcome = some (.ok value) ∧ value ≠ .null ∧
      script.invocation.writer.Writes value) ∨
    (script.attempt number).outcome = none ∨
    ((∃ outcome text, (script.attempt number).outcome = some outcome ∧
        Fails script.invocation.writer outcome text) ∧
      number < script.policy.retries ∧ script.CancelledAfter number) ∨
    number = script.policy.retries

/-- What a phase comes to that goes no further than an attempt. -/
inductive Ends (script : Script) (number : Nat) : Result (Json × Nat) → Prop
  | completed
      {value : Json}
      (h : (script.attempt number).outcome = some (.ok value))
      (hvalue : value ≠ .null)
      (hwrites : script.invocation.writer.Writes value) :
      Ends script number (.ok (value, number))
  | timedOut
      (h : (script.attempt number).outcome = none) :
      Ends script number (.error (.phaseFailed script.invocation.name
            ("execution timeout after " ++ Text.ofNat script.policy.timeout ++
                " ms") number))
  | cancelled
      {outcome : Outcome} {text : String}
      (h : (script.attempt number).outcome = some outcome)
      (hfails : Fails script.invocation.writer outcome text)
      (hmore : number < script.policy.retries)
      (hcancelled : script.CancelledAfter number) :
      Ends script number
        (.error (.phaseFailed script.invocation.name "cancelled" number))
  | exhausted
      {outcome : Outcome} {text : String}
      (h : (script.attempt number).outcome = some outcome)
      (hfails : Fails script.invocation.writer outcome text)
      (hlast : number = script.policy.retries) :
      Ends script number (.error (.phaseFailed script.invocation.name text number))

/-- The course from attempt `done + 1` on. -/
def courseFrom
    (script : Script)
    (remaining done : Nat)
    (trail : Trail) :
    Execution :=
  attemptsFrom script.invocation script.policy script.start remaining (done + 1) trail
    (script.turn done).signal (script.turn done).time

/-! ## One attempt -/

/-- What is logged of attempt `done + 1` when it has failed: a result that is not
written has been taken for the end of the phase. -/
def failing
    (script : Script)
    (done : Nat)
    (trail : Trail)
    (outcome : Outcome)
    (rest : Execution) :
    Execution :=
  after (unwrittenEvents script.invocation (done + 1) trail.state outcome) [] rest

/-- What is logged of attempt `done + 1` when it is to be repeated. -/
def retrying
    (script : Script)
    (done : Nat)
    (text : String)
    (rest : Execution) :
    Execution :=
  after [.phaseRetry (script.invocation.subject (done + 1)) text script.policy.delay] [] rest

/-- What attempt `done + 1` can lead to while `remaining` further attempts are left. -/
inductive Step
    (script : Script)
    (done : Nat)
    (trail : Trail) :
    Nat → Execution → Prop
  | completed
      {remaining : Nat} {value : Json}
      (h : (script.attempt (done + 1)).outcome = some (.ok value))
      (hvalue : value ≠ .null)
      (hwrites : script.invocation.writer.Writes value) :
      Step script done trail remaining (completed script.invocation trail.state
          ⟨value, done + 1, (script.attempt (done + 1)).finish - script.start⟩
          (script.attempt (done + 1)).finish)
  | timedOut
      {remaining : Nat}
      (h : (script.attempt (done + 1)).outcome = none) :
      Step script done trail remaining (failed script.invocation
          { trail with lastError := timeoutText script.policy.timeout } (done + 1)
          (script.attempt (done + 1)).finish)
  | exhausted
      {outcome : Outcome}
      (h : (script.attempt (done + 1)).outcome = some outcome)
      (hfails :
          Fails script.invocation.writer outcome
            (trailAfter script.invocation trail outcome).lastError) :
      Step script done trail 0 (script.failing done trail outcome
          (failed script.invocation (trailAfter script.invocation trail outcome)
              (done + 1) (script.attempt (done + 1)).finish))
  | cancelled
      {remaining : Nat} {outcome : Outcome}
      (h : (script.attempt (done + 1)).outcome = some outcome)
      (hfails :
          Fails script.invocation.writer outcome
            (trailAfter script.invocation trail outcome).lastError)
      (hcancelled : script.CancelledAfter (done + 1))
      (moment : Nat) :
      Step script done trail (remaining + 1)
        (script.failing done trail outcome (script.retrying done
              (trailAfter script.invocation trail outcome).lastError
              (failed script.invocation { trailAfter script.invocation trail outcome with
                  lastError := cancelledText } (done + 1) moment)))
  | retried
      {remaining : Nat} {outcome : Outcome}
      (h : (script.attempt (done + 1)).outcome = some outcome)
      (hfails :
          Fails script.invocation.writer outcome
            (trailAfter script.invocation trail outcome).lastError)
      (hgoes : ¬ script.CancelledAfter (done + 1)) :
      Step script done trail (remaining + 1)
        (script.failing done trail outcome (script.retrying done
              (trailAfter script.invocation trail outcome).lastError
              (script.courseFrom (remaining + 1) (done + 1)
                  (trailAfter script.invocation trail outcome))))

/-- **One attempt** of a phase that is not cancelled when it begins. -/
theorem courseFrom_succ
    {script : Script} {done : Nat}
    (remaining : Nat)
    (trail : Trail)
    (h : (script.turn done).signal.seenAt (script.turn done).time = false) :
    ∃ rest,
      script.courseFrom (remaining + 1) done trail =
        after (startEvents script.invocation (done + 1))
          [(script.turn done).time] rest ∧
      script.Step done trail remaining rest := by
  refine ⟨_, attemptsFrom_of_not_seen h, ?_⟩
  have hattempt : Attempt.of (script.invocation.reply (done + 1)) (script.turn done).signal
      (script.turn done).time script.policy.timeout = script.attempt (done + 1) := rfl
  rw [hattempt]
  unfold afterAttempt
  split
  · next hnone => exact .timedOut hnone
  · next outcome hsome =>
      split
      · next value hvalue =>
          obtain ⟨rfl, hne, hwrites⟩ := result?_eq_some_iff.1 hvalue
          exact .completed hsome hne hwrites
      · next hresult =>
          have hfails := fails_failureText hresult
          cases remaining with
          | zero => exact .exhausted hsome hfails
          | succ remaining =>
              dsimp only
              rw [if_neg (Nat.succ_ne_zero remaining)]
              have hseen := (script.attempt (done + 1)).signal.isSome_seenDuring
                (script.attempt (done + 1)).finish
                ((script.attempt (done + 1)).finish + Clock.span script.policy.delay)
              split
              · next moment hmoment =>
                  rw [hmoment] at hseen
                  exact .cancelled hsome hfails hseen.symm moment
              · next hmoment =>
                  rw [hmoment] at hseen
                  refine .retried hsome hfails ?_
                  rw [CancelledAfter, ← hseen]
                  exact Bool.false_ne_true

/-! ## All attempts -/

/-- A phase that is cancelled beforehand. -/
theorem courseFrom_of_seen
    (script : Script)
    (remaining : Nat)
    (h : script.signal.seenAt script.start = true) :
    script.courseFrom (remaining + 1) 0 {} =
      failed script.invocation { lastError := cancelledText } 0 script.start :=
  attemptsFrom_of_seen h

/-- The course from attempt `done + 1` on goes up to attempt `count`. -/
structure Follows
    (script : Script)
    (done count : Nat)
    (execution : Execution) : Prop where
  lt : done < count
  stops : script.Stops count
  first : ∀ earlier, done < earlier → earlier < count → ¬ script.Stops earlier
  ends : script.Ends count (answered script.invocation execution)
  times : execution.invocations =
    (List.range' done (count - done)).map fun before => (script.turn before).time
  attempts : Log.attemptsIn execution.events = List.range' (done + 1) (count - done)

theorem attemptsIn_startEvents
    (invocation : Invocation)
    (number : Nat) :
    Log.attemptsIn (startEvents invocation number) = [number] :=
  rfl

/-- The phase stops with this attempt. -/
theorem Follows.here
    {script : Script} {done : Nat} {rest : Execution}
    (hstops : script.Stops (done + 1))
    (hends : script.Ends (done + 1) (answered script.invocation rest))
    (htimes : rest.invocations = [])
    (hattempts : Log.attemptsIn rest.events = []) :
    script.Follows done (done + 1)
      (after (startEvents script.invocation (done + 1))
          [(script.turn done).time] rest) where
  lt := Nat.lt_succ_self done
  stops := hstops
  first earlier hlow hhigh := by omega
  ends := hends
  times := by simp [after, htimes]
  attempts := by
    show Log.attemptsIn (startEvents script.invocation (done + 1) ++ rest.events) = _
    rw [Log.attemptsIn_append, attemptsIn_startEvents, hattempts]
    simp

theorem attemptsIn_unwrittenEvents
    (invocation : Invocation)
    (number : Nat)
    (state : PhaseState)
    (outcome : Outcome) :
    Log.attemptsIn (unwrittenEvents invocation number state outcome) = [] := by
  refine List.filterMap_eq_nil_iff.2 fun event hevent => ?_
  rw [eq_of_mem_unwrittenEvents hevent]
  rfl

theorem attemptsIn_failing
    (script : Script)
    (done : Nat)
    (trail : Trail)
    (outcome : Outcome)
    (rest : Execution) :
    Log.attemptsIn (script.failing done trail outcome rest).events =
      Log.attemptsIn rest.events := by
  show Log.attemptsIn (unwrittenEvents _ _ _ _ ++ rest.events) = _
  rw [Log.attemptsIn_append, attemptsIn_unwrittenEvents, List.nil_append]

/-- The phase goes on after this attempt. -/
theorem Follows.later
    {script : Script} {done count : Nat} {trail : Trail} {outcome : Outcome}
    {rest : Execution}
    (text : String)
    (hgoes : ¬ script.Stops (done + 1))
    (h : script.Follows (done + 1) count rest) :
    script.Follows done count (after (startEvents script.invocation (done + 1))
        [(script.turn done).time]
        (script.failing done trail outcome (script.retrying done text rest))) := by
  have hlt := h.lt
  have hleft : count - done = count - (done + 1) + 1 := by omega
  constructor
  case lt => omega
  case stops => exact h.stops
  case first =>
    intro earlier hlow hhigh
    rcases Nat.lt_or_ge (done + 1) earlier with hlater | hnow
    · exact h.first earlier hlater hhigh
    · obtain rfl : earlier = done + 1 := by omega
      exact hgoes
  case ends => exact h.ends
  case times =>
    show (script.turn done).time :: rest.invocations = _
    rw [h.times, hleft, List.range'_succ, List.map_cons]
  case attempts =>
    show Log.attemptsIn (startEvents script.invocation (done + 1) ++
      (script.failing done trail outcome (script.retrying done text rest)).events) = _
    rw [Log.attemptsIn_append, attemptsIn_startEvents, attemptsIn_failing, hleft,
      List.range'_succ]
    exact congrArg (List.cons (done + 1)) h.attempts

/-- **From every attempt on, the course follows the script.** -/
theorem follows_courseFrom
    (script : Script) :
    ∀ {remaining done : Nat} (trail : Trail),
      done + (remaining + 1) = script.policy.retries →
      (script.turn done).signal.seenAt (script.turn done).time = false →
      ∃ count,
        script.Follows done count (script.courseFrom (remaining + 1) done trail)
  | remaining, done, trail, hleft, hseen => by
      obtain ⟨rest, hcourse, hstep⟩ := courseFrom_succ remaining trail hseen
      rw [hcourse]
      cases hstep with
      | completed h hvalue hwrites =>
          exact ⟨done + 1, .here (.inl ⟨_, h, hvalue, hwrites⟩) (.completed h hvalue hwrites)
            rfl rfl⟩
      | timedOut h =>
          exact ⟨done + 1, .here (.inr (.inl h)) (.timedOut h) rfl rfl⟩
      | exhausted h hfails =>
          exact ⟨done + 1, .here (.inr (.inr (.inr hleft))) (.exhausted h hfails hleft) rfl
            (attemptsIn_failing _ _ _ _ _)⟩
      | cancelled h hfails hcancelled moment =>
          have hmore : done + 1 < script.policy.retries := by omega
          exact ⟨done + 1, .here (.inr (.inr (.inl ⟨⟨_, _, h, hfails⟩, hmore, hcancelled⟩)))
            (.cancelled h hfails hmore hcancelled) rfl (attemptsIn_failing _ _ _ _ _)⟩
      | @retried remaining outcome h hfails hgoes =>
          have hgoesOn : ¬ script.Stops (done + 1) := by
            rintro (⟨value, hvalue, hresult⟩ | hnone | ⟨-, -, hcancelled⟩ | hlast)
            · obtain rfl := Option.some.inj (h.symm.trans hvalue)
              exact hfails.not_result hresult
            · rw [h] at hnone
              cases hnone
            · exact hgoes hcancelled
            · omega
          obtain ⟨count, hrest⟩ := follows_courseFrom script
            (trailAfter script.invocation trail outcome)
            (by omega : done + 1 + (remaining + 1) = _) (Bool.eq_false_iff.2 hgoes)
          exact ⟨count, .later _ hgoesOn hrest⟩

end Script

/-! ## Other capabilities -/

/-- A phase that returns null first, raises an error next and then returns a value. -/
def stubborn : Script where
  invocation :=
    { name := "stubborn"
      phase := "demo"
      capability := .custom "late" fun _ _ context =>
        if context.attempt = 1 then Reply.value .null
        else if context.attempt = 2 then Reply.failure (.text "not yet")
        else Reply.value (.int 7)
      config := .emptyObject
      input := .int 1 }
  policy := {}
  signal := {}
  start := 0

/-- A library that objects to one text. -/
def particular : Json.Writer where
  objection value := if value.isText "ÿ" then some "[json] invalid UTF-8" else none

/-- A phase that is attempted once. -/
def once (reply : Reply) : Invocation where
  name := "once"
  phase := "demo"
  capability := .custom "replying" fun _ _ _ => reply
  config := .object [("retries", .int 1)]
  input := .null
  writer := particular

end Execution

end PhaseFlow
