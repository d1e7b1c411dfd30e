import PhaseFlow.Phase.Execution

/-!
# Executing a phase later

The course of a phase that nobody cancels at a set time does not depend on when it
begins: begun `d` milliseconds later it is the same course `d` milliseconds later. In
particular outcome, attempts and log are the same (`run_shift`).

The signal of such a phase has no set time. Attempts keep this (`Attempt.raisedAt_of`),
and an attempt, a wait and the whole course are shifted one after the other.
-/

namespace PhaseFlow

namespace Attempt

/-- The attempt some milliseconds later. -/
def shift (attempt : Attempt) (d : Nat) : Attempt :=
  { attempt with finish := attempt.finish + d }

end Attempt

namespace Execution

/-- The course some milliseconds later. -/
def shift (execution : Execution) (d : Nat) : Execution :=
  { execution with
    invocations := execution.invocations.map (· + d)
    finish := execution.finish + d }

end Execution

namespace Signal

/-- A cancellation without a moment is seen at all times or never. -/
theorem seenAt_of_raisedAt_eq_none
    {signal : Signal}
    (h : signal.raisedAt = none)
    (time : Nat) :
    signal.seenAt time = signal.raised := by
  simp [seenAt, h]

theorem seenDuring_of_raisedAt_eq_none
    {signal : Signal}
    (h : signal.raisedAt = none)
    (start finish : Nat) :
    signal.seenDuring start finish = if signal.raised then some start else none := by
  simp [seenDuring, h]

end Signal

namespace Attempt

theorem raisedAt_raise_of
    (seen : Bool)
    (signal : Signal) :
    (if seen then signal.raise else signal).raisedAt = signal.raisedAt := by
  cases seen <;> rfl

theorem raisedAt_unlimited
    (reply : Reply)
    (signal : Signal)
    (start : Nat) :
    (unlimited reply signal start).signal.raisedAt = signal.raisedAt := by
  unfold unlimited
  dsimp only
  split <;> exact raisedAt_raise_of _ signal

theorem raisedAt_limited
    (reply : Reply)
    (signal : Signal)
    (start limit : Nat) :
    (limited reply signal start limit).signal.raisedAt = signal.raisedAt := by
  unfold limited
  dsimp only
  split
  · split <;> split <;> exact raisedAt_raise_of _ signal
  · split <;> exact raisedAt_raise_of _ signal

/-- An attempt sets no time for the cancellation of the phase. -/
theorem raisedAt_of
    (reply : Reply)
    (signal : Signal)
    (start limit : Nat) :
    (Attempt.of reply signal start limit).signal.raisedAt = signal.raisedAt := by
  unfold Attempt.of
  split
  · exact raisedAt_unlimited reply signal start
  · exact raisedAt_limited reply signal start (Clock.span limit)

theorem unlimited_shift
    (reply : Reply)
    {signal : Signal}
    (h : signal.raisedAt = none)
    (start d : Nat) :
    unlimited reply signal (start + d) = (unlimited reply signal start).shift d := by
  unfold unlimited
  simp only [Signal.seenDuring_of_raisedAt_eq_none h]
  cases hraised : signal.raised with
  | false =>
      cases reply.whenCancelled <;> simp [shift] <;> omega
  | true =>
      cases reply.whenCancelled with
      | none =>
          simp [shift]
          omega
      | some early => simp [shift]

theorem limited_shift
    (reply : Reply)
    {signal : Signal}
    (h : signal.raisedAt = none)
    (start limit d : Nat) :
    limited reply signal (start + d) limit =
      (limited reply signal start limit).shift d := by
  unfold limited
  simp only [Signal.seenDuring_of_raisedAt_eq_none h]
  have hdeadline : start + d + limit = start + limit + d := by omega
  have hfinish : start + d + reply.duration = start + reply.duration + d := by omega
  have hmin : min (start + limit + d) (start + d) = min (start + limit) start + d := by omega
  rw [hdeadline, hfinish]
  cases hraised : signal.raised with
  | false =>
      cases reply.whenCancelled with
      | none =>
          simp only [Bool.false_eq_true, if_false, Nat.add_le_add_iff_right]
          split <;> rfl
      | some early =>
          simp only [Bool.false_eq_true, if_false, Option.map_none, Option.getD_none,
            Nat.add_lt_add_iff_right]
          split <;> (simp only [Nat.add_le_add_iff_right]; split <;> rfl)
  | true =>
      cases reply.whenCancelled with
      | none =>
          simp only [if_true, Nat.add_le_add_iff_right]
          split <;> rfl
      | some early =>
          simp only [if_true, Option.map_some, Option.getD_some, hmin,
            Nat.add_lt_add_iff_right]
          split <;> (simp only [Nat.add_le_add_iff_right]; split <;> rfl)

/-- An attempt that starts later ends later by as much, if no moment is set for a
cancellation. -/
theorem of_shift
    (reply : Reply)
    {signal : Signal}
    (h : signal.raisedAt = none)
    (start limit d : Nat) :
    Attempt.of reply signal (start + d) limit =
      (Attempt.of reply signal start limit).shift d := by
  unfold Attempt.of
  split
  · exact unlimited_shift reply h start d
  · exact limited_shift reply h start (Clock.span limit) d

end Attempt

namespace Execution

/-- A course that starts later has the same events. -/
theorem shift_after
    (events : List Log.Event)
    (invocations : List Nat)
    (rest : Execution)
    (d : Nat) :
    (after events invocations rest).shift d =
      after events (invocations.map (· + d)) (rest.shift d) := by
  simp [after, shift]

theorem shift_completed
    (invocation : Invocation)
    (state : PhaseState)
    (done : Completion)
    (finish d : Nat) :
    (completed invocation state done finish).shift d =
      completed invocation state done (finish + d) :=
  rfl

/-- **From every attempt on, the course is the same some milliseconds later.** -/
theorem attemptsFrom_shift
    (invocation : Invocation)
    (policy : RetryPolicy)
    (begun d : Nat) :
    ∀ (remaining attempt : Nat) (trail : Trail) {signal : Signal} (time : Nat),
      signal.raisedAt = none →
      attemptsFrom invocation policy (begun + d) remaining attempt trail signal
        (time + d) =
        (attemptsFrom invocation policy begun remaining attempt trail signal
            time).shift d
  | 0, _, _, _, _, _ => rfl
  | remaining + 1, attempt, trail, signal, time, h => by
      unfold attemptsFrom
      rw [Signal.seenAt_of_raisedAt_eq_none h, Signal.seenAt_of_raisedAt_eq_none h,
        Attempt.of_shift _ h]
      split
      · rfl
      · have hafter :=
          (Attempt.raisedAt_of (invocation.reply attempt) signal time policy.timeout).trans h
        dsimp only
        rw [shift_after]
        generalize Attempt.of (invocation.reply attempt) signal time policy.timeout = ended
          at hafter ⊢
        congr 1
        obtain ⟨outcome, finish, signal⟩ := ended
        have hafter : signal.raisedAt = none := hafter
        cases outcome with
        | none => rfl
        | some outcome =>
            cases hresult : result? invocation.writer outcome with
            | some output =>
                simp only [Attempt.shift, hresult, shift_completed]
                rw [Nat.add_sub_add_right]
            | none =>
                simp only [Attempt.shift, hresult]
                rw [shift_after]
                refine congrArg (after _ []) ?_
                split
                · rfl
                · generalize Clock.span policy.delay = pause
                  have hresume : finish + d + pause = finish + pause + d := by omega
                  rw [Signal.seenDuring_of_raisedAt_eq_none hafter,
                    Signal.seenDuring_of_raisedAt_eq_none hafter, shift_after, hresume]
                  congr 1
                  cases hraised : signal.raised with
                  | true => rfl
                  | false =>
                      exact attemptsFrom_shift invocation policy begun d remaining
                        (attempt + 1)
                        _ _ hafter

/-- **A phase executed later takes the same course later.** -/
theorem run_shift
    (invocation : Invocation)
    (defaults : RetryPolicy)
    {signal : Signal}
    (h : signal.raisedAt = none)
    (start d : Nat) :
    run invocation defaults signal (start + d) =
      (run invocation defaults signal start).map fun execution =>
        execution.shift d := by
  unfold run
  cases RetryPolicy.ofConfig invocation.config defaults with
  | error fault => rfl
  | ok policy =>
      cases invocation.writer.objection invocation.input with
      | some words => rfl
      | none =>
          simp only [Except.map, withPolicy, attemptsFrom_shift invocation policy
            start d _ _ _ _ h, shift_after, List.map_nil]

end Execution

end PhaseFlow
