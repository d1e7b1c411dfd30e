import PhaseFlow.Proofs.Phase.Script

/-!
# At least one attempt

A configuration that is an object asks for one attempt at least, whatever its settings
and the defaults are. A configuration of another kind leaves the defaults as they are,
and so it leaves defaults without any attempt, too (`RetryPolicy.one_le_retries_iff`).

A phase that is not cancelled is attempted exactly if it has an attempt to make. Without
one it fails at once, and neither an error nor an attempt stands in the failure
(`withPolicy_of_no_retries`).

Main statement: `attempted_iff_floored`.
-/

namespace PhaseFlow

namespace RetryPolicy

/-- The configuration is an object, or the defaults allow an attempt. -/
def Floored (config : Json) (defaults : RetryPolicy) : Prop :=
  config.isObject = true ∨ 1 ≤ defaults.retries

theorem ofConfig_of_isObject
    {config : Json} {defaults policy : RetryPolicy}
    (hobject : config.isObject = true)
    (h : ofConfig config defaults = .ok policy) :
    1 ≤ policy.retries := by
  rw [ofConfig, if_pos hobject] at h
  obtain ⟨retries, -, h⟩ := Answer.bind_eq_ok_iff.1 h
  obtain ⟨delay, -, h⟩ := Answer.bind_eq_ok_iff.1 h
  obtain ⟨timeout, -, h⟩ := Answer.bind_eq_ok_iff.1 h
  cases h
  exact Nat.le_max_right retries 1

theorem ofConfig_of_not_isObject
    {config : Json}
    (hobject : config.isObject = false)
    (defaults : RetryPolicy) :
    ofConfig config defaults = .ok defaults := by
  rw [ofConfig, hobject, if_neg Bool.false_ne_true]

/-- **The settings allow an attempt** if the configuration is an object, and otherwise
if the defaults do. -/
theorem one_le_retries_iff
    {config : Json} {defaults policy : RetryPolicy}
    (h : ofConfig config defaults = .ok policy) :
    1 ≤ policy.retries ↔ Floored config defaults := by
  cases hobject : config.isObject with
  | true => exact iff_of_true (ofConfig_of_isObject hobject h) (Or.inl hobject)
  | false =>
      rw [ofConfig_of_not_isObject hobject] at h
      cases h
      simp [Floored, hobject]

end RetryPolicy

namespace Execution

open RetryPolicy

variable {invocation : Invocation} {policy : RetryPolicy} {signal : Signal}
variable {start : Nat}

/-- The first attempt takes place unless the phase is cancelled beforehand. -/
theorem invocations_withPolicy_ne_nil
    (hretries : 1 ≤ policy.retries)
    (hseen : signal.seenAt start = false) :
    (withPolicy invocation policy signal start).invocations ≠ [] := by
  obtain ⟨remaining, hremaining⟩ := Nat.exists_eq_add_of_le' hretries
  unfold withPolicy
  rw [hremaining, attemptsFrom_of_not_seen hseen]
  exact List.cons_ne_nil start _

theorem withPolicy_of_no_retries
    (hretries : policy.retries = 0) :
    withPolicy invocation policy signal start =
      after [transition (invocation.subject 0) .pending .running] []
        (failed invocation {} 0 start) := by
  unfold withPolicy
  rw [hretries]
  rfl

/-- **A phase is attempted exactly if its settings allow an attempt.** Accepted settings
do if the configuration is an object or the defaults allow one. Otherwise the phase is
not attempted, cancelled or not, and fails with an empty error. A phase whose input is
not written ends with the objection. -/
theorem attempted_iff_floored
    {defaults : RetryPolicy}
    (hpolicy : ofConfig invocation.config defaults = .ok policy)
    (signal : Signal)
    (start : Nat) :
    (1 ≤ policy.retries ↔ Floored invocation.config defaults) ∧
    (∀ words,
        invocation.writer.objection invocation.input = some words →
        run invocation defaults signal start = .error (.input words)) ∧
    (invocation.writer.Writes invocation.input →
      ∃ execution,
        run invocation defaults signal start = .ok execution ∧
        (signal.seenAt start = false →
          (execution.invocations ≠ [] ↔ Floored invocation.config defaults)) ∧
        (¬ Floored invocation.config defaults →
          execution.invocations = [] ∧
          answered invocation execution =
            .error (.phaseFailed invocation.name "" 0))) := by
  have hfloor := one_le_retries_iff hpolicy
  have hnone : ¬ Floored invocation.config defaults →
      (withPolicy invocation policy signal start).invocations = [] ∧
        answered invocation (withPolicy invocation policy signal start) =
          .error (.phaseFailed invocation.name "" 0) := by
    intro hbare
    have hretries : policy.retries = 0 := by
      rw [← hfloor] at hbare
      omega
    rw [withPolicy_of_no_retries hretries]
    exact ⟨rfl, rfl⟩
  refine ⟨hfloor, fun words hwords => run_of_unwritten hpolicy hwords, fun hwrites => ?_⟩
  refine ⟨_, run_of_writes hpolicy hwrites signal start, ?_, hnone⟩
  intro hseen
  constructor
  · intro hattempted
    exact Classical.not_not.1 fun hbare => hattempted (hnone hbare).1
  · intro hfloored
    exact invocations_withPolicy_ne_nil (hfloor.2 hfloored) hseen

/-- A phase whose configuration is null. -/
def bare : Invocation where
  name := "bare"
  phase := "demo"
  capability := .passThrough
  config := .null
  input := .int 1

theorem attempted_iff_floored_bare :
    ofConfig bare.config {} = .ok {} ∧
    Floored bare.config {} ∧
    ∃ execution, run bare {} {} 0 = .ok execution ∧ execution.invocations ≠ [] := by
  have hpolicy : ofConfig bare.config {} = .ok {} := rfl
  have hfloored : Floored bare.config {} := Or.inr (by decide)
  have hwrites : bare.writer.Writes bare.input := rfl
  obtain ⟨execution, hrun, hattempted, -⟩ := (attempted_iff_floored hpolicy {} 0).2.2 hwrites
  exact ⟨hpolicy, hfloored, execution, hrun, (hattempted rfl).2 hfloored⟩

/-- Defaults without any attempt go through a configuration that is no object: the
settings are accepted, the phase is not cancelled, and yet its capability is never
invoked. -/
theorem unattempted_without_floor :
    ofConfig bare.config { retries := 0 } = .ok { retries := 0 } ∧
    ({} : Signal).seenAt 0 = false ∧
    ∃ execution,
      run bare { retries := 0 } {} 0 = .ok execution ∧
      execution.invocations = [] ∧
      answered bare execution = .error (.phaseFailed "bare" "" 0) :=
  ⟨rfl, rfl, _, rfl, rfl, rfl⟩

end Execution

end PhaseFlow
