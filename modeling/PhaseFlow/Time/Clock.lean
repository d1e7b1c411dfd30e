/-!
# Deadlines

Spans of time are set in milliseconds, as words of 64 bits. The clock counts nanoseconds
in a signed word of 64 bits, and has been running for a second when anything begins. A
deadline is a reading of the clock: the beginning and the span are added, and the sum
comes round when it leaves the word. So a span that the clock cannot count, about 292
years, has a deadline that is over already or comes early.

`Clock.span` is the time that is left until the deadline. `Clock.span_of_le` says that
this is the span that was set, if the clock can count it.
-/

namespace PhaseFlow

namespace Clock

/-- The nanoseconds of a millisecond. -/
def resolution : Int :=
  1000000

/-- The reading of the clock at the beginning, in nanoseconds. -/
def beginning : Int :=
  1000000000

/-- The number of readings of the clock. -/
def period : Nat :=
  18446744073709551616

/-- The reading at which a span ends. -/
def deadline (milliseconds : Nat) : Int :=
  (beginning + milliseconds * resolution).bmod period

/-- **The milliseconds that are left** until the deadline of a span, a part counting as
a whole. -/
def span (milliseconds : Nat) : Nat :=
  ((deadline milliseconds - beginning + (resolution - 1)) / resolution).toNat

/-- The deadline of a span that the clock can count lies so much later. -/
theorem deadline_of_le
    {milliseconds : Nat}
    (h : milliseconds ≤ 9223372035854) :
    deadline milliseconds = beginning + milliseconds * resolution := by
  unfold deadline
  apply Int.bmod_eq_of_le_mul_two <;> simp only [beginning, resolution, period] <;> omega

/-- A span that the clock can count is left as it was set. -/
theorem span_of_le
    {milliseconds : Nat}
    (h : milliseconds ≤ 9223372035854) :
    span milliseconds = milliseconds := by
  rw [span, deadline_of_le h]
  simp only [beginning, resolution]
  omega

end Clock

end PhaseFlow
