import PhaseFlow.Phase.Execution

/-!
# What a job runs

A job executes one phase under a name. Its course is the course of that phase; a phase
that is refused before its first attempt ends the job with the refusal as its error.
-/

namespace PhaseFlow

/-- What a job runs. -/
structure JobSpec where
  phase : String := ""
  executor : Capability := .passThrough
  input : Json := .emptyObject
  config : Json := .emptyObject

/-- How a job comes to its end, when its executor was invoked, in order, and when it
ended. -/
structure JobCourse where
  outcome : Except Failure Completion
  invocations : List Nat
  finish : Nat

namespace JobSpec

/-- The phase that a job of some name executes. -/
def invocation
    (spec : JobSpec)
    (name : String)
    (writer : Json.Writer := {}) :
    Invocation :=
  { name := name
    phase := spec.phase
    capability := spec.executor
    config := spec.config
    input := spec.input
    writer := writer }

/-- **The course of a job** that begins to execute at some time and is cancelled by a
signal. -/
def course
    (spec : JobSpec)
    (name : String)
    (defaults : RetryPolicy)
    (signal : Signal)
    (start : Nat)
    (writer : Json.Writer := {}) :
    JobCourse :=
  match Execution.run (spec.invocation name writer) defaults signal start with
  | .ok execution => ⟨execution.outcome, execution.invocations, execution.finish⟩
  | .error refusal => ⟨.error ⟨refusal.error.message, 0⟩, [], start⟩

end JobSpec

end PhaseFlow
