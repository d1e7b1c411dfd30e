import PhaseFlow.Error

/-!
# Executors

An executor turns an input, a configuration and a context into a reply. The reply says
what comes out and how the executor behaves in time: how long it takes, whether it
watches its cancellation token, and whether it cancels the token itself.

A capability is what a node holds: it passes its input through, or it is a custom
executor with a name.
-/

namespace PhaseFlow

/-- What an executor is told about its invocation. The graph is empty outside of a
graph, and attempts are counted from 1. -/
structure Context where
  nodeId : String
  phase : String
  graphId : String
  attempt : Nat
  deriving DecidableEq

/-- What an executor or a callback may raise: one of this library's errors, an error
with a text, or something that carries no text. -/
inductive Raised where
  | error (cause : Error)
  | text (words : String)
  | foreign

/-- The text under which a raised error is reported. -/
def Raised.message : Raised → String
  | .error cause => cause.message
  | .text words => Text.beforeNul words
  | .foreign => "unknown exception"

/-- What comes out of an executor: a value, null meaning that there is no result, or an
error. -/
abbrev Outcome :=
  Except Raised Json

/-- How an executor behaves when it is invoked. Left alone, it takes `duration`
milliseconds and comes to the outcome. `whenCancelled` comes out at once when the token
is cancelled meanwhile; it is none for an executor that never looks at its token. -/
structure Reply where
  outcome : Outcome
  duration : Nat := 0
  whenCancelled : Option Outcome := none
  cancelsToken : Bool := false

/-- An executor: from an input, a configuration and a context to a reply. -/
abbrev Executor :=
  Json → Json → Context → Reply

/-- The reply of an executor that returns a value at once. -/
def Reply.value (result : Json) : Reply :=
  { outcome := .ok result }

/-- The reply of an executor that fails at once. -/
def Reply.failure (raised : Raised) : Reply :=
  { outcome := .error raised }

/-- What a node runs. -/
inductive Capability where
  | passThrough
  | custom (name : String) (executor : Executor)

namespace Capability

/-- The name under which the identity is known. -/
def passThroughName : String :=
  "pass_through"

instance : Inhabited Capability :=
  ⟨passThrough⟩

/-- The name of a capability. -/
def name : Capability → String
  | passThrough => passThroughName
  | custom name _ => name

/-- Whether a capability is the identity. -/
def isPassThrough : Capability → Bool
  | passThrough => true
  | custom _ _ => false

/-- The reply of a capability. -/
def invoke (capability : Capability) : Executor :=
  match capability with
  | passThrough => fun input _ _ => Reply.value input
  | custom _ executor => executor

/-- The custom capability of a name; there is none without a function. -/
def forFunction
    (name : String) :
    Option Executor → Except ConfigurationFault Capability
  | some executor => .ok (custom name executor)
  | none => .error (.executorWithoutFunction name)

/-- The custom capability of a name, refused without a function. -/
def ofFunction (name : String) (function : Option Executor) : Result Capability :=
  (forFunction name function).mapError .configuration

end Capability

end PhaseFlow
