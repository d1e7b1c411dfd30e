import PhaseFlow.Time.Instant

/-!
# Scripts

A script is a program that talks to the world by requests only: files, streams, the
clock, variables and fresh identifiers. It says what is asked and how each answer is
used, and can be performed by anything that answers the requests.
-/

namespace PhaseFlow

namespace CommandLine

/-- Something that a script asks of the world. -/
inductive Request where
  | variableValue (name : String)
  | currentTime
  | freshId
  | readFile (path : String)
  | createFile (path : String) (content : List UInt8)
  | extendFile (path : String) (content : List UInt8)
  | writeOutput (content : List UInt8)
  | writeError (content : List UInt8)
  | pause (milliseconds : Nat)

/-- What the world answers to a request. -/
abbrev Request.Answer : Request → Type
  | variableValue _ => Option String
  | currentTime => Instant
  | freshId => String
  | readFile _ => Option ByteArray
  | createFile _ _ => Bool
  | extendFile _ _ => Bool
  | writeOutput _ => Unit
  | writeError _ => Unit
  | pause _ => Unit

/-- A program that talks to the world by requests. -/
inductive Script (α : Type) where
  | done (value : α)
  | ask (request : Request) (next : request.Answer → Script α)

namespace Script

/-- One script after another. -/
def bind {α β : Type} : Script α → (α → Script β) → Script β
  | done value, next => next value
  | ask request rest, next => ask request fun answer => bind (rest answer) next

instance : Monad Script where
  pure := done
  bind := bind

/-- A single request. -/
def request (request : Request) : Script request.Answer :=
  ask request done

end Script

end CommandLine

end PhaseFlow
