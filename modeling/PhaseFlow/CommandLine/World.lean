import PhaseFlow.CommandLine.Files
import PhaseFlow.CommandLine.Script
import PhaseFlow.Definition.Environment

/-!
# A world in memory

What a script can see and change: files, variables, the time, and what was written so
far. Waiting takes no time.

`Script.runIn` performs a script in such a world.
-/

namespace PhaseFlow

namespace CommandLine

/-- What a script can see and change. -/
structure World where
  files : Files
  environment : Environment
  now : Instant
  freshId : String
  output : List UInt8 := []
  errors : List UInt8 := []

namespace World

/-- The answer to a request and the world afterwards. -/
def answer (world : World) : (request : Request) → request.Answer × World
  | .variableValue name => (world.environment.get? name, world)
  | .currentTime => (world.now, world)
  | .freshId => (world.freshId, world)
  | .readFile path =>
      ((world.files.open? path).map fun content => ByteArray.mk content.toArray, world)
  | .createFile path content =>
      match world.files.create? path content with
      | some files => (true, { world with files := files })
      | none => (false, world)
  | .extendFile path content =>
      match world.files.extend? path content with
      | some files => (true, { world with files := files })
      | none => (false, world)
  | .writeOutput content => ((), { world with output := world.output ++ content })
  | .writeError content => ((), { world with errors := world.errors ++ content })
  | .pause _ => ((), world)

end World

/-- The value of a script performed in a world, and the world afterwards. -/
def Script.runIn {α : Type} : Script α → World → α × World
  | .done value, world => (value, world)
  | .ask request next, world =>
      let (answer, after) := world.answer request
      (next answer).runIn after

end CommandLine

end PhaseFlow
