import PhaseFlow.CommandLine.Program
import PhaseFlow.Identifier
import Std.Time.DateTime.Timestamp

/-!
# The executable

Performs the command-line program in the real world: each request becomes a system call.
-/

namespace PhaseFlow

namespace CommandLine

/-- The present moment. -/
def readClock : IO Instant := do
  let now ← Std.Time.Timestamp.now
  return ⟨Int64.ofInt now.toNanosecondsSinceUnixEpoch.val⟩

/-- Whether an action went well. -/
def succeeds (action : IO Unit) : IO Bool := do
  match ← action.toBaseIO with
  | .ok () => return true
  | .error _ => return false

/-- The bytes of a content. -/
def bytesOf (content : List UInt8) : ByteArray :=
  ByteArray.mk content.toArray

/-- Opens a file, whose path ends before its first NUL character. -/
def openPath (path : String) (mode : IO.FS.Mode) : IO IO.FS.Handle :=
  IO.FS.Handle.mk (Text.beforeNul path) mode

/-- The content of a file that can be opened; a directory can be opened and has none. -/
def readPath (path : String) : IO (Option ByteArray) := do
  match ← (openPath path .read).toBaseIO with
  | .error _ => return none
  | .ok handle =>
      match ← handle.readBinToEnd.toBaseIO with
      | .ok content => return some content
      | .error _ => return some ByteArray.empty

/-- Writes a content to a file opened in some mode. -/
def writePath
    (mode : IO.FS.Mode)
    (path : String)
    (content : List UInt8) :
    IO Bool :=
  succeeds do
    let handle ← openPath path mode
    handle.write (bytesOf content)

/-- The answer of the real world to a request. -/
def answer : (request : Request) → IO request.Answer
  | .variableValue name => IO.getEnv name
  | .currentTime => readClock
  | .freshId => do return Identifier.version4 (← IO.getRandomBytes 16).toList
  | .readFile path => readPath path
  | .createFile path content => writePath .write path content
  | .extendFile path content => writePath .append path content
  | .writeOutput content => do (← IO.getStdout).write (bytesOf content)
  | .writeError content => do (← IO.getStderr).write (bytesOf content)
  | .pause milliseconds => IO.sleep milliseconds.toUInt32

/-- Performs a script in the real world. -/
def Script.performIO {α : Type} : Script α → IO α
  | .done value => return value
  | .ask request next => do
      let found ← answer request
      (next found).performIO

end CommandLine

end PhaseFlow

/-- The entry point. -/
def main (arguments : List String) : IO UInt32 := do
  let code ← (PhaseFlow.CommandLine.program "phasegraph" arguments).performIO
  return code.number
