import PhaseFlow.Log.Line
import PhaseFlow.Run.Result

/-!
# Pipeline definitions

What a pipeline definition says: its phases, the explicit edges between them, how it is
run and what is logged.
-/

namespace PhaseFlow

/-- One phase of a definition. Its name becomes the id of the node, an empty executor
stands for the identity, and the references in its configuration are replaced. -/
structure PhaseEntry where
  name : String
  phase : String
  executor : String
  config : Json
  dependencies : List String

/-- One explicit edge of a definition; the configuration holds the stream and its
settings. -/
structure EdgeEntry where
  source : String
  target : String
  config : Json

/-- What a definition says about the log: the least severity that is written, whether
lines are JSON objects, the log file, if its name is not empty, and whether data is
previewed. -/
structure LoggingEntry where
  level : Log.Level := .info
  json : Bool := true
  file : String := ""
  previews : Bool := false

instance : Inhabited LoggingEntry :=
  ⟨{}⟩

/-- The configuration of the log that an entry asks for. -/
def LoggingEntry.toConfig (entry : LoggingEntry) : Log.Config :=
  let config : Log.Config :=
    { minLevel := entry.level
      json := entry.json
      previews := entry.previews }
  if entry.file = "" then config else { config with toFile := true, path := entry.file }

/-- A pipeline definition. -/
structure Definition where
  name : String
  description : String
  phases : List PhaseEntry
  edges : List EdgeEntry
  options : RunOptions
  logging : LoggingEntry

end PhaseFlow
