import PhaseFlow.Definition.Entries
import PhaseFlow.Definition.Environment
import PhaseFlow.Definition.Path
import PhaseFlow.Json.Reader

/-!
# Reading pipeline definitions

A definition is a JSON object. It is read part by part, and the first fault ends the
reading; then the names are checked. References to variables are replaced in the
configurations of the phases and in the path of the log file. A number that is out of
range is no fault of the definition, but an error of the JSON library.
-/

namespace PhaseFlow

namespace Definition

/-- What reading a part of a definition answers. -/
abbrev Reading (α : Type) :=
  Except DefinitionFault α

/-- A value of the wrong kind is a fault of the definition. -/
def access {α : Type} (value : Except Json.AccessError α) : Reading α :=
  value.mapError .wrongKind

/-- The text of a field, if the field is there. -/
def textField
    (value : Json)
    (key : String)
    (fallback : String) :
    Reading String :=
  match value.field? key with
  | none => .ok fallback
  | some found => access found.asText

/-! ## Phases and edges -/

/-- The configuration of a phase. -/
def configOf
    (environment : Environment)
    (name : String)
    (entry : Json) :
    Reading Json :=
  match entry.field? "config" with
  | none => .ok .emptyObject
  | some config =>
      if config.isObject then .ok (environment.expandJson config)
      else .error (.phaseConfigNotObject name)

/-- The executor of a phase; the one beside the configuration wins over the one
inside. -/
def executorOf (entry config : Json) : Reading String :=
  match entry.field? "executor" with
  | some found => access found.asText
  | none => textField config "executor" ""

/-- The dependencies of a phase. -/
def dependenciesOf (name : String) (entry : Json) : Reading (List String) :=
  match entry.field? "dependencies" with
  | none => .ok []
  | some (.arr items) => access (items.mapM Json.asText)
  | some _ => .error (.dependenciesNotArray name)

/-- A phase. -/
def readPhase (environment : Environment) (entry : Json) : Reading PhaseEntry :=
  match entry.field? "name" with
  | none => .error .phaseWithoutName
  | some found => do
      let name ← access found.asText
      let phase ← textField entry "phase" name
      let config ← configOf environment name entry
      let executor ← executorOf entry config
      let dependencies ← dependenciesOf name entry
      .ok { name, phase, executor, config, dependencies }

/-- The fields of an edge that make up its configuration. -/
def edgeConfig : Json → Json
  | .obj fields => .obj (fields.filter fun field => field.1 ≠ "source" && field.1 ≠ "target")
  | _ => .emptyObject

/-- An explicit edge. -/
def readEdge (entry : Json) : Reading EdgeEntry :=
  match entry.field? "source", entry.field? "target" with
  | some source, some target => do
      let source ← access source.asText
      let target ← access target.asText
      .ok ⟨source, target, edgeConfig entry⟩
  | _, _ => .error .edgeWithoutEnds

/-- The phases of a definition. -/
def readPhases
    (environment : Environment)
    (document : Json) :
    Reading (List PhaseEntry) :=
  match document.field? "phases" with
  | none => .error .missingPhases
  | some (.arr entries) => entries.mapM (readPhase environment)
  | some _ => .error .phasesNotArray

/-- The explicit edges of a definition. -/
def readEdges (document : Json) : Reading (List EdgeEntry) :=
  match document.field? "edges" with
  | none => .ok []
  | some entries => entries.elements.mapM readEdge

/-! ## Execution and logging -/

/-- How a pipeline is run. -/
def readOptions (document : Json) : Reading RunOptions :=
  match document.field? "execution" with
  | none => .ok {}
  | some entry => do
      let parallel ← access (entry.fieldOr "parallel" false Json.asBool)
      let monitor ← access (entry.fieldOr "monitor" false Json.asBool)
      let retry ← (RetryPolicy.ofConfig entry {}).mapError .badExecution
      .ok { parallel, monitor, retry }

/-- The severity of a name in any case; `WARNING` is allowed for `WARN`. -/
def readLevel (text : String) : Reading Log.Level :=
  let upper := String.ofList (text.toList.map Char.toUpper)
  match Log.Level.ofName? (if upper = "WARNING" then "WARN" else upper) with
  | some level => .ok level
  | none => .error (.badLevel text)

/-- What is logged. -/
def readLogging
    (environment : Environment)
    (document : Json) :
    Reading LoggingEntry :=
  match document.field? "logging" with
  | none => .ok {}
  | some entry => do
      let level ←
        match entry.field? "level" with
        | none => .ok .info
        | some found => do readLevel (← access found.asText)
      let json ← access (entry.fieldOr "json" true Json.asBool)
      let previews ← access (entry.fieldOr "data_preview" false Json.asBool)
      let file ← textField entry "file" ""
      .ok { level, json, previews, file := environment.expand file }

/-! ## Names -/

/-- Refuses empty and repeated phase names, `seen` holding the names before. -/
def checkNames : List String → List String → Reading Unit
  | _, [] => .ok ()
  | seen, name :: rest =>
      if name = "" then .error .emptyPhaseName
      else if seen.contains name then .error (.duplicatePhase name)
      else checkNames (name :: seen) rest

/-- Refuses dependencies that name no phase. -/
def checkDependencies (names : List String) (phase : PhaseEntry) : Reading Unit :=
  match phase.dependencies.find? fun dependency => !names.contains dependency with
  | none => .ok ()
  | some dependency => .error (.unknownDependency phase.name dependency)

/-- Refuses edges whose ends name no phase. -/
def checkEdge (names : List String) (edge : EdgeEntry) : Reading Unit :=
  if !names.contains edge.source then .error (.unknownSource edge.source)
  else if !names.contains edge.target then .error (.unknownTarget edge.target)
  else .ok ()

/-- Refuses a definition whose names do not fit together. -/
def validate (definition : Definition) : Reading Unit :=
  if definition.phases.isEmpty then .error .noPhases
  else do
    let names := definition.phases.map PhaseEntry.name
    checkNames [] names
    definition.phases.forM (checkDependencies names)
    definition.edges.forM (checkEdge names)

/-! ## The whole definition -/

/-- The parts of a definition, before its names are checked. -/
def readParts
    (environment : Environment)
    (document : Json) :
    Reading Definition := do
  if !document.isObject then .error .notObject
  let name ← textField document "name" ""
  let description ← textField document "description" ""
  let phases ← readPhases environment document
  let edges ← readEdges document
  let options ← readOptions document
  let logging ← readLogging environment document
  .ok { name, description, phases, edges, options, logging }

/-- The definition that a document holds. -/
def ofJson (environment : Environment) (document : Json) : Reading Definition := do
  let definition ← readParts environment document
  validate definition
  .ok definition

/-- The definition that a document holds, if the document could be read. -/
def read
    (environment : Environment)
    (document : Except Json.ReadFault Json) :
    Result Definition :=
  match document with
  | .error fault => .error (.ofReadFault (.definition .notJson) fault)
  | .ok document => (ofJson environment document).mapError .definition

/-- **The definition that a text writes.** -/
def ofText
    (environment : Environment)
    (text : String)
    (nulEnds : Bool := false) :
    Result Definition :=
  read environment (Json.parse nulEnds text.toUTF8)

/-- The definition as it stands in a file: the path of the log file is taken from the
directory of that file. -/
def inFile (definition : Definition) (file : String) : Definition :=
  if definition.logging.file = "" then definition
  else
    { definition with
      logging := { definition.logging with
        file := Path.resolve definition.logging.file file } }

/-- The definition in a file of a given content; no content means that the file cannot
be opened. -/
def ofFile
    (environment : Environment)
    (file : String)
    (content : Option ByteArray)
    (nulEnds : Bool := false) :
    Result Definition :=
  match content with
  | none => .error (.definition (.unreadableFile file))
  | some bytes => (read environment (Json.parse nulEnds bytes)).map fun definition =>
      definition.inFile file

end Definition

end PhaseFlow
