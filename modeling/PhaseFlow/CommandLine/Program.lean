import PhaseFlow.CommandLine.Options
import PhaseFlow.CommandLine.Script
import PhaseFlow.Definition.Build
import PhaseFlow.Definition.Reader
import PhaseFlow.Document.Export
import PhaseFlow.Run.Pipeline
import PhaseFlow.Schedule.Lifecycle

/-!
# The command-line program

The commands read a pipeline definition and run it, check it, show its levels or its
lifecycle, or write its graph as a document. `program` is the whole program as a script;
`ExitCode` says how it can end.
-/

namespace PhaseFlow

namespace CommandLine

/-- How the program ends: with one of its codes, or because of an error that it does not
catch. -/
inductive ExitCode where
  | success
  | usage
  | configuration
  | phaseFailure
  | toleratedFailures
  | uncaught
  deriving DecidableEq

/-- The number of an exit code. A program that nothing catches an error of is aborted,
and has the number under which a shell knows an aborted program. -/
def ExitCode.number : ExitCode → UInt32
  | success => 0
  | usage => 1
  | configuration => 2
  | phaseFailure => 3
  | toleratedFailures => 4
  | uncaught => 134

/-- A script that may be refused. -/
abbrev Command (α : Type) :=
  ExceptT Error Script α

/-! ## Talking -/

/-- Some output. -/
def say (text : String) : Script Unit :=
  .request (.writeOutput (Text.utf8 text))

/-- Some diagnostic output. -/
def complain (text : String) : Script Unit :=
  .request (.writeError (Text.utf8 text))

/-- The usage text, the program being called by some name. -/
def usageText (name : String) : String :=
  String.join
    ["phasegraph v1.0.0\n\n",
      "Usage: ", name, " <command> <pipeline.json> [options]\n\n",
      "Commands:\n",
      "  run        Execute the pipeline and print the result\n",
      "  validate   Parse, build and order the pipeline without running it\n",
      "  levels     Print the execution levels\n",
      "  dag        Print phases, dependencies, startup and shutdown order as JSON\n",
      "  export     Print the built hypergraph as a JSON document\n\n",
      "Run options:\n",
      "  --parallel              Run independent phases of a level concurrently\n",
      "  --monitor               Log per-phase progress at INFO level\n",
      "  --input <path>          JSON file with the initial input\n",
      "  --output <path>         Write the result (or exported document) to a file\n",
      "  --export <path>         Export the hypergraph with run statistics after the run\n\n",
      "Logging options:\n",
      "  --log-level <level>     DEBUG, INFO, WARN or ERROR\n",
      "  --log-file <path>       Also write logs to a file\n",
      "  --plain-logs            Plain-text log lines instead of JSON\n\n",
      "  --help, -h              Show this help message\n\n",
      "Exit codes: 0 success, 1 usage, 2 configuration, 3 phase failure, 4 partial failure\n"]

/-- A text and a line end, written to a file, or to the output if the path is empty. -/
def writeResult (path text : String) : Command Unit :=
  if path = "" then say (text ++ "\n")
  else do
    let written ←
      (Script.request (.createFile path (Text.utf8 (text ++ "\n"))) : Script Bool)
    if !written then throw (.definition (.unwritableOutput path))

/-! ## Logging -/

/-- The log configuration of a definition, changed by options. -/
def logConfig (definition : Definition) (options : Options) : Log.Config :=
  let config := definition.logging.toConfig
  let config :=
    if options.logLevel = "" then config
    else { config with minLevel := Log.Level.ofName options.logLevel }
  let config :=
    if options.logFile = "" then config
    else { config with toFile := true, path := options.logFile }
  if options.plainLogs then { config with json := false } else config

/-- Opens the log file, if one is asked for; the answer is the configuration to log
with. -/
def openLog (config : Log.Config) : Script Log.Config :=
  if config.toFile then do
    let opened ← Script.request (.extendFile config.path [])
    if opened then return config
    complain ("Warning: Failed to open log file: " ++ config.path ++ "\n")
    return { config with toFile := false }
  else return config

/-- One line of the log. -/
def logLine (config : Log.Config) (line : List UInt8) : Script Unit := do
  let content := line ++ [10]
  if config.console then Script.request (.writeError content)
  if config.toFile then
    let _ ← Script.request (.extendFile config.path content)

/-- Some events. -/
def logEvents (config : Log.Config) (events : List Log.Event) : Script Unit := do
  let now ← Script.request .currentTime
  (config.lines now.timestamp events).forM (logLine config)

/-! ## Reading -/

/-- The environment that holds the variables of given names. -/
def environmentFor : List String → Script Environment
  | [] => return KeyMap.empty
  | name :: rest => do
      let environment ← environmentFor rest
      match ← Script.request (.variableValue name) with
      | some value => return environment.insert name value
      | none => return environment

/-- The definition in a file. -/
def loadDefinition
    (path : String)
    (nulEnds : Bool := false) :
    Command Definition := do
  let content ← (Script.request (.readFile path) : Script (Option ByteArray))
  let document := content.bind fun bytes => (Json.parse nulEnds bytes).toOption
  let environment ← environmentFor ((document.map Environment.mentioned).getD [])
  liftExcept (Definition.ofFile environment path content nulEnds)
where
  liftExcept {α : Type} (result : Result α) : Command α :=
    ExceptT.mk (pure result)

/-- The initial input in a file; null if the path is empty. -/
def loadInput (path : String) (nulEnds : Bool := false) : Command Json :=
  if path = "" then return .null
  else do
    match ← (Script.request (.readFile path) : Script (Option ByteArray)) with
    | none => throw (.definition (.unreadableInput path))
    | some content =>
        match Json.parse nulEnds content with
        | .ok value => return value
        | .error fault => throw (.ofReadFault (.definition (.inputNotJson path)) fault)

/-! ## Commands -/

/-- The lines that show levels. -/
def levelLines (levels : List (List String)) : String :=
  Text.join "\n" (levels.zipIdx.map fun (level, index) =>
    "level " ++ Text.ofNat index ++ ":" ++ String.join (level.map fun id => " " ++ id))

/-- The levels of a graph, and with `verdict` the statement that the pipeline is
valid. -/
def showLevels
    (definition : Definition)
    (graph : Graph)
    (verdict : Bool) :
    Command ExitCode := do
  let order ← ExceptT.mk (pure (Schedule.executionOrder graph))
  let levels ← ExceptT.mk (pure (Schedule.levels graph order))
  if verdict then
    say ("Pipeline " ++ Text.inQuotes definition.name ++ " is valid: " ++
      Text.ofNat graph.nodes.size ++ " phase(s), " ++ Text.ofNat graph.edges.size ++
      " edge(s), " ++ Text.ofNat levels.length ++ " level(s)\n")
  say (levelLines levels ++ "\n")
  return .success

/-- The lifecycle summary of a graph. -/
def showLifecycle (graph : Graph) (options : Options) : Command ExitCode := do
  let summary ← ExceptT.mk (pure (Lifecycle.ofGraph graph))
  writeResult options.output (summary.toJson.indented 2)
  return .success

/-- What follows a run: the result or the failure, as an exit code. -/
def concludeRun (report : Run.Report) (options : Options) : Command ExitCode :=
  match report.outcome with
  | .ok result => do
      writeResult options.output (result.toJson.indented 2)
      return if result.isSuccess then .success else .toleratedFailures
  | .error error =>
      if Run.isPhaseFailure error then do
        complain ("Pipeline aborted: " ++ error.message ++ "\n")
        return .phaseFailure
      else throw error

/-- How the pipeline of a definition is run; options can only add to it. -/
def runOptions (definition : Definition) (options : Options) : RunOptions :=
  { definition.options with
    parallel := definition.options.parallel || options.parallel
    monitor := definition.options.monitor || options.monitor }

/-- The aftermath of a run: its log, its result and the document of its graph. -/
def reportRun
    (report : Run.Report)
    (options : Options)
    (config : Log.Config) :
    Command ExitCode := do
  (Script.request (.pause report.elapsed) : Script Unit)
  logEvents config report.events
  let code ← concludeRun report options
  if options.exportTo ≠ "" then
    writeResult options.exportTo (Document.textOf report.graph 2)
  return code

/-- A run of a graph. -/
def runGraph
    (definition : Definition)
    (graph : Graph)
    (options : Options)
    (config : Log.Config)
    (nulEnds : Bool := false) :
    Command ExitCode := do
  let input ← loadInput options.input nulEnds
  let now ← (Script.request .currentTime : Script Instant)
  reportRun (Run.run graph input (runOptions definition options) [] now) options config

/-- What a command does with a pipeline that was built. -/
def carryOut
    (definition : Definition)
    (graph : Graph)
    (options : Options)
    (config : Log.Config)
    (nulEnds : Bool := false) :
    Command ExitCode :=
  if options.command = "validate" then showLevels definition graph true
  else if options.command = "levels" then showLevels definition graph false
  else if options.command = "dag" then showLifecycle graph options
  else if options.command = "export" then do
    writeResult options.output (Document.textOf graph 2)
    return .success
  else runGraph definition graph options config nulEnds

/-- The command that the options ask for. -/
def perform (options : Options) (nulEnds : Bool := false) : Command ExitCode := do
  let definition ← loadDefinition options.pipeline nulEnds
  let config ← openLog (logConfig definition options)
  let freshId ← (Script.request .freshId : Script String)
  let now ← (Script.request .currentTime : Script Instant)
  let graph ← ExceptT.mk (pure (definition.build Registry.builtin freshId now))
  carryOut definition graph options config nulEnds

/-- The command, a refusal being reported; errors of the JSON library are not caught. -/
def performReporting
    (options : Options)
    (nulEnds : Bool := false) :
    Script ExitCode := do
  match ← (perform options nulEnds).run with
  | .ok code => return code
  | .error (.json _) => return .uncaught
  | .error error =>
      complain ("Error: " ++ error.message ++ "\n")
      return .configuration

/-- **The program**, called by some name with some arguments. -/
def program
    (name : String)
    (arguments : List String)
    (nulEnds : Bool := false) :
    Script ExitCode :=
  match Options.parse arguments with
  | .error fault => do
      complain ("Error: " ++ fault.message ++ "\n")
      complain (usageText name)
      return .usage
  | .ok options =>
      if options.help then do
        complain (usageText name)
        return .success
      else if arguments.isEmpty then do
        complain (usageText name)
        return .usage
      else
        match options.check with
        | .error fault => do
            complain ("Error: " ++ fault.message ++ "\n")
            complain "\nUse --help for usage information.\n"
            return .usage
        | .ok () => performReporting options nulEnds

end CommandLine

end PhaseFlow
