/-!
# Command-line options

The arguments are a command, a pipeline file and options in any order. Some options take
the next argument as their value, whatever it looks like; of repeated options the last
one counts. A request for help ends the reading. An empty value counts as no value.

* `Options.parse` reads the arguments.
* `Options.check` refuses options that do not make up a command.
-/

namespace PhaseFlow

namespace CommandLine

/-- What the arguments ask for. The document of the graph after a run goes to the file
`exportTo`; a monitored run logs its progress among its course. -/
structure Options where
  command : String := ""
  pipeline : String := ""
  input : String := ""
  output : String := ""
  exportTo : String := ""
  logLevel : String := ""
  logFile : String := ""
  parallel : Bool := false
  monitor : Bool := false
  plainLogs : Bool := false
  help : Bool := false
  deriving DecidableEq

/-- Why arguments are refused. An option that lacks its value is unknown. -/
inductive UsageFault where
  | unknownOption (argument : String)
  | unexpectedArgument (argument : String)
  | unknownCommand (command : String)
  | missingPipeline
  | badLogLevel (level : String)
  deriving DecidableEq

/-- The wording of a refusal. -/
def UsageFault.message : UsageFault → String
  | unknownOption argument => "Unknown or incomplete option: " ++ argument
  | unexpectedArgument argument => "Unexpected argument: " ++ argument
  | unknownCommand command => "Unknown command: " ++ command
  | missingPipeline => "Pipeline file is required"
  | badLogLevel level => "Invalid log level: " ++ level

namespace Options

/-- Whether an argument asks for help. -/
def asksForHelp (argument : String) : Bool :=
  argument = "--help" || argument = "-h"

/-- The effect of a flag. -/
def setFlag? (argument : String) (options : Options) : Option Options :=
  if argument = "--parallel" then some { options with parallel := true }
  else if argument = "--monitor" then some { options with monitor := true }
  else if argument = "--plain-logs" then some { options with plainLogs := true }
  else none

/-- The effect of an option with a value. -/
def setValue? (argument value : String) (options : Options) : Option Options :=
  if argument = "--input" then some { options with input := value }
  else if argument = "--output" then some { options with output := value }
  else if argument = "--export" then some { options with exportTo := value }
  else if argument = "--log-level" then some { options with logLevel := value }
  else if argument = "--log-file" then some { options with logFile := value }
  else none

/-- Whether an argument looks like an option. -/
def startsWithDash (argument : String) : Bool :=
  argument.toList.head? = some '-'

/-- The effect of an argument that is no known option. -/
def setPositional
    (argument : String)
    (options : Options) :
    Except UsageFault Options :=
  if startsWithDash argument then .error (.unknownOption argument)
  else if options.command = "" then .ok { options with command := argument }
  else if options.pipeline = "" then .ok { options with pipeline := argument }
  else .error (.unexpectedArgument argument)

/-- The effect of the arguments on the options read so far. -/
def parseFrom (options : Options) : List String → Except UsageFault Options
  | [] => .ok options
  | argument :: rest =>
      if asksForHelp argument then .ok { options with help := true }
      else
        match setFlag? argument options with
        | some options => parseFrom options rest
        | none =>
            match rest with
            | [] => setPositional argument options
            | value :: others =>
                match setValue? argument value options with
                | some options => parseFrom options others
                | none =>
                    match setPositional argument options with
                    | .error fault => .error fault
                    | .ok options => parseFrom options (value :: others)

/-- **The options that arguments ask for.** -/
def parse (arguments : List String) : Except UsageFault Options :=
  parseFrom {} arguments

/-- The commands. -/
def commands : List String :=
  ["run", "validate", "levels", "dag", "export"]

/-- The severities that can be asked for. -/
def logLevels : List String :=
  ["DEBUG", "INFO", "WARN", "ERROR"]

/-- Refuses options that do not make up a command. -/
def check (options : Options) : Except UsageFault Unit :=
  if !commands.contains options.command then .error (.unknownCommand options.command)
  else if options.pipeline = "" then .error .missingPipeline
  else if options.logLevel ≠ "" && !logLevels.contains options.logLevel then
    .error (.badLogLevel options.logLevel)
  else .ok ()

end Options

end CommandLine

end PhaseFlow
