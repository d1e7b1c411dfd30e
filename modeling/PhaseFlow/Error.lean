import PhaseFlow.Json.Access
import PhaseFlow.Json.Reader
import PhaseFlow.Json.Writer
import PhaseFlow.Text

/-!
# Errors

Every error but those of the JSON library has an operation label, a detail and a
message. The message is the label, a colon and the detail, and it ends before the first
NUL character; label and detail are kept whole, so that an error which quotes another
one quotes its full detail.

* `ConfigurationFault`: settings, executors, callbacks and jobs that are used wrongly.
* `DefinitionFault`: pipeline definitions that cannot be read.
* `DocumentFault`: graph documents that cannot be read.
* `JsonFault`: what the JSON library raises by itself, with words of its own and no
  label.
* `Error`: these four, and the errors about nodes, edges, jobs, cycles and failed
  phases.
-/

namespace PhaseFlow

/-! ## Configuration -/

/-- What is wrong with a setting, an executor, a callback or a request about a job. -/
inductive ConfigurationFault where
  | executorWithoutFunction (name : String)
  | executorWithoutName
  | registrationWithoutFunction (name : String)
  | executorTaken (name : String)
  | unknownExecutor (name : String) (available : List String)
  | constantWithoutValue (node : String)
  | unknownStatus (text : String)
  | unknownBackpressure (text : String)
  | streamSettingsNotObject
  | badBufferSize
  | backpressureNotText
  | multiplexNotBoolean
  | emptyNodeId
  | nodeConfigNotObject (id : String)
  | edgeConfigNotObject
  | badStream
  | orderLength (listed : Nat) (present : Nat)
  | listedTwice (id : String)
  | precedesPredecessor (id : String) (predecessor : String)
  | negativeSetting (key : String)
  | settingText (key : String) (text : String)
  | settingNotNumber (key : String)
  | reservedNode (id : String)
  | emptyCallback
  | batchExecutorNotText (phase : String)
  | emptyJobName
  | jobRunning (name : String)
  | jobReplacedByItself (name : String)
  | jobStartedConcurrently (name : String)
  | jobRestartedByItself (name : String)
  | intervalNotPositive
  | thresholdZero
  | alreadyWatched (name : String)
  | reported (operation : String) (detail : String)
  deriving DecidableEq

namespace ConfigurationFault

/-- The operation that meets the fault. -/
def operation : ConfigurationFault → String
  | executorWithoutFunction _ => "executor"
  | executorWithoutName | registrationWithoutFunction _ | executorTaken _ =>
      "register-executor"
  | unknownExecutor _ _ => "resolve-executor"
  | constantWithoutValue _ => "constant-executor"
  | unknownStatus _ => "node-status"
  | unknownBackpressure _ | streamSettingsNotObject | badBufferSize | backpressureNotText
  | multiplexNotBoolean => "edge-config"
  | emptyNodeId | nodeConfigNotObject _ => "add-node"
  | edgeConfigNotObject | badStream => "add-edge"
  | orderLength _ _ | listedTwice _ | precedesPredecessor _ _ => "compute-execution-levels"
  | negativeSetting _ | settingText _ _ | settingNotNumber _ => "retry-policy"
  | reservedNode _ => "run-pipeline"
  | emptyCallback => "register-state-callback"
  | batchExecutorNotText _ => "batch"
  | emptyJobName | jobRunning _ | jobReplacedByItself _ => "run-job"
  | jobStartedConcurrently _ | jobRestartedByItself _ => "restart-job"
  | intervalNotPositive | thresholdZero | alreadyWatched _ => "watch-job"
  | reported operation _ => operation

/-- The wording of the fault. -/
def detail : ConfigurationFault → String
  | executorWithoutFunction name =>
      "custom executor " ++ Text.inQuotes name ++ " has no function"
  | executorWithoutName => "executor name cannot be empty"
  | registrationWithoutFunction name =>
      "executor " ++ Text.inQuotes name ++ " has no function"
  | executorTaken name => "executor already registered: " ++ name
  | unknownExecutor name available =>
      "unknown executor: " ++ name ++ ". Available executors: " ++ Text.join ", " available
  | constantWithoutValue node => "phase " ++ Text.inQuotes node ++ " requires config.value"
  | unknownStatus text => "unknown node status: " ++ text
  | unknownBackpressure text =>
      "unknown backpressure policy: " ++ text ++ " (expected drop_oldest, block or throttle)"
  | streamSettingsNotObject => "edge configuration must be an object"
  | badBufferSize => "buffer_size must be a non-negative integer"
  | backpressureNotText => "backpressure must be a string"
  | multiplexNotBoolean => "multiplex must be a boolean"
  | emptyNodeId => "node id cannot be empty"
  | nodeConfigNotObject id =>
      "configuration of node " ++ Text.inQuotes id ++ " must be an object"
  | edgeConfigNotObject => "edge configuration must be an object"
  | badStream => "stream must be a non-empty string"
  | orderLength listed present =>
      "order lists " ++ Text.ofNat listed ++ " node(s) but graph has " ++ Text.ofNat present
  | listedTwice id => "node listed twice: " ++ id
  | precedesPredecessor id predecessor =>
      "node " ++ Text.inQuotes id ++ " precedes its predecessor " ++ Text.inQuotes
        predecessor
  | negativeSetting key => key ++ " cannot be negative"
  | settingText key text =>
      key ++ " must be a non-negative integer, got " ++ Text.inQuotes text
  | settingNotNumber key => key ++ " must be a number"
  | reservedNode id => "node id " ++ Text.inQuotes id ++ " is reserved"
  | emptyCallback => "callback cannot be empty"
  | batchExecutorNotText phase =>
      "executor of phase " ++ Text.inQuotes phase ++ " must be a string"
  | emptyJobName => "job name cannot be empty"
  | jobRunning name => "job " ++ Text.inQuotes name ++ " is already running"
  | jobReplacedByItself name =>
      "job " ++ Text.inQuotes name ++ " cannot be replaced from its own worker"
  | jobStartedConcurrently name =>
      "job " ++ Text.inQuotes name ++ " was started again concurrently"
  | jobRestartedByItself name =>
      "job " ++ Text.inQuotes name ++ " cannot be restarted from its own worker"
  | intervalNotPositive => "interval must be positive"
  | thresholdZero => "failure_threshold must be at least 1"
  | alreadyWatched name => "job " ++ Text.inQuotes name ++ " is already watched"
  | reported _ detail => detail

end ConfigurationFault

/-! ## Definitions -/

/-- What is wrong with a pipeline definition or with a file that a command names. -/
inductive DefinitionFault where
  | unreadableFile (path : String)
  | unreadableInput (path : String)
  | inputNotJson (path : String)
  | unwritableOutput (path : String)
  | notJson
  | wrongKind (cause : Json.AccessError)
  | notObject
  | missingPhases
  | phasesNotArray
  | phaseWithoutName
  | phaseConfigNotObject (phase : String)
  | dependenciesNotArray (phase : String)
  | edgeWithoutEnds
  | badLevel (text : String)
  | badExecution (cause : ConfigurationFault)
  | noPhases
  | emptyPhaseName
  | duplicatePhase (name : String)
  | unknownDependency (phase : String) (dependency : String)
  | unknownSource (id : String)
  | unknownTarget (id : String)
  deriving DecidableEq

/-- The wording of a fault of a definition. -/
def DefinitionFault.detail : DefinitionFault → String
  | unreadableFile path => "Failed to open config file: " ++ path
  | unreadableInput path => "Failed to open input file: " ++ path
  | inputNotJson path =>
      "Input file " ++ Text.inQuotes path ++ " is not valid JSON: " ++ Json.malformedText
  | unwritableOutput path => "Failed to open output file: " ++ path
  | notJson => "JSON parse error: " ++ Json.malformedText
  | wrongKind cause => "JSON type error: " ++ cause.message
  | notObject => "Pipeline definition must be a JSON object"
  | missingPhases => "Missing required field: phases"
  | phasesNotArray => "Field 'phases' must be an array"
  | phaseWithoutName => "Phase missing required field: name"
  | phaseConfigNotObject phase =>
      "Phase " ++ Text.inQuotes phase ++ " config must be an object"
  | dependenciesNotArray phase =>
      "Phase " ++ Text.inQuotes phase ++ " dependencies must be an array of strings"
  | edgeWithoutEnds => "Edge missing required field: source/target"
  | badLevel text => "Invalid logging level: " ++ text
  | badExecution cause => "Invalid execution settings: " ++ cause.detail
  | noPhases => "Pipeline must contain at least one phase"
  | emptyPhaseName => "Phase name cannot be empty"
  | duplicatePhase name => "Duplicate phase name: " ++ name
  | unknownDependency phase dependency =>
      "Phase " ++ Text.inQuotes phase ++ " depends on unknown phase: " ++ dependency
  | unknownSource id => "Edge source is not a phase: " ++ id
  | unknownTarget id => "Edge target is not a phase: " ++ id

/-! ## Documents -/

/-- What is wrong with a graph document. -/
inductive DocumentFault where
  | notJson
  | notObject
  | unsupportedFormat (format : Json)
  | malformed (cause : Json.AccessError)
  | nodeConfigNotObject (id : String)
  | badNode (id : String) (cause : ConfigurationFault)
  | badEdge (source : String) (target : String) (cause : ConfigurationFault)
  | duplicateNode (id : String)
  | danglingEdge (id : String)
  | refused (cause : ConfigurationFault)

/-- The wording of a node id that occurs twice. -/
def duplicateNodeDetail (id : String) : String :=
  "duplicate node id " ++ Text.inQuotes id

/-- The wording of a node id that is unknown. -/
def unknownNodeDetail (id : String) : String :=
  "unknown node " ++ Text.inQuotes id

/-- The wording of a fault of a document. -/
def DocumentFault.detail : DocumentFault → String
  | notJson => "JSON parse error: " ++ Json.malformedText
  | notObject => "document must be a JSON object"
  | unsupportedFormat format => "unsupported format: " ++ format.compact
  | malformed cause => "malformed document: " ++ cause.message
  | nodeConfigNotObject id => "config of node " ++ Text.inQuotes id ++ " must be an object"
  | badNode id cause => "node " ++ Text.inQuotes id ++ ": " ++ cause.detail
  | badEdge source target cause =>
      "edge " ++ source ++ "->" ++ target ++ ": " ++ cause.detail
  | duplicateNode id => duplicateNodeDetail id
  | danglingEdge id => "edge references " ++ unknownNodeDetail id
  | refused cause => cause.detail

/-! ## The JSON library -/

/-- What the JSON library raises and nobody translates: a number is out of range, or a
value is not written, for which the library has words of its own. -/
inductive JsonFault where
  | numberOutOfRange
  | unwritable (words : String)
  deriving DecidableEq

/-- The words of the library. -/
def JsonFault.words : JsonFault → String
  | numberOutOfRange => Json.outOfRangeText
  | unwritable words => words

/-! ## All errors -/

/-- Why an operation was refused or a run was aborted. A cycle lists the nodes that
could not be placed. -/
inductive Error where
  | duplicateNode (id : String)
  | unknownNode (operation : String) (id : String)
  | unknownEdge (id : String)
  | unknownJob (operation : String) (name : String)
  | cycle (remaining : List String)
  | phaseFailed (phase : String) (lastError : String) (attempts : Nat)
  | configuration (fault : ConfigurationFault)
  | definition (fault : DefinitionFault)
  | document (fault : DocumentFault)
  | json (fault : JsonFault)

namespace Error

/-- The error of a text that is not read; only a text that is malformed is reported as
such. -/
def ofReadFault (malformed : Error) : Json.ReadFault → Error
  | .malformed => malformed
  | .outOfRange => .json .numberOutOfRange

/-- The operation that raised the error; what the JSON library raises belongs to
none. -/
def operation : Error → String
  | duplicateNode _ => "add-node"
  | unknownNode operation _ => operation
  | unknownEdge _ => "get-edge"
  | unknownJob operation _ => operation
  | cycle _ => "topo-sort"
  | phaseFailed _ _ _ => "execute-phase"
  | configuration fault => fault.operation
  | definition _ => "parse-config"
  | document _ => "import"
  | json _ => ""

/-- The wording of the error. -/
def detail : Error → String
  | duplicateNode id => duplicateNodeDetail id
  | unknownNode _ id => unknownNodeDetail id
  | unknownEdge id => "unknown edge " ++ Text.inQuotes id
  | unknownJob _ name => "unknown job " ++ Text.inQuotes name
  | cycle remaining =>
      "cycle detected, nodes not in execution order:" ++
        String.join (remaining.map fun id => " " ++ id)
  | phaseFailed phase lastError attempts =>
      "phase " ++ Text.inQuotes phase ++ " failed after " ++ Text.ofNat attempts ++
        " attempt(s): " ++ lastError
  | configuration fault => fault.detail
  | definition fault => fault.detail
  | document fault => fault.detail
  | json fault => fault.words

/-- The full message of the error. -/
def message : Error → String
  | json fault => Text.beforeNul fault.words
  | error => Text.beforeNul (error.operation ++ ": " ++ error.detail)

end Error

/-- What an operation answers. -/
abbrev Result (α : Type) :=
  Except Error α

/-- The refusal for a configuration fault. -/
def refuse {α : Type} (fault : ConfigurationFault) : Result α :=
  .error (.configuration fault)

end PhaseFlow
