import PhaseFlow.Json.Writer
import PhaseFlow.KeyMap
import PhaseFlow.Log.Level

/-!
# Log events

Each event has a severity, a message and named fields, which are listed in ascending
order of their names. Field values are byte strings, because a preview is cut after a
number of bytes and may end inside a character.

`Event.fields` gives the fields of an event; `Event.level` and `Event.message` the rest.
-/

namespace PhaseFlow

namespace Log

/-- What an event is about. The graph is empty outside of a graph, and the number of the
attempt is zero where attempts do not apply. -/
structure Subject where
  graphId : String := ""
  nodeId : String := ""
  phase : String := ""
  attempt : Nat := 0

/-- Something that is logged. -/
inductive Event where
  | pipelineStart
      (graphId : String)
      (name : String)
      (nodes : Nat)
      (levels : Nat)
      (parallel : Bool)
  | levelDispatch
      (graphId : String)
      (index : Nat)
      (nodes : List String)
      (parallel : Bool)
  | phaseStart (subject : Subject) (inputBytes : Nat) (level : Level)
  | phaseRetry (subject : Subject) (text : String) (delay : Nat)
  | phaseComplete
      (subject : Subject)
      (attempts : Nat)
      (duration : Binary64)
      (outputBytes : Nat)
      (level : Level)
  | pipelineComplete
      (graphId : String)
      (status : String)
      (completed : Nat)
      (failed : Nat)
      (elapsed : Binary64)
  | error (subject : Subject) (text : String) (operation : String)
  | warning (subject : Subject) (text : String)
  | transition (subject : Subject) (before : String) (after : String)
  | job (name : String) (happening : String) (detail : String)
  | healthCheck (name : String) (healthy : Bool) (failures : Nat) (detail : String)
  | preview (subject : Subject) (label : String) (data : Json)

/-- The fields of an event, by name. -/
abbrev Fields :=
  KeyMap (List UInt8)

/-- The fields with given texts. -/
def Fields.ofTexts (entries : List (String × String)) : Fields :=
  KeyMap.ofList (entries.map fun entry => (entry.1, Text.utf8 entry.2))

/-- A truth value as a text. -/
def flag (value : Bool) : String :=
  if value then "true" else "false"

/-- A field that is left out when its text is empty. -/
def optional (name : String) (text : String) : List (String × String) :=
  if text = "" then [] else [(name, text)]

/-- The fields that say what an event is about. -/
def Subject.entries (subject : Subject) : List (String × String) :=
  [("node_id", subject.nodeId), ("phase", subject.phase)] ++
    optional "graph_id" subject.graphId ++
    (if subject.attempt = 0 then [] else [("attempt", Text.ofNat subject.attempt)])

namespace Event

/-- The severity of an event. -/
def level : Event → Level
  | pipelineStart .. => .info
  | levelDispatch .. => .debug
  | phaseStart _ _ level => level
  | phaseRetry .. => .warn
  | phaseComplete _ _ _ _ level => level
  | pipelineComplete _ _ _ failed _ => if failed = 0 then .info else .warn
  | error .. => .error
  | warning .. => .warn
  | transition .. => .debug
  | job .. => .info
  | healthCheck _ healthy _ _ => if healthy then .debug else .warn
  | preview .. => .debug

/-- The message of an event. -/
def message : Event → String
  | pipelineStart .. => "Starting pipeline"
  | levelDispatch .. => "Dispatching level"
  | phaseStart .. => "Starting phase"
  | phaseRetry .. => "Phase attempt failed, retrying"
  | phaseComplete .. => "Phase completed"
  | pipelineComplete .. => "Pipeline finished"
  | error .. => "Phase error"
  | warning _ text => text
  | transition .. => "State transition"
  | job _ happening _ => "Job " ++ happening
  | healthCheck .. => "Health check"
  | preview .. => "Data preview"

/-- The fields of a preview of at most `limit` bytes. -/
def previewFields
    (limit : Nat)
    (subject : Subject)
    (label : String)
    (data : Json) :
    Fields :=
  let bytes := Text.utf8 data.compact
  let fields := (Fields.ofTexts ([("event", "data_preview"), ("label", label),
    ("size", Text.ofNat bytes.length)] ++ subject.entries)).insert "preview"
      (bytes.take limit)
  if limit < bytes.length then fields.insert "truncated" (Text.utf8 "true") else fields

/-- The fields of an event, previews being cut after `limit` bytes. -/
def fields (limit : Nat) : Event → Fields
  | pipelineStart graphId name nodes levels parallel => .ofTexts
      [("event", "pipeline_start"), ("graph_id", graphId), ("graph_name", name),
        ("node_count", Text.ofNat nodes), ("level_count", Text.ofNat levels),
        ("mode", if parallel then "parallel" else "sequential")]
  | levelDispatch graphId index nodes parallel => .ofTexts
      [("event", "level_dispatch"), ("graph_id", graphId), ("level", Text.ofNat index),
        ("node_count", Text.ofNat nodes.length),
        ("concurrent", flag (parallel && 1 < nodes.length)),
          ("nodes", Text.joinShown "," nodes)]
  | phaseStart subject inputBytes _ => .ofTexts
      ([("event", "phase_start"), ("input_bytes", Text.ofNat inputBytes)] ++ subject.entries)
  | phaseRetry subject text delay => .ofTexts
      ([("event", "phase_retry"), ("error_message", text), ("delay_ms", Text.ofNat delay)] ++
        subject.entries)
  | phaseComplete subject attempts duration outputBytes _ => .ofTexts
      ([("event", "phase_complete"), ("attempts", Text.ofNat attempts),
        ("duration_ms", duration.fixed 6), ("output_bytes", Text.ofNat outputBytes)] ++
        subject.entries)
  | pipelineComplete graphId status completed failed elapsed => .ofTexts
      [("event", "pipeline_complete"), ("graph_id", graphId), ("status", status),
        ("completed", Text.ofNat completed), ("failed", Text.ofNat failed),
        ("total_time_ms", elapsed.fixed 6)]
  | error subject text operation => .ofTexts
      ([("event", "error"), ("error_message", text)] ++ optional "operation" operation ++
        subject.entries)
  | warning subject text => .ofTexts
      ([("event", "warning"), ("warning", text)] ++ subject.entries)
  | transition subject before after => .ofTexts
      ([("event", "state_transition"), ("old_state", before), ("new_state", after)] ++
        subject.entries)
  | job name happening detail => .ofTexts
      ([("event", "job_" ++ happening), ("job", name)] ++ optional "detail" detail)
  | healthCheck name healthy failures detail => .ofTexts
      ([("event", "health_check"), ("job", name), ("healthy", flag healthy),
        ("consecutive_failures", Text.ofNat failures)] ++ optional "detail" detail)
  | preview subject label data => previewFields limit subject label data

end Event

end Log

end PhaseFlow
