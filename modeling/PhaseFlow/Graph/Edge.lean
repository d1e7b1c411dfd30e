import PhaseFlow.Error
import PhaseFlow.Time.Instant

/-!
# Edges

An edge is a named stream from one node to another, with declared stream settings and
counters of what has passed. Its id is made of source, target and stream.
-/

namespace PhaseFlow

/-- What a stream does when its buffer is full: it drops the oldest message, it blocks
its source, or it slows its source down. -/
inductive Backpressure where
  | dropOldest
  | block
  | throttle
  deriving DecidableEq

namespace Backpressure

instance : Inhabited Backpressure :=
  ⟨dropOldest⟩

/-- The name of a policy. -/
def name : Backpressure → String
  | dropOldest => "drop_oldest"
  | block => "block"
  | throttle => "throttle"

/-- The policy of a name. -/
def ofName (name : String) : Except ConfigurationFault Backpressure :=
  if name = "drop_oldest" then .ok dropOldest
  else if name = "block" then .ok block
  else if name = "throttle" then .ok throttle
  else .error (.unknownBackpressure name)

@[simp] theorem ofName_name
    (policy : Backpressure) :
    ofName policy.name = .ok policy := by
  cases policy <;> rfl

end Backpressure

/-- The declared settings of a stream: the size of its buffer in messages, what it does
when the buffer is full, and whether it is shared with other consumers. -/
structure StreamSettings where
  bufferSize : UInt64 := 1024
  backpressure : Backpressure := .dropOldest
  multiplex : Bool := false
  deriving DecidableEq

namespace StreamSettings

instance : Inhabited StreamSettings :=
  ⟨{}⟩

/-- The buffer size of a configuration. -/
def bufferSizeOf (config : Json) : Except ConfigurationFault UInt64 :=
  match config.field? "buffer_size" with
  | none => .ok 1024
  | some (.int n) => if n < 0 then .error .badBufferSize else .ok (UInt64.ofNat n.toNat)
  | some _ => .error .badBufferSize

/-- The backpressure policy of a configuration. -/
def backpressureOf (config : Json) : Except ConfigurationFault Backpressure :=
  match config.field? "backpressure" with
  | none => .ok .dropOldest
  | some (.str text) => Backpressure.ofName text
  | some _ => .error .backpressureNotText

/-- The multiplex flag of a configuration. -/
def multiplexOf (config : Json) : Except ConfigurationFault Bool :=
  match config.field? "multiplex" with
  | none => .ok false
  | some (.bool value) => .ok value
  | some _ => .error .multiplexNotBoolean

/-- The settings of a configuration, defaults standing for absent fields. -/
def ofJson (config : Json) : Except ConfigurationFault StreamSettings :=
  match config with
  | .null => .ok {}
  | .obj _ => do
      let bufferSize ← bufferSizeOf config
      let backpressure ← backpressureOf config
      let multiplex ← multiplexOf config
      .ok ⟨bufferSize, backpressure, multiplex⟩
  | _ => .error .streamSettingsNotObject

/-- The settings as a configuration. -/
def toJson (settings : StreamSettings) : Json :=
  .object [("buffer_size", .int settings.bufferSize.toNat),
    ("backpressure", .str settings.backpressure.name),
      ("multiplex", .bool settings.multiplex)]

end StreamSettings

/-- A named stream between two nodes; data flows through active ones. The messages
passed and their bytes are counted modulo `2 ^ 64`. -/
structure Edge where
  id : String
  source : String
  target : String
  stream : String
  settings : StreamSettings
  active : Bool
  messages : UInt64
  bytes : UInt64
  createdAt : Instant

namespace Edge

/-- The stream of an edge that names none. -/
def defaultStream : String :=
  "data"

/-- The id of the edge with given ends and stream. -/
def idOf (source target stream : String) : String :=
  source ++ "->" ++ target ++ ":" ++ stream

/-- An edge through which nothing has passed. -/
def fresh
    (source target stream : String)
    (settings : StreamSettings)
    (now : Instant) :
    Edge :=
  { id := idOf source target stream
    source, target, stream, settings
    active := true
    messages := 0
    bytes := 0
    createdAt := now }

/-- The edge under its proper id; an empty stream name stands for the default stream. -/
def normalized (edge : Edge) : Edge :=
  let stream := if edge.stream = "" then defaultStream else edge.stream
  { edge with
    stream := stream
    id := idOf edge.source edge.target stream }

/-- The edge with its counters at zero. -/
def reset (edge : Edge) : Edge :=
  { edge with
    messages := 0
    bytes := 0 }

/-- The edge after one more message. -/
def passed (edge : Edge) (size : Nat) : Edge :=
  { edge with
    messages := edge.messages + 1
    bytes := edge.bytes + UInt64.ofNat size }

/-- Whether the edge starts or ends at a node. -/
def touches (edge : Edge) (id : String) : Bool :=
  edge.source = id || edge.target = id

end Edge

end PhaseFlow
