import PhaseFlow.Document.Export
import PhaseFlow.Executor.Registry
import PhaseFlow.Json.Reader

/-!
# Graphs from documents

Reading a document gives back the graph. Executors are looked up by name in a registry.
Fields that are absent take their defaults, the moment of reading standing for absent
moments of creation; ids of edges are not read but made anew.

A failure is a fault of the document, whichever part of it is wrong. Two things are left
to the JSON library, whose errors are passed on as they are: a number that is out of
range, and a format that is refused and cannot be written into the refusal.
-/

namespace PhaseFlow

namespace Document

/-- What reading a part of a document answers. -/
abbrev Reading (α : Type) :=
  Except DocumentFault α

/-- A field that could not be read makes the document malformed. -/
def access {α : Type} (value : Except Json.AccessError α) : Reading α :=
  value.mapError .malformed

/-- The moment in a field, if the field is there. -/
def instantField
    (value : Json)
    (key : String)
    (fallback : Instant) :
    Reading Instant :=
  match value.field? key with
  | none => .ok fallback
  | some found => (access found.asSignedWord).map Instant.ofMilliseconds

/-- The moment in a field that may be null. -/
def optionalInstant (value : Json) (key : String) : Reading (Option Instant) :=
  match value.field? key with
  | none => .ok none
  | some .null => .ok none
  | some found => (access found.asSignedWord).map fun moment => some (.ofMilliseconds moment)

/-- The node that an entry describes. -/
def toNode (registry : Registry) (now : Instant) (entry : Json) : Reading Node := do
  let id ← access (entry.field "id" Json.asText)
  let phase ← access (entry.fieldOr "phase" "" Json.asText)
  let config ← access (entry.fieldOr "config" .emptyObject Json.asAny)
  if !config.isObject then .error (.nodeConfigNotObject id)
  let name ← access (entry.fieldOr "executor" Capability.passThroughName Json.asText)
  let executor ← (registry.resolve name).mapError (.badNode id)
  let statusName ← access (entry.fieldOr "status" "idle" Json.asText)
  let status ← (NodeStatus.ofName statusName).mapError (.badNode id)
  let createdAt ← instantField entry "created_at" now
  let lastRun ← optionalInstant entry "last_run"
  let runCount ← access (entry.fieldOr "run_count" 0 Json.asWord)
  let errorCount ← access (entry.fieldOr "error_count" 0 Json.asWord)
  .ok { id, phase, config, executor, status, createdAt, lastRun, runCount, errorCount }

/-- The edge that an entry describes; its id is made when it is put into a graph. -/
def toEdge (now : Instant) (entry : Json) : Reading Edge := do
  let source ← access (entry.field "source" Json.asText)
  let target ← access (entry.field "target" Json.asText)
  let stream ← access (entry.fieldOr "stream" Edge.defaultStream Json.asText)
  let config ← access (entry.fieldOr "config" .emptyObject Json.asAny)
  let settings ← (StreamSettings.ofJson config).mapError (.badEdge source target)
  let active ← access (entry.fieldOr "active" true Json.asBool)
  let messages ← access (entry.fieldOr "messages_passed" 0 Json.asWord)
  let bytes ← access (entry.fieldOr "bytes_transferred" 0 Json.asWord)
  let createdAt ← instantField entry "created_at" now
  .ok { id := "", source, target, stream, settings, active, messages, bytes, createdAt }

/-- The metadata of a document. -/
def toMetadata (now : Instant) (document : Json) : Reading Metadata :=
  match document.field? "metadata" with
  | none => .ok ⟨"", Metadata.defaultVersion, now⟩
  | some entry => do
      let name ← access (entry.fieldOr "name" "" Json.asText)
      let version ← access (entry.fieldOr "version" Metadata.defaultVersion Json.asText)
      let createdAt ← instantField entry "created_at" now
      .ok ⟨name, version, createdAt⟩

/-- The state of the latest run of a document. -/
def toState (document : Json) : Reading RunState :=
  match document.field? "state" with
  | none => .ok {}
  | some entry => do
      let running ← access (entry.fieldOr "running" false Json.asBool)
      let currentPhase ← access (entry.fieldOr "current_phase" "" Json.asText)
      let executionOrder ← access (entry.fieldOr "execution_order" [] Json.asTexts)
      let lastError ← access (entry.fieldOr "last_error" "" Json.asText)
      .ok { running, currentPhase, executionOrder, lastError }

/-- The fault of a document whose entry a graph refuses. -/
def faultOf : Error → DocumentFault
  | .duplicateNode id => .duplicateNode id
  | .unknownNode _ id => .danglingEdge id
  | .configuration fault => .refused fault
  | error => .refused (.reported error.operation error.detail)

/-- The graph with the node of an entry. -/
def addNode
    (registry : Registry)
    (now : Instant)
    (graph : Graph)
    (entry : Json) :
    Reading Graph := do
  let node ← toNode registry now entry
  (graph.insertNode node).mapError faultOf

/-- The graph with the edge of an entry. -/
def addEdge (now : Instant) (graph : Graph) (entry : Json) : Reading Graph := do
  let edge ← toEdge now entry
  ((graph.insertEdge edge).mapError faultOf).map Prod.fst

/-- The entries of a list of a document. -/
def entriesOf (document : Json) (key : String) : List Json :=
  ((document.field? key).map Json.elements).getD []

/-- Refuses a document that names another format. -/
def checkFormat (document : Json) : Reading Unit :=
  match document.field? "format" with
  | none => .ok ()
  | some value => if value.isText format then .ok () else .error (.unsupportedFormat value)

/-- The graph of a document, or the fault of the document. -/
def toGraph?
    (registry : Registry)
    (freshId : String)
    (now : Instant)
    (document : Json) :
    Reading Graph := do
  if !document.isObject then .error .notObject
  checkFormat document
  let metadata ← toMetadata now document
  let id ← access (document.fieldOr "id" freshId Json.asText)
  let state ← toState document
  let empty := { Graph.restore freshId id metadata with state := state }
  let nodes ← (entriesOf document "nodes").foldlM (addNode registry now) empty
  (entriesOf document "edges").foldlM (addEdge now) nodes

/-- What the JSON library objects to when the format of a document is to be shown,
because it is another one. -/
def formatObjection (writer : Json.Writer) (document : Json) : Option String :=
  ((document.field? "format").filter fun value => !value.isText format).bind writer.objection

/-- **The graph of a document.** -/
def toGraph
    (registry : Registry)
    (freshId : String)
    (now : Instant)
    (document : Json)
    (writer : Json.Writer := {}) :
    Result Graph :=
  match formatObjection writer document with
  | some words => .error (.json (.unwritable words))
  | none => (toGraph? registry freshId now document).mapError .document

theorem toGraph_of_formatObjection
    {registry : Registry} {freshId : String} {now : Instant} {document : Json}
    {writer : Json.Writer}
    (h : formatObjection writer document = none) :
    toGraph registry freshId now document writer =
      (toGraph? registry freshId now document).mapError .document := by
  rw [toGraph, h]

/-- A library that writes every value has nothing to object to. -/
@[simp] theorem formatObjection_default
    (document : Json) :
    formatObjection {} document = none := by
  unfold formatObjection
  cases (document.field? "format").filter fun value => !value.isText format <;> rfl

/-- The graph of the document that a byte string writes. -/
def graphOfBytes
    (registry : Registry)
    (freshId : String)
    (now : Instant)
    (bytes : ByteArray)
    (nulEnds : Bool := false)
    (writer : Json.Writer := {}) :
    Result Graph := do
  let document ← (Json.parse nulEnds bytes).mapError (.ofReadFault (.document .notJson))
  toGraph registry freshId now document writer

/-- The graph of the document that a text writes. -/
def graphOfText
    (registry : Registry)
    (freshId : String)
    (now : Instant)
    (text : String)
    (nulEnds : Bool := false)
    (writer : Json.Writer := {}) :
    Result Graph :=
  graphOfBytes registry freshId now text.toUTF8 nulEnds writer

end Document

end PhaseFlow
