import PhaseFlow.Graph.Adjacency

/-!
# Inputs of phases

During a run the outputs of the phases are kept by node id, and the initial input under
a reserved key. A phase reads along its active incoming edges.

* Without such an edge it reads the initial input, or an empty object if there is none.
* With one it reads the output of that source, or an empty object if there is none.
* With several it reads an object with one field for each source that has an output. The
  field is named for the stream, and for stream and source if several of these edges
  share the stream.
-/

namespace PhaseFlow

namespace Run

/-- The key of the initial input. -/
def inputKey : String :=
  "__input__"

/-- The outputs so far, and the initial input. -/
abbrev DataFlow :=
  KeyMap Json

/-- The active edges that end at a node. -/
def activeIncoming (graph : Graph) (id : String) : List Edge :=
  (graph.incoming id).filter Edge.active

/-- The field that an edge fills among other edges into the same node. -/
def fieldName (edges : List Edge) (edge : Edge) : String :=
  if 1 < edges.countP fun other => other.stream = edge.stream then
    edge.stream ++ "@" ++ edge.source
  else edge.stream

/-- The object of the outputs that arrive along several edges. -/
def mergedInput (flow : DataFlow) (edges : List Edge) : Json :=
  let contributing := edges.filter fun edge => flow.contains edge.source
  .object (contributing.map fun edge =>
    (fieldName contributing edge, flow.getD edge.source .null))

/-- **The input of a node.** -/
def assembleInput (graph : Graph) (flow : DataFlow) (id : String) : Json :=
  match activeIncoming graph id with
  | [] => flow.getD inputKey .emptyObject
  | [edge] => flow.getD edge.source .emptyObject
  | edges => mergedInput flow edges

end Run

end PhaseFlow
