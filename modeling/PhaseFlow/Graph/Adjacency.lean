import PhaseFlow.Graph.Store

/-!
# Adjacency

The edges at a node, in the order of their ids, and the nodes at their other ends,
ascending and each once.
-/

namespace PhaseFlow

namespace Graph

/-- The edges that end at a node. -/
def incoming (graph : Graph) (id : String) : List Edge :=
  graph.edges.values.filter fun edge => edge.target = id

/-- The edges that start at a node. -/
def outgoing (graph : Graph) (id : String) : List Edge :=
  graph.edges.values.filter fun edge => edge.source = id

/-- The sources of the edges that end at a node. -/
def predecessors (graph : Graph) (id : String) : List String :=
  KeyMap.distinct ((graph.incoming id).map Edge.source)

/-- The targets of the edges that start at a node. -/
def successors (graph : Graph) (id : String) : List String :=
  KeyMap.distinct ((graph.outgoing id).map Edge.target)

/-- The other end of an edge at a node. -/
def otherEnd (id : String) (edge : Edge) : Option String :=
  if edge.source = id then some edge.target
  else if edge.target = id then some edge.source
  else none

/-- The nodes joined with a node in either direction. -/
def neighbors (graph : Graph) (id : String) : List String :=
  KeyMap.distinct (graph.edges.values.filterMap (otherEnd id))

end Graph

end PhaseFlow
