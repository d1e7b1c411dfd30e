import PhaseFlow.Graph.Adjacency

/-!
# Execution levels

The level of a node is zero if no edge ends at it, and otherwise one more than the
greatest level of the nodes that feed it. The nodes of a level have no edges among
themselves, so they can be executed together.

`levels` computes the levels along a given order, and refuses an order that does not
list exactly the nodes of the graph or lists a node before one that feeds it.
-/

namespace PhaseFlow

namespace Schedule

/-- The levels of the nodes visited so far. -/
abbrev Heights :=
  KeyMap Nat

/-- The height of a node above its predecessors, all of which must have been visited. -/
def heightAbove
    (heights : Heights)
    (id : String) :
    List String → Except ConfigurationFault Nat
  | [] => .ok 0
  | predecessor :: rest =>
      match heights.get? predecessor with
      | none => .error (.precedesPredecessor id predecessor)
      | some height => (heightAbove heights id rest).map (max (height + 1))

/-- The heights after one more node has been visited. -/
def visit (graph : Graph) (heights : Heights) (id : String) : Result Heights :=
  if !graph.hasNode id then .error (.unknownNode "compute-execution-levels" id)
  else if heights.contains id then refuse (.listedTwice id)
  else
    match heightAbove heights id (graph.predecessors id) with
    | .error fault => refuse fault
    | .ok height => .ok (heights.insert id height)

/-- The heights along an order. -/
def heightsAlong (graph : Graph) : Heights → List String → Result Heights
  | heights, [] => .ok heights
  | heights, id :: rest =>
      match visit graph heights id with
      | .error error => .error error
      | .ok heights => heightsAlong graph heights rest

/-- The nodes of an order grouped by height, each group keeping the order. -/
def groupByHeight
    (heights : Heights)
    (order : List String) :
    List (List String) :=
  let count := heights.values.foldl (fun count height => max count (height + 1)) 0
  (List.range count).map fun index => order.filter fun id => heights.getD id 0 = index

/-- **The levels of a graph along an order of its nodes.** -/
def levels (graph : Graph) (order : List String) : Result (List (List String)) :=
  if order.length ≠ graph.nodes.size then
    refuse (.orderLength order.length graph.nodes.size)
  else (heightsAlong graph KeyMap.empty order).map fun heights => groupByHeight heights order

/-- Every node in a level of its own. -/
def sequentialLevels (order : List String) : List (List String) :=
  order.map fun id => [id]

end Schedule

end PhaseFlow
