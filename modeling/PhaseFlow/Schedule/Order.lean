import PhaseFlow.Graph.Adjacency

/-!
# Execution order

The order places every node after the nodes that feed it, and among the nodes that could
be placed next it takes the one with the smallest id. For each node the number of edges
from nodes that are not placed yet is kept; a node whose number is zero is ready.
Inactive edges count like active ones, and parallel streams count one by one.

`executionOrder` fails exactly when some nodes never become ready; the error lists them.
-/

namespace PhaseFlow

namespace Schedule

/-- How far the placing of the nodes has come. The pending number of a node is that of
the edges that end there and start at a node not placed yet; ready nodes may be placed
next. -/
structure Frontier where
  pending : KeyMap Nat
  ready : KeyMap Unit
  placed : List String

namespace Frontier

/-- The nodes without any edge to wait for. -/
def readyOf (pending : KeyMap Nat) : KeyMap Unit :=
  (pending.filter fun _ count => count = 0).map fun _ => ()

/-- Before any node is placed. -/
def initial (graph : Graph) : Frontier :=
  let zeros := graph.nodes.map fun _ => 0
  let pending := graph.edges.values.foldl
    (fun counts edge => counts.modify edge.target (· + 1)) zeros
  ⟨pending, readyOf pending, []⟩

/-- After one edge into a node has lost its waiting source. -/
def release (frontier : Frontier) (target : String) : Frontier :=
  match frontier.pending.get? target with
  | none => frontier
  | some count =>
      let pending := frontier.pending.insert target (count - 1)
      if count = 1 then { frontier with pending, ready := frontier.ready.insert target () }
      else { frontier with pending }

/-- After the smallest ready node has been placed; none when no node is ready. -/
def step (graph : Graph) (frontier : Frontier) : Option Frontier :=
  match frontier.ready.entries with
  | [] => none
  | (id, _) :: _ =>
      let start : Frontier :=
        { frontier with
          ready := frontier.ready.erase id
          placed := frontier.placed ++ [id] }
      some (((graph.outgoing id).map Edge.target).foldl release start)

/-- After at most `bound` nodes have been placed. -/
def advance (graph : Graph) : (bound : Nat) → Frontier → Frontier
  | 0, frontier => frontier
  | bound + 1, frontier =>
      match frontier.step graph with
      | some next => advance graph bound next
      | none => frontier

/-- After as many nodes as possible have been placed; each step places one. -/
def final (graph : Graph) : Frontier :=
  advance graph graph.nodes.size (initial graph)

end Frontier

/-- The nodes of a graph that a list leaves out, ascending. -/
def missing (graph : Graph) (placed : List String) : List String :=
  graph.nodes.keys.filter fun id => !placed.contains id

/-- **The execution order of a graph.** -/
def executionOrder (graph : Graph) : Result (List String) :=
  let placed := (Frontier.final graph).placed
  if placed.length = graph.nodes.size then .ok placed
  else .error (.cycle (missing graph placed))

/-- Whether a graph has an execution order. -/
def isAcyclic (graph : Graph) : Bool :=
  (executionOrder graph).isOk

/-- The order in which the nodes are stopped: readers before the nodes that feed
them. -/
def shutdownOrder (graph : Graph) : Result (List String) :=
  (executionOrder graph).map List.reverse

end Schedule

end PhaseFlow
