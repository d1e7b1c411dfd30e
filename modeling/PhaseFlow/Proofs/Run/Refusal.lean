import PhaseFlow.Proofs.Graph.InPlace
import PhaseFlow.Proofs.Run.Ending

/-!
# What is refused changes nothing

A graph can refuse an operation, and a run can refuse a graph. Operations check
everything before they write (`Graph.on_perform`), and a run looks for the reserved id
and for an order before it touches a node. So a refused operation and a run that is
refused for the reserved id leave the graph exactly as it was; a run that finds a cycle
leaves its message behind, and nothing else.

Main statement: `refusals_change_nothing`.
-/

namespace PhaseFlow

/-- What a refused operation leaves. -/
theorem Graph.left_of_on_perform
    {graph left : Graph} {operation : Graph.Operation} {error : Error}
    (h : operation.perform.on graph = (.error error, left)) :
    graph.attempt operation = .error error ∧ left = graph := by
  rw [Graph.on_perform] at h
  cases hanswer : graph.attempt operation with
  | ok next =>
      rw [hanswer] at h
      cases h
  | error refusal =>
      rw [hanswer] at h
      cases h
      exact ⟨rfl, rfl⟩

namespace Run

/-- What a run leaves that found no order: the message, and no sign of an execution. -/
structure LeftUnordered
    (graph : Graph)
    (error : Error)
    (report : Report) : Prop where
  graph : report.graph = { graph with
    state := { graph.state with
      running := false
      lastError := error.message } }
  executions : Log.executionsIn report.events = []
  dispatched : Log.dispatchedIn report.events = []
  notifications : report.notifications = []

theorem leftUnordered_unordered
    (graph : Graph)
    (remaining : List String) :
    LeftUnordered graph (.cycle remaining) (unordered graph (.cycle remaining)) :=
  ⟨rfl, rfl, rfl, rfl⟩

/-- **What is refused changes nothing**: an operation that raises leaves the graph as it
was, so does a run that is refused for the reserved id, and a run that finds a cycle
leaves its message only. -/
theorem refusals_change_nothing
    {graph : Graph}
    (hgraph : graph.Reachable) :
    (∀ (operation : Graph.Operation) (error : Error) (left : Graph),
        operation.perform.on graph = (.error error, left) →
        graph.attempt operation = .error error ∧ left = graph) ∧
    ∀ (input : Json) (options : RunOptions) (observers : Observers)
      (now : Instant),
      (∀ id,
          (run graph input options observers now).outcome =
            refuse (.reservedNode id) →
          (run graph input options observers now).graph = graph) ∧
      ∀ remaining,
        (run graph input options observers now).outcome =
          .error (.cycle remaining) →
        LeftUnordered graph (.cycle remaining)
          (run graph input options observers now) := by
  refine ⟨fun operation error left h => Graph.left_of_on_perform h,
    fun input options observers now => ?_⟩
  have hending := ending_of_run hgraph.wellFormed input options observers now
  constructor
  · intro id houtcome
    rw [hending.eq_refused houtcome]
    rfl
  · intro remaining houtcome
    rw [hending.eq_unordered houtcome]
    exact leftUnordered_unordered graph remaining

/-- A node that feeds itself. -/
def circular : Graph :=
  (Graph.create "g" "circular" ⟨0⟩).after
    [.addNode "a" "" .null .passThrough ⟨0⟩, .addEdge "a" "a" .null ⟨0⟩]

theorem reachable_circular : circular.Reachable :=
  (Graph.Reachable.create "circular" ⟨0⟩ (by decide)).after _

theorem refusals_change_nothing_circular :
    circular.Reachable ∧
    (∃ error left,
        (Graph.Operation.addEdge "a" "b" .null ⟨0⟩).perform.on circular =
          (.error error, left) ∧
        left = circular) ∧
    LeftUnordered circular (.cycle ["a"]) (run circular (.int 1) {} [] ⟨0⟩) := by
  obtain ⟨hoperations, hruns⟩ := refusals_change_nothing reachable_circular
  have hraises : ∃ error left,
      (Graph.Operation.addEdge "a" "b" .null ⟨0⟩).perform.on circular =
        (.error error, left) :=
    ⟨_, _, rfl⟩
  obtain ⟨error, left, hon⟩ := hraises
  exact ⟨reachable_circular, ⟨error, left, hon, (hoperations _ _ _ hon).2⟩,
    (hruns (.int 1) {} [] ⟨0⟩).2 ["a"] rfl⟩

end Run

end PhaseFlow
