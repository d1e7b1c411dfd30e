import PhaseFlow.Proofs.Phase.Attempts
import PhaseFlow.Run.Pipeline

/-!
# What the log of a run tells

Three things can be read off a log: which nodes were dispatched, what was logged while a
node was executed, and what the nodes put out. `tellsOf_executeNode` and
`outputs_executeNode` say what an execution logs: every event is about its node, and the
output is shown exactly if there is one.
-/

namespace PhaseFlow

namespace Log

namespace Event

/-- The nodes that an event says are dispatched. -/
def dispatched : Event → List String
  | .levelDispatch _ _ nodes _ => nodes
  | _ => []

/-- The node during whose execution an event is logged. -/
def executing? : Event → Option String
  | .phaseStart subject .. => some subject.nodeId
  | .phaseRetry subject .. => some subject.nodeId
  | .phaseComplete subject .. => some subject.nodeId
  | .transition subject .. => some subject.nodeId
  | .preview subject .. => some subject.nodeId
  | .error subject _ operation =>
      if operation = "execute-phase" then some subject.nodeId else none
  | _ => none

/-- The output of a node that an event shows. -/
def output? (id : String) : Event → Option Json
  | .preview subject label data =>
      if subject.nodeId = id ∧ label = "output" then some data else none
  | _ => none

end Event

/-- The nodes that a log says are dispatched, in order. -/
def dispatchedIn (events : List Event) : List String :=
  events.flatMap Event.dispatched

/-- The events that are logged during executions, in order. -/
def executionsIn (events : List Event) : List Event :=
  events.filter fun event => event.executing?.isSome

/-- The outputs of a node that a log shows, in order. -/
def outputsIn (id : String) (events : List Event) : List Json :=
  events.filterMap (Event.output? id)

theorem dispatchedIn_append
    (events more : List Event) :
    dispatchedIn (events ++ more) = dispatchedIn events ++ dispatchedIn more :=
  List.flatMap_append

theorem executionsIn_append
    (events more : List Event) :
    executionsIn (events ++ more) = executionsIn events ++ executionsIn more :=
  List.filter_append ..

theorem outputsIn_append
    (id : String)
    (events more : List Event) :
    outputsIn id (events ++ more) = outputsIn id events ++ outputsIn id more :=
  List.filterMap_append

/-- Outputs are shown during executions only. -/
theorem outputsIn_executionsIn
    (id : String)
    (events : List Event) :
    outputsIn id (executionsIn events) = outputsIn id events := by
  have hshown :
      (fun event : Event =>
          if event.executing?.isSome = true then event.output? id else none) =
        Event.output? id := by
    funext event
    cases event <;> simp [Event.executing?, Event.output?]
  rw [outputsIn, executionsIn, List.filterMap_filter, hshown]
  rfl

theorem mem_executionsIn
    {event : Event} {events : List Event} :
    event ∈ executionsIn events ↔ event ∈ events ∧ event.executing?.isSome = true :=
  List.mem_filter

/-- All events are logged during the execution of one node. -/
def TellsOf (id : String) (events : List Event) : Prop :=
  ∀ event ∈ events, event.executing? = some id

theorem TellsOf.append
    {id : String} {events more : List Event}
    (h : TellsOf id events)
    (hmore : TellsOf id more) :
    TellsOf id (events ++ more) := by
  intro event hevent
  rcases List.mem_append.1 hevent with hmem | hmem
  · exact h event hmem
  · exact hmore event hmem

/-- Events that tell of one node are all events of executions. -/
theorem TellsOf.executionsIn_eq
    {id : String} {events : List Event}
    (h : TellsOf id events) :
    executionsIn events = events := by
  refine List.filter_eq_self.2 ?_
  intro event hevent
  rw [h event hevent]
  rfl

/-- Events that tell of one node dispatch none. -/
theorem TellsOf.dispatchedIn_eq
    {id : String} {events : List Event}
    (h : TellsOf id events) :
    dispatchedIn events = [] := by
  refine List.flatMap_eq_nil_iff.2 ?_
  intro event hevent
  have hid := h event hevent
  cases event <;> first | rfl | cases hid

/-- Events that tell of one node show no output of another. -/
theorem TellsOf.outputsIn_eq
    {id other : String} {events : List Event}
    (h : TellsOf id events)
    (hne : id ≠ other) :
    outputsIn other events = [] := by
  refine List.filterMap_eq_nil_iff.2 ?_
  intro event hevent
  have hid := h event hevent
  cases event with
  | preview subject label data =>
      have hsubject : subject.nodeId = id := Option.some.inj hid
      simp [Event.output?, hsubject, hne]
  | _ => rfl

end Log

/-! ## The log of an execution -/

namespace Execution

open Log

/-- The values that the outcome of a phase puts out: one or none. -/
def outputsOf {ε : Type} (outcome : Except ε Completion) : List Json :=
  match outcome with
  | .ok done => [done.output]
  | .error _ => []

/-- The log of an execution tells of its node, and it shows the output if there is
one. -/
structure LogsItself
    (invocation : Invocation)
    (execution : Execution) : Prop where
  tells : TellsOf invocation.name execution.events
  outputs : outputsIn invocation.name execution.events = outputsOf execution.outcome

variable {invocation : Invocation}

theorem tellsOf_transition
    (attempt : Nat)
    (old new : PhaseState) :
    TellsOf invocation.name [transition (invocation.subject attempt) old new] := by
  intro event hevent
  rw [List.mem_singleton.1 hevent]
  rfl

theorem tellsOf_unwrittenEvents
    (attempt : Nat)
    (state : PhaseState)
    (outcome : Outcome) :
    TellsOf invocation.name (unwrittenEvents invocation attempt state outcome) := by
  intro event hevent
  rw [eq_of_mem_unwrittenEvents hevent]
  rfl

/-- A result that is not written is no output in the log. -/
theorem outputsIn_unwrittenEvents
    (attempt : Nat)
    (state : PhaseState)
    (outcome : Outcome) :
    outputsIn invocation.name
      (unwrittenEvents invocation attempt state outcome) =
      [] := by
  refine List.filterMap_eq_nil_iff.2 fun event hevent => ?_
  rw [eq_of_mem_unwrittenEvents hevent]
  rfl

theorem logsItself_failed
    (trail : Trail)
    (attempts finish : Nat) :
    LogsItself invocation (failed invocation trail attempts finish) := by
  constructor
  · intro event hevent
    simp only [failed, List.mem_cons, List.not_mem_nil, or_false] at hevent
    rcases hevent with rfl | rfl <;> rfl
  · rfl

/-- A phase that completes shows its output once. -/
theorem logsItself_completed
    (state : PhaseState)
    (done : Completion)
    (finish : Nat) :
    LogsItself invocation (completed invocation state done finish) := by
  constructor
  · intro event hevent
    simp only [completed, completionEvents, List.mem_cons, List.not_mem_nil, or_false]
      at hevent
    rcases hevent with rfl | rfl | rfl <;> rfl
  · simp [completed, completionEvents, transition, outputsIn, List.filterMap_cons,
      Event.output?, Invocation.subject, outputsOf]

/-- Events about the node that show no output may come before. -/
theorem LogsItself.after
    {rest : Execution}
    (h : LogsItself invocation rest)
    {events : List Event}
    (invocations : List Nat)
    (htells : TellsOf invocation.name events)
    (hnone : outputsIn invocation.name events = []) :
    LogsItself invocation (after events invocations rest) where
  tells := htells.append h.tells
  outputs := by
    show outputsIn invocation.name (events ++ rest.events) = outputsOf rest.outcome
    rw [outputsIn_append, hnone, h.outputs]
    rfl

theorem tellsOf_startEvents
    (attempt : Nat) :
    TellsOf invocation.name (startEvents invocation attempt) := by
  intro event hevent
  simp only [startEvents, List.mem_cons, List.not_mem_nil, or_false] at hevent
  rcases hevent with rfl | rfl <;> rfl

theorem outputsIn_startEvents
    (attempt : Nat) :
    outputsIn invocation.name (startEvents invocation attempt) = [] := by
  simp [startEvents, outputsIn, Event.output?]

/-- **An execution logs itself.** -/
theorem logsItself_of_run
    {defaults : RetryPolicy} {signal : Signal} {start : Nat}
    {execution : Execution}
    (h : run invocation defaults signal start = .ok execution) :
    LogsItself invocation execution := by
  refine run_induction h logsItself_failed
    (fun state done finish _ => logsItself_completed state done finish) ?_
  intro events invocations rest hprecedes hrest
  cases hprecedes with
  | begun => exact hrest.after invocations (tellsOf_transition 0 .pending .running) rfl
  | started attempt =>
      exact hrest.after invocations (tellsOf_startEvents attempt)
        (outputsIn_startEvents attempt)
  | unwritten attempt state outcome =>
      exact hrest.after invocations (tellsOf_unwrittenEvents attempt state outcome)
        (outputsIn_unwrittenEvents attempt state outcome)
  | retried attempt text delay =>
      refine hrest.after invocations ?_ rfl
      intro event hevent
      rw [List.mem_singleton.1 hevent]
      rfl

end Execution

namespace Run

/-- An execution logs events of its own node only. -/
theorem tellsOf_executeNode
    (options : RunOptions)
    (graphId : String)
    (node : Node)
    (input : Json)
    (time : Nat) :
    Log.TellsOf node.id (executeNode options graphId (node, input) time).events := by
  unfold executeNode
  dsimp only
  split
  · intro event hevent
    rw [Execution.Refusal.eq_of_mem_events hevent]
    rfl
  · next execution hrun => exact (Execution.logsItself_of_run hrun).tells

/-- **The log of an execution shows the output of the node exactly if there is one.** -/
theorem outputs_executeNode
    (options : RunOptions)
    (graphId : String)
    (node : Node)
    (input : Json)
    (time : Nat) :
    Log.outputsIn node.id
      (executeNode options graphId (node, input) time).events =
      Execution.outputsOf
        (executeNode options graphId (node, input) time).result := by
  unfold executeNode
  dsimp only
  split
  · next refusal _ => cases refusal <;> rfl
  · next execution hrun =>
      have houtputs := (Execution.logsItself_of_run hrun).outputs
      rw [show node.id = (invocation options graphId node input).name from rfl, houtputs]
      cases execution.outcome <;> rfl

end Run

end PhaseFlow
