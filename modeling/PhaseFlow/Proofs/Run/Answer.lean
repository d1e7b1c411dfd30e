import PhaseFlow.Proofs.Graph.WellFormed
import PhaseFlow.Proofs.Phase.Attempts
import PhaseFlow.Proofs.Phase.Shift
import PhaseFlow.Run.Pipeline

/-!
# What a node answers, and to what

`Run.answer` is what the execution of a node on an input comes to. It depends neither on
the time of the execution nor on the statistics of the node (`result_executeNode`), and
the log of an execution shows no other input (`previews_executeNode`).

The input of a node depends on the graph without its statistics and on the outputs that
its active edges bring only (`assembleInput_reset`, `assembleInput_congr`).
-/

namespace PhaseFlow

namespace Run

/-! ## Answers -/

/-- What the execution of a node on an input comes to, all attempts included. -/
def answer
    (options : RunOptions)
    (graphId : String)
    (node : Node)
    (input : Json) :
    Result Completion :=
  match Execution.run (invocation options graphId node input) options.retry {} 0 with
  | .error refusal => .error refusal.error
  | .ok execution => execution.outcome.mapError fun failure => failure.error node.id

/-- An answer does not depend on how levels are executed. -/
theorem answer_parallel
    (options : RunOptions)
    (parallel : Bool)
    (graphId : String)
    (node : Node)
    (input : Json) :
    answer { options with parallel := parallel } graphId node input =
      answer options graphId node input :=
  rfl

/-- How a phase ends does not depend on how severe the events about its progress are. -/
theorem outcome_attemptsFrom_progress
    (invocation : Invocation)
    (progress : Log.Level)
    (policy : RetryPolicy)
    (begun : Nat) :
    ∀ (remaining attempt : Nat) (trail : Trail) (signal : Signal) (time : Nat),
      (Execution.attemptsFrom { invocation with progress := progress }
          policy begun remaining attempt trail signal time).outcome =
        (Execution.attemptsFrom invocation policy begun remaining attempt
            trail signal time).outcome
  | 0, _, _, _, _ => rfl
  | remaining + 1, attempt, trail, signal, time => by
      have hreply : Invocation.reply { invocation with progress := progress } attempt =
          invocation.reply attempt := rfl
      unfold Execution.attemptsFrom
      rw [hreply]
      split
      · rfl
      · dsimp only [Execution.after]
        split
        · rfl
        · split
          · rfl
          · dsimp only
            split
            · rfl
            · dsimp only
              split
              · rfl
              · exact outcome_attemptsFrom_progress invocation progress policy begun
                  remaining
                  (attempt + 1) _ _ _

/-- The answer of a node depends on the retry settings of the run and on the JSON
library only. -/
theorem answer_congr
    {options other : RunOptions}
    (hretry : other.retry = options.retry)
    (hwriter : other.writer = options.writer)
    (graphId : String)
    (node : Node)
    (input : Json) :
    answer other graphId node input = answer options graphId node input := by
  have hinvocation : invocation other graphId node input =
      { invocation options graphId node input with progress := other.progress } := by
    unfold invocation
    rw [hwriter]
  unfold answer Execution.run
  rw [hretry, hinvocation]
  dsimp only
  cases RetryPolicy.ofConfig (invocation options graphId node input).config
    options.retry with
  | error fault => rfl
  | ok policy =>
      dsimp only
      cases (invocation options graphId node input).writer.objection
          (invocation options graphId node input).input with
      | some words => rfl
      | none =>
          have houtcome :=
            outcome_attemptsFrom_progress (invocation options graphId node input)
            other.progress policy 0 policy.retries 1 {} {} 0
          exact congrArg (Except.mapError fun failure => failure.error node.id) houtcome

/-- **Whenever a node is executed, it answers the same.** -/
theorem result_executeNode
    (options : RunOptions)
    (graphId : String)
    (node : Node)
    (input : Json)
    (time : Nat) :
    (executeNode options graphId (node, input) time).result =
      answer options graphId node input := by
  have hsignal : ({} : Signal).raisedAt = none := rfl
  have hshift :=
    Execution.run_shift (invocation options graphId node input) options.retry hsignal
      0
    time
  rw [Nat.zero_add] at hshift
  simp only [executeNode, answer, hshift]
  cases Execution.run (invocation options graphId node input) options.retry {} 0 <;> rfl

/-- An execution does not look at the statistics of its node. -/
theorem executeNode_reset
    (options : RunOptions)
    (graphId : String)
    (node : Node)
    (input : Json)
    (time : Nat) :
    executeNode options graphId (node.reset, input) time =
      executeNode options graphId (node, input) time :=
  rfl

theorem id_executeNode
    (options : RunOptions)
    (graphId : String)
    (work : Node × Json)
    (time : Nat) :
    (executeNode options graphId work time).id = work.1.id := by
  obtain ⟨node, input⟩ := work
  unfold executeNode
  dsimp only
  split <;> rfl

/-! ## The input in the log -/

/-- Every input that some events show is the input of the invocation. -/
def ShowsInput (invocation : Invocation) (events : List Log.Event) : Prop :=
  ∀ subject data, Log.Event.preview subject "input" data ∈ events →
    subject.nodeId = invocation.name ∧ data = invocation.input

theorem ShowsInput.nil (invocation : Invocation) : ShowsInput invocation [] :=
  fun _ _ h => absurd h List.not_mem_nil

/-- Events show the input of a phase if all of their parts do. -/
theorem ShowsInput.append
    {invocation : Invocation} {events more : List Log.Event}
    (h : ShowsInput invocation events)
    (hmore : ShowsInput invocation more) :
    ShowsInput invocation (events ++ more) := by
  intro subject data hmem
  rcases List.mem_append.1 hmem with hmem | hmem
  · exact h subject data hmem
  · exact hmore subject data hmem

theorem showsInput_transition
    (invocation : Invocation)
    (attempt : Nat)
    (old new : PhaseState) :
    ShowsInput invocation
      [Execution.transition (invocation.subject attempt) old new] := by
  intro subject data hmem
  simp [Execution.transition] at hmem

theorem showsInput_failed
    (invocation : Invocation)
    (trail : Trail)
    (attempts finish : Nat) :
    ShowsInput invocation
      (Execution.failed invocation trail attempts finish).events := by
  intro subject data hmem
  simp [Execution.failed, Execution.transition] at hmem

theorem showsInput_completed
    (invocation : Invocation)
    (state : PhaseState)
    (done : Completion)
    (finish : Nat) :
    ShowsInput invocation
      (Execution.completed invocation state done finish).events := by
  intro subject data hmem
  simp [Execution.completed, Execution.completionEvents, Execution.transition] at hmem

theorem showsInput_startEvents
    (invocation : Invocation)
    (attempt : Nat) :
    ShowsInput invocation (Execution.startEvents invocation attempt) := by
  intro subject data hmem
  simp only [Execution.startEvents, List.mem_cons, reduceCtorEq,
    Log.Event.preview.injEq, true_and, List.not_mem_nil, or_false, false_or] at hmem
  obtain ⟨rfl, rfl⟩ := hmem
  exact ⟨rfl, rfl⟩

/-- Every preview of an input in the course of a phase shows the same value. -/
theorem showsInput_of_run
    {invocation : Invocation} {defaults : RetryPolicy} {signal : Signal}
    {start : Nat} {execution : Execution}
    (h : Execution.run invocation defaults signal start = .ok execution) :
    ShowsInput invocation execution.events := by
  refine Execution.run_induction
    (motive := fun execution => ShowsInput invocation execution.events)
    h (showsInput_failed invocation)
    (fun state done finish _ => showsInput_completed invocation state done finish) ?_
  intro events _ rest hprecedes hrest
  refine ShowsInput.append ?_ hrest
  cases hprecedes with
  | begun => exact showsInput_transition invocation 0 .pending .running
  | started attempt => exact showsInput_startEvents invocation attempt
  | unwritten attempt state outcome =>
      intro subject data hmem
      cases Execution.eq_of_mem_unwrittenEvents hmem
  | retried attempt text delay =>
      intro subject data hmem
      simp at hmem

/-- **The log of an execution shows no input but the one it was given.** -/
theorem previews_executeNode
    (options : RunOptions)
    (graphId : String)
    (node : Node)
    (input : Json)
    (time : Nat)
    {subject : Log.Subject} {data : Json}
    (h :
        Log.Event.preview subject "input" data ∈
          (executeNode options graphId (node, input) time).events) :
    subject.nodeId = node.id ∧ data = input := by
  unfold executeNode at h
  dsimp only at h
  split at h
  · cases Execution.Refusal.eq_of_mem_events h
  · next execution hrun => exact showsInput_of_run hrun subject data h

/-! ## Inputs -/

theorem activeIncoming_reset
    (graph : Graph)
    (id : String) :
    activeIncoming graph.reset id = (activeIncoming graph id).map Edge.reset := by
  unfold activeIncoming Graph.incoming Graph.reset KeyMap.values KeyMap.map
  simp only [List.map_map, List.filter_map, List.filter_filter]
  rfl

theorem fieldName_reset
    (edges : List Edge)
    (edge : Edge) :
    fieldName (edges.map Edge.reset) edge.reset = fieldName edges edge := by
  unfold fieldName
  rw [List.countP_map]
  rfl

/-- Counters of edges do not show in the input. -/
theorem mergedInput_reset
    (flow : DataFlow)
    (edges : List Edge) :
    mergedInput flow (edges.map Edge.reset) = mergedInput flow edges := by
  unfold mergedInput
  dsimp only
  rw [List.filter_map, List.map_map]
  congr 1
  refine List.map_congr_left ?_
  intro edge _
  show (fieldName _ edge.reset, _) = (fieldName _ edge, _)
  rw [fieldName_reset]
  rfl

/-- The input of a node does not depend on the statistics of the graph. -/
theorem assembleInput_reset
    (graph : Graph)
    (flow : DataFlow)
    (id : String) :
    assembleInput graph.reset flow id = assembleInput graph flow id := by
  unfold assembleInput
  rw [activeIncoming_reset]
  match activeIncoming graph id with
  | [] => rfl
  | [edge] => rfl
  | edge :: other :: rest => exact mergedInput_reset flow (edge :: other :: rest)

theorem mem_activeIncoming
    {graph : Graph} {id : String} {edge : Edge} :
    edge ∈ activeIncoming graph id ↔
      edge ∈ graph.edges.values ∧ edge.target = id ∧ edge.active = true := by
  simp [activeIncoming, Graph.incoming, List.mem_filter, and_assoc, and_comm]

/-- The input of a node depends on the edges and the outputs only. -/
theorem assembleInput_of_edges_eq
    {graph other : Graph}
    (h : other.edges = graph.edges)
    (flow : DataFlow)
    (id : String) :
    assembleInput other flow id = assembleInput graph flow id := by
  unfold assembleInput activeIncoming Graph.incoming
  rw [h]

/-- The input of a node depends on the initial input and the outputs of its active
sources only. -/
theorem assembleInput_congr
    {graph : Graph} {flow other : DataFlow} {id : String}
    (hinput : flow.get? inputKey = other.get? inputKey)
    (hsources :
        ∀ edge ∈ graph.edges.values,
          edge.target = id →
          edge.active = true →
          flow.get? edge.source = other.get? edge.source) :
    assembleInput graph flow id = assembleInput graph other id := by
  have hactive : ∀ edge ∈ activeIncoming graph id,
      flow.get? edge.source = other.get? edge.source := by
    intro edge hedge
    obtain ⟨hmem, htarget, hflows⟩ := mem_activeIncoming.1 hedge
    exact hsources edge hmem htarget hflows
  unfold assembleInput
  generalize activeIncoming graph id = edges at hactive
  match edges with
  | [] => simp [KeyMap.getD, hinput]
  | [edge] => simp [KeyMap.getD, hactive]
  | edge :: second :: rest =>
      show mergedInput flow (edge :: second :: rest) = mergedInput other
        (edge :: second :: rest)
      generalize edge :: second :: rest = edges at hactive
      have hfilter : (edges.filter fun edge => flow.contains edge.source) =
          edges.filter fun edge => other.contains edge.source := by
        refine List.filter_congr ?_
        intro edge hedge
        rw [KeyMap.contains, KeyMap.contains, hactive edge hedge]
      unfold mergedInput
      dsimp only
      rw [hfilter]
      congr 1
      refine List.map_congr_left ?_
      intro edge hedge
      rw [KeyMap.getD, KeyMap.getD, hactive edge (List.mem_filter.1 hedge).1]

end Run

end PhaseFlow
