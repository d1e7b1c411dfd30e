import PhaseFlow.Proofs.Phase.Script
import PhaseFlow.Proofs.Run.Agreement
import PhaseFlow.Proofs.Run.Summary
import PhaseFlow.Proofs.Schedule.Cycle

/-!
# Pipelines that hand their input on

In a graph of nodes that pass their input on, each reading along one active edge at
most, the initial input comes to every node as it is: a node without such an edge reads
it itself, and any other node reads the output of its one active source, which stands
before it in the order (`Transcript.resultOf_relayed`). Each node puts it out again in
its first attempt (`answer_passThrough`).

Main statement: `relayed_input_arrives_everywhere`.
-/

namespace PhaseFlow

namespace Run

/-- Every node passes its input on, and data comes to it along one edge at most. -/
structure Relays (graph : Graph) : Prop where
  passThrough : ∀ node ∈ graph.nodes.values, node.executor.isPassThrough = true
  one_edge : ∀ id, (activeIncoming graph id).length ≤ 1

/-- The retry settings of a node are valid, allow an attempt and set no time limit. -/
def AttemptedFreely (defaults : RetryPolicy) (node : Node) : Prop :=
  ∃ policy, RetryPolicy.ofConfig node.config defaults = .ok policy ∧ 0 < policy.retries ∧
    policy.timeout = 0

instance
    (defaults : RetryPolicy)
    (node : Node) :
    Decidable (AttemptedFreely defaults node) :=
  match hpolicy : RetryPolicy.ofConfig node.config defaults with
  | .ok policy =>
      decidable_of_iff (0 < policy.retries ∧ policy.timeout = 0) (by
        rw [AttemptedFreely, hpolicy]
        simp)
  | .error _ => isFalse fun ⟨_, hfound, _⟩ => by
      rw [hpolicy] at hfound
      cases hfound

/-- The input has been handed on to every node in its first attempt, and along every
active edge. -/
structure HandedOn
    (graph : Graph)
    (input : Json)
    (report : Report)
    (result : RunResult) : Prop where
  status : result.statusName = "success"
  completed : ∀ id, id ∈ result.completed ↔ graph.hasNode id = true
  failed : result.failed = []
  attempts : ∀ id, (result.records.get? id).map PhaseRecord.attempts =
    if graph.hasNode id then some 1 else none
  flow : ∀ key, result.flow.get? key =
    if key = inputKey ∨ graph.hasNode key = true then some input else none
  finalOutput : (∃ id, graph.hasNode id = true) → result.finalOutput = input
  nodes : ∀ id node, report.graph.nodes.get? id = some node → node.status = .completed
  edges : ∀ id, report.graph.edges.get? id = (graph.edges.get? id).map fun edge =>
    if edge.active then edge.passed input.byteSize else edge

variable {setting : Setting} {graph : Graph} {input : Json}
variable {order : List String} {levels : List (List String)}
variable {outcomes : List NodeOutcome} {ended : Progress} {options : RunOptions}

/-! ## One node -/

theorem length_activeIncoming
    (graph : Graph)
    (id : String) :
    (activeIncoming graph id).length =
      ((graph.edges.values.filter Edge.active).map Edge.target).count id := by
  rw [activeIncoming, Graph.incoming, List.count, List.countP_map, List.countP_filter,
    List.filter_filter, ← List.countP_eq_length_filter]
  exact List.countP_congr fun edge _ => by simp [Function.comp, and_comm]

/-- No two active edges of the graph end at the same node. -/
theorem Relays.of_nodup
    (hpass : ∀ node ∈ graph.nodes.values, node.executor.isPassThrough = true)
    (htargets : ((graph.edges.values.filter Edge.active).map Edge.target).Nodup) :
    Relays graph where
  passThrough := hpass
  one_edge id := length_activeIncoming graph id ▸ List.nodup_iff_count_le_one.1 htargets id

/-- An attempt that has no time limit and is answered at once with a value that is
written is the last one. -/
theorem outcome_attemptsFrom_of_value
    {invocation : Invocation} {policy : RetryPolicy} {value : Json}
    {attempt : Nat}
    (hreply : invocation.reply attempt = Reply.value value)
    (hvalue : value ≠ .null)
    (hwrites : invocation.writer.Writes value)
    (hlimit : policy.timeout = 0)
    (begun remaining : Nat)
    (trail : Trail)
    (time : Nat) :
    (Execution.attemptsFrom invocation policy begun (remaining + 1)
        attempt trail {} time).outcome =
      .ok ⟨value, attempt, time - begun⟩ := by
  have hattempt :
      Attempt.of (Reply.value value) {} time 0 = ⟨some (.ok value), time, {}⟩ :=
    rfl
  have hresult : Execution.result? invocation.writer (.ok value) = some value :=
    Execution.result?_eq_some_iff.2 ⟨rfl, hvalue, hwrites⟩
  rw [Execution.attemptsFrom_of_not_seen rfl, hreply, hlimit, hattempt]
  simp only [Execution.after, Execution.afterAttempt, hresult, Execution.completed]

/-- **A node that passes its input on is done in its first attempt.** -/
theorem answer_passThrough
    {node : Node}
    (hpass : node.executor.isPassThrough = true)
    (hattempted : AttemptedFreely options.retry node)
    (hinput : input ≠ .null)
    (hwrites : options.writer.Writes input)
    (graphId : String) :
    answer options graphId node input = .ok ⟨input, 1, 0⟩ := by
  obtain ⟨policy, hpolicy, hretries, hlimit⟩ := hattempted
  obtain ⟨remaining, hremaining⟩ := Nat.exists_eq_add_of_le' hretries
  have hreply : (invocation options graphId node input).reply 1 = Reply.value input := by
    show node.executor.invoke input node.config _ = Reply.value input
    cases hexecutor : node.executor with
    | passThrough => rfl
    | custom name executor => simp [hexecutor, Capability.isPassThrough] at hpass
  have hwritten : (invocation options graphId node input).writer.Writes input := hwrites
  have hrun :
      Execution.run (invocation options graphId node input) options.retry {} 0 =
        .ok _ :=
    Execution.run_of_writes hpolicy hwritten {} 0
  have houtcome :=
    outcome_attemptsFrom_of_value hreply hinput hwritten hlimit 0 remaining {} 0
  unfold answer
  rw [hrun]
  dsimp only [Execution.withPolicy, Execution.after]
  rw [hremaining, houtcome]
  rfl

/-- With one active edge at most, a node reads what all its active sources have put out,
or the initial input. -/
theorem assembleInput_relayed
    {flow : DataFlow} {id : String}
    (hone : (activeIncoming graph id).length ≤ 1)
    (hinput : flow.get? inputKey = some input)
    (hsources : ∀ edge ∈ activeIncoming graph id, flow.get? edge.source = some input) :
    assembleInput graph flow id = input := by
  unfold assembleInput
  match hactive : activeIncoming graph id with
  | [] => simp [KeyMap.getD, hinput]
  | [edge] =>
      have hsource := hsources edge (hactive ▸ List.mem_singleton_self edge)
      simp [KeyMap.getD, hsource]
  | _ :: _ :: _ => simp [hactive] at hone

/-! ## All nodes -/

/-- **The input comes to every node that is executed**, along the order of the nodes. -/
theorem Transcript.resultOf_relayed
    (hrelays : Relays graph)
    (hattempted :
        ∀ node ∈ graph.nodes.values, AttemptedFreely setting.options.retry node)
    (hnull : input ≠ .null)
    (hwrites : setting.options.writer.Writes input)
    (hreserved : graph.hasNode inputKey = false)
    (horder : Schedule.IsOrder graph order)
    (h : Transcript setting graph input order levels outcomes ended) :
    ∀ id ∈ order,
      id ∈ outcomes.map NodeOutcome.id →
      resultOf outcomes id = some (.ok ⟨input, 1, 0⟩) := by
  have hinput : ended.flow.get? inputKey = some input := by
    rw [h.get?_flow_input hreserved]
    simp [opening, Json.isNull_iff, hnull]
  refine horder.sourcesFirst.induction fun id _ hsources hmem => ?_
  have hreads : assembleInput graph ended.flow id = input := by
    refine assembleInput_relayed (hrelays.one_edge id) hinput fun edge hedge => ?_
    obtain ⟨hstored, rfl, -⟩ := mem_activeIncoming.1 hedge
    have hsource := h.course.solves.closed edge hstored hmem
    rw [h.get?_flow (h.not_input_of_mem hreserved hsource), completionOf_eq,
      hsources edge hstored rfl hsource]
    rfl
  obtain ⟨node, hnode, hresult⟩ := h.resultOf_of_mem hmem
  have hstored : node ∈ graph.nodes.values := (graph.nodes.mem_values_iff node).2 ⟨id, hnode⟩
  rw [hresult, hreads, answer_passThrough (hrelays.passThrough node hstored)
    (hattempted node hstored) hnull hwrites]

/-! ## The whole run -/

theorem Returned.completionOf_handed
    (h : Returned setting graph input order levels outcomes ended)
    (hdone :
        ∀ id,
          graph.hasNode id = true → resultOf outcomes id = some (.ok ⟨input, 1, 0⟩))
    (id : String) :
    completionOf outcomes id =
      if graph.hasNode id then some ⟨input, 1, 0⟩ else none := by
  split
  · next hnode =>
      rw [completionOf_eq, hdone id hnode]
      rfl
  · next hnode =>
      have hnone : id ∉ outcomes.map NodeOutcome.id :=
        fun hmem => hnode (h.course.hasNode id hmem)
      rw [completionOf, outcomeOf_eq_none_iff.2 hnone]
      rfl

theorem Returned.mem_completed_handed
    (h : Returned setting graph input order levels outcomes ended)
    (hdone :
        ∀ id,
          graph.hasNode id = true → resultOf outcomes id = some (.ok ⟨input, 1, 0⟩))
    (id : String) :
    id ∈ ended.completed ↔ graph.hasNode id = true := by
  rw [h.mem_completed_iff, h.completionOf_handed hdone]
  cases graph.hasNode id <;> simp

theorem Returned.get?_flow_handed
    (h : Returned setting graph input order levels outcomes ended)
    (hnull : input ≠ .null)
    (hdone :
        ∀ id,
          graph.hasNode id = true → resultOf outcomes id = some (.ok ⟨input, 1, 0⟩))
    (key : String) :
    ended.flow.get? key =
      if key = inputKey ∨ graph.hasNode key = true then some input else none := by
  by_cases hkey : key = inputKey
  · subst hkey
    rw [h.get?_flow_input h.input_not_node]
    simp [opening, Json.isNull_iff, hnull]
  · rw [h.get?_flow hkey, h.completionOf_handed hdone]
    cases graph.hasNode key <;> simp [hkey]

/-- What a run comes to if every node has put out the input in its first attempt. -/
theorem Returned.handedOn
    (hwell : graph.WellFormed)
    (h : Returned setting graph input order levels outcomes ended)
    (hnull : input ≠ .null)
    (hdone :
        ∀ id,
          graph.hasNode id = true → resultOf outcomes id = some (.ok ⟨input, 1, 0⟩))
    {result : RunResult}
    (hresult : (finished ended order levels).outcome = .ok result) :
    HandedOn graph input (finished ended order levels) result := by
  have haccounts := h.accountsFor hresult
  cases hresult
  have hcompletion := h.completionOf_handed hdone
  have hcompleted := h.mem_completed_handed hdone
  have hflow := h.get?_flow_handed hnull hdone
  have hfailed : ended.failed = [] := by
    refine List.eq_nil_iff_forall_not_mem.2 fun id hid => ?_
    exact h.not_mem_failed ((hcompleted id).2 (h.hasNode_iff.2 (.inr hid))) hid
  constructor
  case status => exact statusName_eq_success_iff.2 hfailed
  case completed => exact hcompleted
  case failed => exact hfailed
  case attempts =>
    intro id
    have hrecords : (ended.records.get? id).map PhaseRecord.attempts =
        ((completionOf outcomes id).map Completion.attempts).or none :=
          h.course.account.attempts id
    dsimp only
    rw [hrecords, hcompletion]
    cases graph.hasNode id <;> rfl
  case flow => exact hflow
  case finalOutput =>
    rintro ⟨id, hnode⟩
    have hne : ended.completed ≠ [] := List.ne_nil_of_mem ((hcompleted id).2 hnode)
    have hlast := haccounts.final_of_last _ (List.getLast?_eq_some_getLast hne)
    have hvalue := hflow (ended.completed.getLast hne)
    rw [if_pos (.inr ((hcompleted _).1 (List.getLast_mem hne)))] at hvalue
    exact Option.some.inj (hlast.symm.trans hvalue)
  case nodes =>
    intro id node hnode
    have hnode' : ended.graph.nodes.get? id = some node := hnode
    rw [h.course.account.nodes] at hnode'
    obtain ⟨origin, horigin, rfl⟩ := Option.map_eq_some_iff.1 hnode'
    obtain ⟨outcome, houtcome, hresult⟩ :=
      Option.map_eq_some_iff.1 (hdone id (Graph.hasNode_iff.2 ⟨origin, horigin⟩))
    simp only [nodeOf, houtcome, nodeAfter, hresult, Node.succeeded]
  case edges =>
    intro id
    show ended.graph.edges.get? id = _
    rw [h.course.account.edges]
    refine Option.map_congr fun edge hedge => ?_
    rw [edgeAfter, hcompletion, if_pos (hwell.hasNode_source hedge)]

/-- **The initial input arrives everywhere.** In an acyclic graph whose nodes pass on
what comes along one edge at most, an input that is written comes out of every node in
its first attempt, and every active edge has one message more. The counters of edges are
numbers modulo `2 ^ 64`. -/
theorem relayed_input_arrives_everywhere
    (hwell : graph.WellFormed)
    (hacyclic : ¬ graph.HasCycle)
    (hreserved : graph.hasNode inputKey = false)
    (hrelays : Relays graph)
    (hnull : input ≠ .null)
    (hwrites : options.writer.Writes input)
    (hattempted : ∀ node ∈ graph.nodes.values, AttemptedFreely options.retry node)
    (observers : Observers)
    (now : Instant) :
    ∃ result,
      (run graph input options observers now).outcome = .ok result ∧
      HandedOn graph input (run graph input options observers now) result := by
  have horder := Schedule.executionOrder_of_not_hasCycle hwell hacyclic
  obtain ⟨levels, outcomes, ended, -, htranscript, hend⟩ :=
    course_of_order options input observers now hwell hreserved horder
  have hisOrder := Schedule.executionOrder_isOrder horder
  have hrelayed :=
    htranscript.resultOf_relayed hrelays hattempted hnull hwrites hreserved hisOrder
  have hplaced :
      ∀ id, graph.hasNode id = true → id ∈ (Schedule.Frontier.final graph).placed :=
    fun id hnode => hisOrder.perm.mem_iff.2 (Schedule.mem_keys_iff_hasNode.2 hnode)
  have hfatal : ∀ outcome ∈ outcomes, outcome.fatal? graph = none := by
    intro outcome hmem
    have hid := List.mem_map_of_mem (f := NodeOutcome.id) hmem
    have hresult :=
      hrelayed outcome.id (hplaced outcome.id (htranscript.course.hasNode _ hid)) hid
    rw [resultOf, outcomeOf_of_mem htranscript.course.nodup hmem] at hresult
    refine fatal?_eq_none_iff.2 fun failure hfailure => ?_
    rw [Option.map_some, hfailure] at hresult
    cases hresult
  rcases hend with ⟨-, hall, hrun⟩ | ⟨error, hstops, -⟩
  · have hreturned :
        Returned ⟨options, observers, now⟩ graph input _ levels outcomes ended :=
      ⟨htranscript, hreserved, horder, hfatal, hall⟩
    rw [hrun]
    refine ⟨_, rfl, hreturned.handedOn hwell hnull (fun id hnode => ?_) rfl⟩
    refine hrelayed id (hplaced id hnode) ?_
    rw [hall]
    exact htranscript.schedule.mem_iff.2 hnode
  · obtain ⟨outcome, hmem, herror⟩ := hstops.exists_fatal
    rw [hfatal outcome hmem] at herror
    cases herror

/-- A branching pipeline. Two inactive edges end at a node that also reads along an
active one. -/
def branching : Graph :=
  (Graph.create "g" "branching" ⟨0⟩).after
    [.addNode "source" "source" .null .passThrough ⟨0⟩,
      .addNode "left" "" (.object [("retries", .int 0)]) .passThrough ⟨0⟩,
      .addNode "right" "" (.object [("restart_delay", .int 5)]) .passThrough ⟨0⟩,
      .addNode "sink" "sink" (.object [("timeout", .null)]) .passThrough ⟨0⟩,
      .addNode "apart" "" .null .passThrough ⟨0⟩,
      .addEdge "source" "left" (.object [("stream", .str "x")]) ⟨0⟩,
      .addEdge "source" "right" (.object [("stream", .str "y")]) ⟨0⟩,
      .addEdge "left" "sink" .emptyObject ⟨0⟩,
      .insertEdge { Edge.fresh "right" "sink" "data" {} ⟨0⟩ with active := false },
      .insertEdge { Edge.fresh "source" "sink" "data" {} ⟨0⟩ with active := false }]

theorem relayed_input_arrives_everywhere_branching :
    branching.WellFormed ∧
    ¬ branching.HasCycle ∧
    branching.hasNode inputKey = false ∧
    Relays branching ∧
    ({ parallel := true } : RunOptions).writer.Writes (.str "x") ∧
    (∀ node ∈ branching.nodes.values, AttemptedFreely {} node) ∧
    ∃ result,
      (run branching (.str "x") { parallel := true } [] ⟨0⟩).outcome =
        .ok result ∧
      HandedOn branching (.str "x")
        (run branching (.str "x") { parallel := true } [] ⟨0⟩) result := by
  have hwell : branching.WellFormed :=
    ((Graph.Reachable.create "branching" ⟨0⟩ (by decide)).after _).wellFormed
  have horder : Schedule.executionOrder branching =
      .ok ["apart", "source", "left", "right", "sink"] := rfl
  have hacyclic := Schedule.not_hasCycle_of_executionOrder hwell horder
  have hrelays : Relays branching := .of_nodup (by decide) (by decide)
  have hnull : Json.str "x" ≠ .null := nofun
  have hwrites : ({ parallel := true } : RunOptions).writer.Writes (.str "x") := rfl
  have hattempted : ∀ node ∈ branching.nodes.values,
      AttemptedFreely ({ parallel := true } : RunOptions).retry node := by decide
  exact ⟨hwell, hacyclic, rfl, hrelays, hwrites, hattempted,
    relayed_input_arrives_everywhere hwell hacyclic rfl hrelays hnull hwrites
      hattempted [] ⟨0⟩⟩

/-- A pipeline with an edge that has passed as many messages as can be counted. -/
def exhausted : Graph :=
  (Graph.create "g" "exhausted" ⟨0⟩).after
    [.addNode "source" "" .emptyObject .passThrough ⟨0⟩,
      .addNode "sink" "" .emptyObject .passThrough ⟨0⟩,
      .insertEdge
        { Edge.fresh "source" "sink" "data" {} ⟨0⟩ with
          messages := UInt64.ofNat (2 ^ 64 - 1) }]

/-- A counter at its limit starts anew instead of gaining a message, and a run on an
input that is not written does not succeed. -/
theorem relayed_input_arrives_miscounted :
    (exhausted.WellFormed ∧
      ¬ exhausted.HasCycle ∧
      exhausted.hasNode inputKey = false ∧
      Relays exhausted ∧
      ∀ node ∈ exhausted.nodes.values, AttemptedFreely {} node) ∧
    ((exhausted.edges.get? "source->sink:data").map fun edge =>
        edge.messages.toNat) =
      some (2 ^ 64 - 1) ∧
    (((run exhausted (.int 1) {} [] ⟨0⟩).graph.edges.get?
          "source->sink:data").map fun edge => edge.messages.toNat) =
      some 0 ∧
    (run exhausted (.str "ÿ") { writer := Execution.particular } []
        ⟨0⟩).outcome =
      .error (.json (.unwritable "[json] invalid UTF-8")) := by
  have hwell : exhausted.WellFormed :=
    ((Graph.Reachable.create "exhausted" ⟨0⟩ (by decide)).after _).wellFormed
  have horder : Schedule.executionOrder exhausted = .ok ["source", "sink"] := rfl
  have hacyclic := Schedule.not_hasCycle_of_executionOrder hwell horder
  exact ⟨⟨hwell, hacyclic, rfl, .of_nodup (by decide) (by decide), by decide⟩, rfl, rfl, rfl⟩

end Run

end PhaseFlow
