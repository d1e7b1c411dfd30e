import PhaseFlow.Proofs.Run.Account
import PhaseFlow.Proofs.Schedule.Layers

/-!
# The course of a run

A run executes a node on what its sources have put out so far. `Solves` says that this
is what they have put out in the end: the outcomes are the executions of the nodes on
the inputs that the present outputs make up, and the nodes that have an outcome are
closed under sources. Later outputs keep it (`Solves.extend`), since they are outputs of
other nodes.

`Course` is `Account` together with `Solves` and with what the log tells. One level is
`Course.runLevel`, the levels of a schedule are `Course.runLevels`, and a run of a graph
with an order is `course_of_order`: it comes to its end, or it stops at a level
(`StopsAt`).
-/

namespace PhaseFlow

namespace Run

/-! ## The outcomes of a level -/

theorem executeNode_mem_executeInTurn
    {options : RunOptions} {graphId : String} {work : List (Node × Json)}
    {outcome : NodeOutcome} :
    ∀ {time : Nat},
      outcome ∈ executeInTurn options graphId work time →
      ∃ item ∈ work, ∃ moment, outcome = executeNode options graphId item moment := by
  induction work with
  | nil =>
      intro time h
      cases h
  | cons item rest ih =>
      intro time h
      rcases List.mem_cons.1 h with rfl | h
      · exact ⟨item, List.mem_cons_self, time, rfl⟩
      · obtain ⟨other, hother, moment, rfl⟩ := ih h
        exact ⟨other, List.mem_cons_of_mem _ hother, moment, rfl⟩

theorem map_id_executeInTurn
    (options : RunOptions)
    (graphId : String)
    (work : List (Node × Json)) :
    ∀ time,
      (executeInTurn options graphId work time).map NodeOutcome.id =
        work.map fun item => item.1.id := by
  induction work with
  | nil => exact fun _ => rfl
  | cons item rest ih =>
      intro time
      rw [executeInTurn, List.map_cons, List.map_cons, ih, id_executeNode]

/-- An outcome of a level is the execution of a node of the level on its input. -/
theorem mem_executeLevel
    {options : RunOptions} {progress : Progress} {level : List String}
    {outcome : NodeOutcome}
    (hwell : progress.graph.WellFormed)
    (h : outcome ∈ executeLevel options progress level) :
    ∃ node,
      progress.graph.nodes.get? outcome.id = some node ∧
      node.id = outcome.id ∧
      ∃ moment,
        outcome =
          executeNode options progress.graph.id
            (node, assembleInput progress.graph progress.flow outcome.id) moment := by
  have hitem : ∃ item ∈ workOf progress level, ∃ moment,
      outcome = executeNode options progress.graph.id item moment := by
    unfold executeLevel at h
    dsimp only at h
    split at h
    · obtain ⟨item, hitem, rfl⟩ := List.mem_map.1 h
      exact ⟨item, hitem, progress.time, rfl⟩
    · exact executeNode_mem_executeInTurn h
  obtain ⟨item, hmem, moment, rfl⟩ := hitem
  obtain ⟨id, -, hid⟩ := List.mem_filterMap.1 hmem
  obtain ⟨node, hnode, rfl⟩ := Option.map_eq_some_iff.1 hid
  have hown : node.id = id := hwell.node_id hnode
  subst hown
  rw [id_executeNode]
  exact ⟨node, hnode, rfl, moment, rfl⟩

/-- A level has one outcome for each of its nodes, in order. -/
theorem map_id_executeLevel
    {options : RunOptions} {progress : Progress} {level : List String}
    (hwell : progress.graph.WellFormed)
    (hnodes : ∀ id ∈ level, progress.graph.hasNode id = true) :
    (executeLevel options progress level).map NodeOutcome.id = level := by
  have hwork : (workOf progress level).map (fun item => item.1.id) = level := by
    unfold workOf
    induction level with
    | nil => rfl
    | cons id rest ih =>
        obtain ⟨node, hnode⟩ := Graph.hasNode_iff.1 (hnodes id List.mem_cons_self)
        simp only [List.filterMap_cons, hnode, Option.map_some, List.map_cons,
          hwell.node_id hnode,
          ih fun other hother => hnodes other (List.mem_cons_of_mem _ hother)]
  unfold executeLevel
  dsimp only
  split
  · rw [executeTogether, List.map_map]
    refine Eq.trans (List.map_congr_left ?_) hwork
    intro item _
    exact id_executeNode options progress.graph.id item progress.time
  · rw [map_id_executeInTurn, hwork]

/-! ## Outcomes that solve the equations of a graph -/

/-- The outcomes are the executions of the nodes on what the outputs make up, and come
with those of the sources. -/
structure Solves
    (options : RunOptions)
    (graph : Graph)
    (outcomes : List NodeOutcome)
    (flow : DataFlow) : Prop where
  runs :
    ∀ outcome ∈ outcomes,
      ∃ node,
        graph.nodes.get? outcome.id = some node ∧
        ∃ moment,
          outcome =
            executeNode options graph.id (node, assembleInput graph flow outcome.id)
              moment
  closed : ∀ edge ∈ graph.edges.values, edge.target ∈ outcomes.map NodeOutcome.id →
    edge.source ∈ outcomes.map NodeOutcome.id

variable {options : RunOptions} {graph other : Graph}
variable {outcomes found : List NodeOutcome} {flow next : DataFlow}

theorem Solves.nil
    (options : RunOptions)
    (graph : Graph)
    (flow : DataFlow) :
    Solves options graph [] flow where
  runs := by simp
  closed := by simp

/-- The result of an outcome is the answer of the node. -/
theorem Solves.answers
    (h : Solves options graph outcomes flow) :
    ∀ outcome ∈ outcomes,
      ∃ node,
        graph.nodes.get? outcome.id = some node ∧
        outcome.result =
          answer options graph.id node (assembleInput graph flow outcome.id) := by
  intro outcome hmem
  obtain ⟨node, hnode, moment, hrun⟩ := h.runs outcome hmem
  refine ⟨node, hnode, ?_⟩
  rw [congrArg NodeOutcome.result hrun, result_executeNode]

/-- The log of an outcome shows no other input. -/
theorem Solves.shows
    (h : Solves options graph outcomes flow) :
    ∀ outcome ∈ outcomes,
      ∀ subject data,
        Log.Event.preview subject "input" data ∈ outcome.events →
        subject.nodeId = outcome.id ∧ data = assembleInput graph flow outcome.id := by
  intro outcome hmem subject data hpreview
  obtain ⟨node, -, moment, hrun⟩ := h.runs outcome hmem
  have hid : outcome.id = node.id := by
    rw [congrArg NodeOutcome.id hrun, id_executeNode]
  rw [congrArg NodeOutcome.events hrun] at hpreview
  obtain ⟨hsubject, hdata⟩ := previews_executeNode options graph.id node _ moment hpreview
  exact ⟨hsubject.trans hid.symm, hdata⟩

theorem Solves.tellsOf
    (h : Solves options graph outcomes flow) :
    ∀ outcome ∈ outcomes, Log.TellsOf outcome.id outcome.events := by
  intro outcome hmem
  obtain ⟨node, -, moment, hrun⟩ := h.runs outcome hmem
  rw [hrun, id_executeNode]
  exact tellsOf_executeNode options graph.id node _ moment

/-- The log of an outcome shows the output of the node exactly if there is one. -/
theorem Solves.outputs
    (h : Solves options graph outcomes flow) :
    ∀ outcome ∈ outcomes,
      Log.outputsIn outcome.id outcome.events =
        Execution.outputsOf outcome.result := by
  intro outcome hmem
  obtain ⟨node, -, moment, hrun⟩ := h.runs outcome hmem
  rw [hrun, id_executeNode]
  exact outputs_executeNode options graph.id node _ moment

/-- The input of a node with an outcome is the same for outputs that agree on such
nodes. -/
theorem Solves.assembleInput_eq
    (h : Solves options graph outcomes flow)
    (hinput : flow.get? inputKey = next.get? inputKey)
    (hsame : ∀ id ∈ outcomes.map NodeOutcome.id, flow.get? id = next.get? id)
    {id : String}
    (hid : id ∈ outcomes.map NodeOutcome.id) :
    assembleInput graph flow id = assembleInput graph next id := by
  refine assembleInput_congr hinput ?_
  intro edge hedge htarget _
  exact hsame edge.source (h.closed edge hedge (htarget ▸ hid))

/-- **Outputs of further nodes change no input.** -/
theorem Solves.extend
    (h : Solves options graph outcomes flow)
    (hinput : flow.get? inputKey = next.get? inputKey)
    (hsame : ∀ id ∈ outcomes.map NodeOutcome.id, flow.get? id = next.get? id) :
    Solves options graph outcomes next where
  runs outcome hmem := by
    rw [← h.assembleInput_eq hinput hsame (List.mem_map_of_mem hmem)]
    exact h.runs outcome hmem
  closed := h.closed

theorem Solves.append
    (h : Solves options graph outcomes flow)
    (hruns :
        ∀ outcome ∈ found,
          ∃ node,
            graph.nodes.get? outcome.id = some node ∧
            ∃ moment,
              outcome =
                executeNode options graph.id
                  (node, assembleInput graph flow outcome.id) moment)
    (hsources :
        ∀ id ∈ found.map NodeOutcome.id,
          ∀ edge ∈ graph.edges.values,
            edge.target = id → edge.source ∈ outcomes.map NodeOutcome.id) :
    Solves options graph (outcomes ++ found) flow where
  runs outcome hmem := by
    rcases List.mem_append.1 hmem with hmem | hmem
    · exact h.runs outcome hmem
    · exact hruns outcome hmem
  closed edge hedge htarget := by
    rw [List.map_append, List.mem_append] at htarget ⊢
    rcases htarget with hmem | hmem
    · exact Or.inl (h.closed edge hedge hmem)
    · exact Or.inl (hsources edge.target hmem edge hedge rfl)

theorem assembleInput_of_reset_eq
    (h : other.reset = graph.reset)
    (flow : DataFlow)
    (id : String) :
    assembleInput other flow id = assembleInput graph flow id := by
  rw [← assembleInput_reset other, h, assembleInput_reset]

/-! ## The course -/

/-- The account of a run whose outcomes solve the equations of its graph. The log tells
that the nodes of the outcomes were dispatched, and of no executions but theirs. -/
structure Course
    (setting : Setting)
    (start : Progress)
    (outcomes : List NodeOutcome)
    (progress : Progress) : Prop where
  account : Account setting.begun start outcomes [] progress
  nodup : (outcomes.map NodeOutcome.id).Nodup
  hasNode : ∀ id ∈ outcomes.map NodeOutcome.id, start.graph.hasNode id = true
  solves : Solves setting.options start.graph outcomes progress.flow
  dispatched : Log.dispatchedIn progress.events =
    Log.dispatchedIn start.events ++ outcomes.map NodeOutcome.id
  executions : Log.executionsIn progress.events =
    Log.executionsIn start.events ++ outcomes.flatMap NodeOutcome.events

variable {setting : Setting} {start progress : Progress}

theorem Course.initial
    (setting : Setting)
    (start : Progress) :
    Course setting start [] start where
  account := Account.initial setting.begun start
  nodup := by simp
  hasNode := by simp
  solves := Solves.nil setting.options start.graph start.flow
  dispatched := by simp
  executions := by simp

/-- The data that the log shows are shown at the start or by an execution. -/
theorem Course.shown
    (h : Course setting start outcomes progress)
    (subject : Log.Subject)
    (label : String)
    (data : Json)
    (hmem : Log.Event.preview subject label data ∈ progress.events) :
    Log.Event.preview subject label data ∈ start.events ∨
    ∃ outcome ∈ outcomes, Log.Event.preview subject label data ∈ outcome.events := by
  have hexecution := Log.mem_executionsIn.2 ⟨hmem, rfl⟩
  rw [h.executions] at hexecution
  rcases List.mem_append.1 hexecution with hstart | hfound
  · exact Or.inl (Log.mem_executionsIn.1 hstart).1
  · exact Or.inr (List.mem_flatMap.1 hfound)

/-- The progress after a level has been executed, before its outcomes are merged. -/
def executed (dispatched : Progress) (found : List NodeOutcome) : Progress :=
  { dispatched.log (found.flatMap NodeOutcome.events) with
    time := found.foldl (fun time outcome => max time outcome.finish) dispatched.time }

theorem runLevel_eq
    (setting : Setting)
    (progress : Progress)
    (index : Nat)
    (level : List String) :
    runLevel setting progress index level =
      (executeLevel setting.options (dispatch setting progress index level)
          level).foldl (merge setting)
        (executed (dispatch setting progress index level)
            (executeLevel setting.options
                (dispatch setting progress index level) level), none) :=
  rfl

theorem Account.executed
    {begun : Instant} {running : List String}
    (h : Account begun start outcomes running progress)
    (found : List NodeOutcome) :
    Account begun start outcomes running (executed progress found) :=
  ⟨h.graphId, h.metadata, h.state, h.nodes, h.edges, h.flow, h.completed, h.failed,
    h.errors, h.attempts⟩

/-- What the outputs hold for the nodes merged so far does not change later. -/
theorem Account.get?_flow_append
    {begun : Instant} {running running' : List String} {merged : Progress}
    (h : Account begun start outcomes running progress)
    (hmerged : Account begun start (outcomes ++ found) running' merged)
    {key : String}
    (hkey : key ∉ found.map NodeOutcome.id) :
    progress.flow.get? key = merged.flow.get? key := by
  rw [h.flow, hmerged.flow, completionOf, completionOf, outcomeOf_append,
    outcomeOf_eq_none_iff.2 hkey, Option.or_none]

/-- A dispatched level has one outcome for each of its nodes, in order. -/
theorem Account.map_id_executeLevel
    {begun : Instant} {running level : List String}
    (h : Account begun start outcomes running progress)
    (options : RunOptions)
    (hwell : start.graph.WellFormed)
    (hnodes : ∀ id ∈ level, start.graph.hasNode id = true) :
    (executeLevel options progress level).map NodeOutcome.id = level := by
  refine Run.map_id_executeLevel (h.wellFormed hwell) ?_
  intro id hid
  obtain ⟨node, hnode⟩ := Graph.hasNode_iff.1 (hnodes id hid)
  exact Graph.hasNode_iff.2 ⟨_, by rw [h.nodes, hnode]; rfl⟩

/-- The outcomes of a dispatched level are the executions of its nodes on the inputs of
that moment. -/
theorem Account.runs_executeLevel
    {begun : Instant} {running level : List String}
    (h : Account begun start outcomes running progress)
    (hwell : start.graph.WellFormed)
    {outcome : NodeOutcome}
    (hmem : outcome ∈ executeLevel options progress level) :
    ∃ node,
      start.graph.nodes.get? outcome.id = some node ∧
      ∃ moment,
        outcome =
          executeNode options start.graph.id
            (node, assembleInput start.graph progress.flow outcome.id) moment := by
  obtain ⟨node, hnode, -, moment, hrun⟩ := mem_executeLevel (h.wellFormed hwell) hmem
  have hinput := assembleInput_of_reset_eq h.reset_graph progress.flow outcome.id
  rw [hinput, h.graphId] at hrun
  rw [h.nodes] at hnode
  obtain ⟨origin, horigin, hafter⟩ := Option.map_eq_some_iff.1 hnode
  refine ⟨origin, horigin, moment, ?_⟩
  have hreset : node.reset = origin.reset := by
    rw [← hafter]
    exact reset_nodeOf outcome.id origin
  calc outcome
      = executeNode options start.graph.id
          (node, assembleInput start.graph progress.flow outcome.id) moment := hrun
    _ = executeNode options start.graph.id
          (origin, assembleInput start.graph progress.flow outcome.id) moment := by
        rw [← executeNode_reset, hreset, executeNode_reset]

/-- The executions of a level are all that it logs meanwhile. -/
theorem log_executed
    (dispatched : Progress)
    {found : List NodeOutcome}
    (h : ∀ outcome ∈ found, Log.TellsOf outcome.id outcome.events) :
    Log.dispatchedIn (executed dispatched found).events =
      Log.dispatchedIn dispatched.events ∧
    Log.executionsIn (executed dispatched found).events =
      Log.executionsIn dispatched.events ++ found.flatMap NodeOutcome.events := by
  have hfound : Log.dispatchedIn (found.flatMap NodeOutcome.events) = [] ∧
      Log.executionsIn (found.flatMap NodeOutcome.events) = found.flatMap
        NodeOutcome.events := by
    induction found with
    | nil => exact ⟨rfl, rfl⟩
    | cons outcome rest ih =>
        obtain ⟨hdispatched, hexecutions⟩ :=
          ih fun later hlater => h later (List.mem_cons_of_mem _ hlater)
        have hfirst := h outcome List.mem_cons_self
        rw [List.flatMap_cons, Log.dispatchedIn_append, Log.executionsIn_append, hdispatched,
          hexecutions, hfirst.dispatchedIn_eq, hfirst.executionsIn_eq]
        exact ⟨rfl, rfl⟩
  constructor
  · show Log.dispatchedIn (dispatched.events ++ found.flatMap NodeOutcome.events) = _
    rw [Log.dispatchedIn_append, hfound.1, List.append_nil]
  · show Log.executionsIn (dispatched.events ++ found.flatMap NodeOutcome.events) = _
    rw [Log.executionsIn_append, hfound.2]

/-- **What a level has read is not changed by what it puts out.** -/
theorem Course.solves_merged
    {dispatched merged : Progress} {running running' : List String}
    (hinput : start.graph.hasNode inputKey = false)
    (h : Course setting start outcomes progress)
    (hdispatched : Account setting.begun start outcomes running dispatched)
    (hmerged : Account setting.begun start (outcomes ++ found) running' merged)
    (hnodes : ∀ id ∈ found.map NodeOutcome.id, start.graph.hasNode id = true)
    (hnew : ∀ id ∈ found.map NodeOutcome.id, id ∉ outcomes.map NodeOutcome.id)
    (hsources :
        ∀ id ∈ found.map NodeOutcome.id,
          ∀ edge ∈ start.graph.edges.values,
            edge.target = id → edge.source ∈ outcomes.map NodeOutcome.id)
    (hruns :
        ∀ outcome ∈ found,
          ∃ node,
            start.graph.nodes.get? outcome.id = some node ∧
            ∃ moment,
              outcome =
                executeNode setting.options start.graph.id
                  (node, assembleInput start.graph dispatched.flow outcome.id) moment) :
    Solves setting.options start.graph (outcomes ++ found) merged.flow := by
  have hkey : inputKey ∉ found.map NodeOutcome.id := by
    intro hmem
    rw [hnodes inputKey hmem] at hinput
    cases hinput
  have hreads : ∀ id ∈ found.map NodeOutcome.id,
      assembleInput start.graph dispatched.flow id = assembleInput start.graph
        merged.flow id := by
    intro id hid
    refine assembleInput_congr (hdispatched.get?_flow_append hmerged hkey) ?_
    intro edge hedge htarget _
    refine hdispatched.get?_flow_append hmerged ?_
    intro hmem
    exact hnew edge.source hmem (hsources id hid edge hedge htarget)
  refine Solves.append (h.solves.extend (h.account.get?_flow_append hmerged hkey) ?_)
    ?_ hsources
  · intro id hid
    exact h.account.get?_flow_append hmerged fun hmem => hnew id hmem hid
  · intro outcome hmem
    rw [← hreads outcome.id (List.mem_map_of_mem hmem)]
    exact hruns outcome hmem

/-- **One level.** -/
theorem Course.runLevel
    {level : List String}
    (hwell : start.graph.WellFormed)
    (hinput : start.graph.hasNode inputKey = false)
    (h : Course setting start outcomes progress)
    (index : Nat)
    (hnodes : ∀ id ∈ level, start.graph.hasNode id = true)
    (hnodup : (outcomes.map NodeOutcome.id ++ level).Nodup)
    (hsources :
        ∀ id ∈ level,
          ∀ edge ∈ start.graph.edges.values,
            edge.target = id → edge.source ∈ outcomes.map NodeOutcome.id) :
    ∃ found merged,
      runLevel setting progress index level =
        (merged, found.findSome? (NodeOutcome.fatal? start.graph)) ∧
      found.map NodeOutcome.id = level ∧
      Course setting start (outcomes ++ found) merged := by
  have hnew : ∀ id ∈ level, id ∉ outcomes.map NodeOutcome.id := by
    intro id hid hmem
    exact (List.nodup_append.1 hnodup).2.2 id hmem id hid rfl
  have hdispatched : Account setting.begun start outcomes level
      (dispatch setting progress index level) := h.account.dispatch hnew
  obtain ⟨htold, hquiet⟩ := log_dispatch setting progress index level
  rw [runLevel_eq]
  -- From here on, all that counts about the dispatched level is its account.
  generalize dispatch setting progress index level = dispatched at hdispatched htold hquiet ⊢
  have hlevel := hdispatched.map_id_executeLevel setting.options hwell hnodes
  have hruns : ∀ outcome ∈ executeLevel setting.options dispatched level, _ :=
    fun outcome hmem => hdispatched.runs_executeLevel hwell hmem
  generalize executeLevel setting.options dispatched level = found at hlevel hruns ⊢
  subst hlevel
  have hids : ((outcomes ++ found).map NodeOutcome.id).Nodup := by
    rw [List.map_append]
    exact hnodup
  obtain ⟨merged, hfold, hmerged⟩ :=
    Account.mergeAll hwell found none (hdispatched.executed found) hids
  have hsolves : Solves setting.options start.graph (outcomes ++ found) merged.flow :=
    h.solves_merged hinput hdispatched hmerged hnodes hnew hsources hruns
  obtain ⟨hkept, hadded⟩ := log_executed dispatched fun outcome hmem =>
    hsolves.tellsOf outcome (List.mem_append_right _ hmem)
  have hquietMerge := quiet_mergeAll setting found (executed dispatched found, none)
  rw [hfold] at hquietMerge
  refine ⟨found, merged, by rw [hfold, Option.none_or], rfl, ?_⟩
  constructor
  case account => exact hmerged
  case nodup => exact hids
  case hasNode =>
    intro id hid
    rw [List.map_append, List.mem_append] at hid
    exact hid.elim (h.hasNode id) (hnodes id)
  case solves => exact hsolves
  case dispatched =>
    rw [hquietMerge.dispatched, hkept, htold, h.dispatched, List.map_append,
      List.append_assoc]
  case executions =>
    rw [hquietMerge.executions, hadded, hquiet, h.executions, List.flatMap_append,
      List.append_assoc]

/-- The outcomes of the levels that a run has passed and of the level at which it stops:
the first failure of this level that is not tolerated is the error of the run. -/
structure StopsAt
    (graph : Graph)
    (earlier : List (List String))
    (level : List String)
    (passed last : List NodeOutcome)
    (error : Error) : Prop where
  passed_ids : passed.map NodeOutcome.id = earlier.flatten
  last_ids : last.map NodeOutcome.id = level
  tolerated : ∀ outcome ∈ passed, outcome.fatal? graph = none
  error : last.findSome? (NodeOutcome.fatal? graph) = some error

/-- A run along some levels stops at one of them. -/
def Stops
    (graph : Graph)
    (levels : List (List String))
    (outcomes : List NodeOutcome)
    (error : Error) :
    Prop :=
  ∃ earlier level later passed last, levels = earlier ++ level :: later ∧ outcomes =
    passed ++ last ∧
    StopsAt graph earlier level passed last error

theorem Stops.here
    {level : List String} {error : Error}
    (rest : List (List String))
    (hids : found.map NodeOutcome.id = level)
    (herror : found.findSome? (NodeOutcome.fatal? graph) = some error) :
    Stops graph (level :: rest) found error :=
  ⟨[], level, rest, [], found, rfl, rfl, rfl, hids, by simp, herror⟩

/-- A run that passes a level stops at one of the levels after it. -/
theorem Stops.later
    {level : List String} {rest : List (List String)} {error : Error}
    {more : List NodeOutcome}
    (hids : found.map NodeOutcome.id = level)
    (hpassed : found.findSome? (NodeOutcome.fatal? graph) = none)
    (h : Stops graph rest more error) :
    Stops graph (level :: rest) (found ++ more) error := by
  obtain ⟨earlier, stop, later, passed, last, rfl, rfl, hstop⟩ := h
  refine ⟨level :: earlier, stop, later, found ++ passed, last, rfl,
    (List.append_assoc ..).symm, ?_⟩
  constructor
  case passed_ids => rw [List.map_append, hids, hstop.passed_ids, List.flatten_cons]
  case last_ids => exact hstop.last_ids
  case tolerated =>
    intro outcome hmem
    rcases List.mem_append.1 hmem with hmem | hmem
    · exact List.findSome?_eq_none_iff.1 hpassed outcome hmem
    · exact hstop.tolerated outcome hmem
  case error => exact hstop.error

theorem Stops.of_fatal?_eq
    {levels : List (List String)} {error : Error}
    (hsame : NodeOutcome.fatal? other = NodeOutcome.fatal? graph)
    (h : Stops other levels outcomes error) :
    Stops graph levels outcomes error := by
  obtain ⟨earlier, level, later, passed, last, hlevels, houtcomes, hstop⟩ := h
  exact ⟨earlier, level, later, passed, last, hlevels, houtcomes, hstop.passed_ids,
    hstop.last_ids, hsame ▸ hstop.tolerated, hsame ▸ hstop.error⟩

/-- Where a run stops, some failure is not tolerated. -/
theorem Stops.exists_fatal
    {levels : List (List String)} {error : Error}
    (h : Stops graph levels outcomes error) :
    ∃ outcome ∈ outcomes, outcome.fatal? graph = some error := by
  obtain ⟨_, _, _, passed, last, -, rfl, hstop⟩ := h
  obtain ⟨outcome, hmem, hfatal⟩ := List.exists_of_findSome?_eq_some hstop.error
  exact ⟨outcome, List.mem_append_right _ hmem, hfatal⟩

/-- **The levels of a schedule**, up to the first that aborts the run. -/
theorem Course.runLevels
    (hwell : start.graph.WellFormed)
    (hinput : start.graph.hasNode inputKey = false) :
    ∀ (levels : List (List String)) (index : Nat) {outcomes : List NodeOutcome}
      {progress : Progress},
      Course setting start outcomes progress →
      Schedule.Layered start.graph (outcomes.map NodeOutcome.id) levels →
      (∀ id ∈ levels.flatten, start.graph.hasNode id = true) →
      (outcomes.map NodeOutcome.id ++ levels.flatten).Nodup →
      ∃ found ended,
        runLevels setting index levels progress =
          (ended, found.findSome? (NodeOutcome.fatal? start.graph)) ∧
        Course setting start (outcomes ++ found) ended ∧
        (found.findSome? (NodeOutcome.fatal? start.graph) = none →
          found.map NodeOutcome.id = levels.flatten) ∧
        ∀ error,
          found.findSome? (NodeOutcome.fatal? start.graph) = some error →
          Stops start.graph levels found error
  | [], index, outcomes, progress, h, _, _, _ =>
      ⟨[], progress, rfl, by simpa using h, fun _ => rfl, by simp⟩
  | level :: rest, index, outcomes, progress, h, hlayered, hnodes, hnodup => by
      rw [List.flatten_cons] at hnodes hnodup
      rw [← List.append_assoc] at hnodup
      obtain ⟨found, merged, hrun, hids, hcourse⟩ := h.runLevel hwell hinput index
        (fun id hid => hnodes id (List.mem_append_left _ hid)) (List.nodup_append.1 hnodup).1
        hlayered.1
      unfold Run.runLevels
      rw [hrun]
      cases habort : found.findSome? (NodeOutcome.fatal? start.graph) with
      | some error =>
          refine ⟨found, merged, by rw [habort], hcourse, by simp [habort], ?_⟩
          exact fun error' herror => Stops.here rest hids herror
      | none =>
          have hdone : (outcomes ++ found).map NodeOutcome.id =
              outcomes.map NodeOutcome.id ++ level := by
            rw [List.map_append, hids]
          obtain ⟨more, ended, hrest, hended, hall, hstops⟩ :=
            Course.runLevels hwell hinput rest (index + 1)
            hcourse (by rw [hdone]; exact hlayered.2)
            (fun id hid => hnodes id (List.mem_append_right _ hid))
              (by rw [hdone]; exact hnodup)
          have hjoined : (found ++ more).findSome? (NodeOutcome.fatal? start.graph) =
              more.findSome? (NodeOutcome.fatal? start.graph) := by
            rw [List.findSome?_append, habort, Option.none_or]
          refine ⟨found ++ more, ended, by rw [hjoined]; exact hrest, ?_, ?_, ?_⟩
          · rw [← List.append_assoc]
            exact hended
          · rw [hjoined]
            intro hnone
            rw [List.map_append, hids, hall hnone, List.flatten_cons]
          · rw [hjoined]
            exact fun error herror => (hstops error herror).later hids habort

/-! ## A whole run -/

/-- How far a run has come before its first level. -/
def opening
    (graph : Graph)
    (input : Json)
    (options : RunOptions)
    (order : List String)
    (levels : List (List String)) :
    Progress :=
  { graph :=
      { graph with
        state := { graph.state with
          running := true
          executionOrder := order
          lastError := "" } }
    flow := if input.isNull then KeyMap.empty else KeyMap.empty.insert inputKey input
    events := [.pipelineStart graph.id graph.metadata.name graph.nodes.size levels.length
      options.parallel] }

theorem runAlong_eq (setting : Setting) (graph : Graph) (input : Json) (order : List String)
    (levels : List (List String)) :
    runAlong setting graph input order levels =
      match runLevels setting 0 levels
        (opening graph input setting.options order levels) with
      | (ended, none) => finished ended order levels
      | (ended, some error) => aborted ended error :=
  rfl

/-- A run whose levels are known goes along them. -/
theorem run_eq_runAlong
    {input : Json} {observers : Observers} {now : Instant} {order : List String}
    {levels : List (List String)}
    (hinput : graph.hasNode inputKey = false)
    (horder : Schedule.executionOrder graph = .ok order)
    (hlevels : levelsFor options graph order = .ok levels) :
    run graph input options observers now =
      runAlong ⟨options, observers, now⟩ graph input order levels := by
  simp [run, hinput, horder, hlevels]

/-- At first no node has an output. -/
theorem get?_flow_opening
    {input : Json} {order : List String} {levels : List (List String)}
    {key : String}
    (hkey : key ≠ inputKey) :
    (opening graph input options order levels).flow.get? key = none := by
  unfold opening
  dsimp only
  split
  · rfl
  · rw [KeyMap.get?_insert, if_neg (Ne.symm hkey)]
    rfl

theorem wellFormed_opening
    (hwell : graph.WellFormed)
    (input : Json)
    (options : RunOptions)
    (order : List String)
    (levels : List (List String)) :
    (opening graph input options order levels).graph.WellFormed :=
  hwell.of_same rfl (Graph.SameNodeIds.refl graph) (Graph.SameEdgeIds.refl graph)

/-- Whichever way the levels are chosen, they are a schedule. -/
theorem levelsFor_isSchedule
    (options : RunOptions)
    {order : List String}
    (h : Schedule.IsOrder graph order) :
    ∃ levels,
      levelsFor options graph order = .ok levels ∧
      Schedule.IsSchedule graph levels := by
  unfold levelsFor
  split
  · exact Schedule.levels_isSchedule h
  · exact ⟨_, rfl, Schedule.sequentialLevels_isSchedule h⟩

/-- A run that has ended: its levels, its outcomes, and how far it had come. -/
structure Transcript
    (setting : Setting)
    (graph : Graph)
    (input : Json)
    (order : List String)
    (levels : List (List String))
    (outcomes : List NodeOutcome)
    (ended : Progress) : Prop where
  schedule : Schedule.IsSchedule graph levels
  course :
    Course setting (opening graph input setting.options order levels) outcomes ended

/-- **A run of a graph that has an order** comes to its end, all its nodes merged, or it
stops at one of its levels. -/
theorem course_of_order
    (options : RunOptions)
    (input : Json)
    (observers : Observers)
    (now : Instant)
    {order : List String}
    (hwell : graph.WellFormed)
    (hinput : graph.hasNode inputKey = false)
    (horder : Schedule.executionOrder graph = .ok order) :
    ∃ levels outcomes ended,
      levelsFor options graph order = .ok levels ∧
      Transcript ⟨options, observers, now⟩ graph input order levels outcomes
        ended ∧
      ((∀ outcome ∈ outcomes, outcome.fatal? graph = none) ∧
        outcomes.map NodeOutcome.id = levels.flatten ∧
        run graph input options observers now = finished ended order levels ∨
        ∃ error,
          Stops graph levels outcomes error ∧
          run graph input options observers now = aborted ended error) := by
  obtain ⟨levels, hlevels, hschedule⟩ :=
    levelsFor_isSchedule options (Schedule.executionOrder_isOrder horder)
  have hstart := wellFormed_opening hwell input options order levels
  have hlayered :
      Schedule.Layered (opening graph input options order levels).graph []
        levels := by
    refine hschedule.layered.of_edges_eq ?_
    rfl
  obtain ⟨outcomes, ended, hlast, hcourse, hall, hstops⟩ :=
    Course.runLevels hstart hinput levels 0
    (Course.initial ⟨options, observers, now⟩ (opening graph input options order levels))
    hlayered (fun id hid => hschedule.mem_iff.1 hid) hschedule.nodup
  have hfatal : NodeOutcome.fatal? (opening graph input options order levels).graph =
      NodeOutcome.fatal? graph := rfl
  rw [hfatal] at hlast hall hstops
  refine ⟨levels, outcomes, ended, hlevels, ⟨hschedule, hcourse⟩, ?_⟩
  rw [run_eq_runAlong hinput horder hlevels, runAlong_eq, hlast]
  cases habort : outcomes.findSome? (NodeOutcome.fatal? graph) with
  | none => exact Or.inl ⟨List.findSome?_eq_none_iff.1 habort, hall habort, rfl⟩
  | some error => exact Or.inr ⟨error, (hstops error habort).of_fatal?_eq hfatal, rfl⟩

theorem Transcript.not_input_of_mem
    {input : Json} {order : List String} {levels : List (List String)}
    {ended : Progress}
    (h : Transcript setting graph input order levels outcomes ended)
    (hinput : graph.hasNode inputKey = false)
    {id : String}
    (hid : id ∈ outcomes.map NodeOutcome.id) :
    id ≠ inputKey := by
  rintro rfl
  have hnode : graph.hasNode inputKey = true := h.course.hasNode inputKey hid
  rw [hinput] at hnode
  cases hnode

/-- The outputs hold for a node what its result says. -/
theorem Transcript.get?_flow
    {input : Json} {order : List String} {levels : List (List String)}
    {ended : Progress}
    (h : Transcript setting graph input order levels outcomes ended)
    {id : String}
    (hid : id ≠ inputKey) :
    ended.flow.get? id = (completionOf outcomes id).map Completion.output := by
  rw [h.course.account.flow, get?_flow_opening hid, Option.or_none]

/-- The outputs hold the initial input as it was given. -/
theorem Transcript.get?_flow_input
    {input : Json} {order : List String} {levels : List (List String)}
    {ended : Progress}
    (h : Transcript setting graph input order levels outcomes ended)
    (hinput : graph.hasNode inputKey = false) :
    ended.flow.get? inputKey =
      (opening graph input setting.options order levels).flow.get? inputKey := by
  have hnone : outcomeOf outcomes inputKey = none :=
    outcomeOf_eq_none_iff.2 fun hmem => h.not_input_of_mem hinput hmem rfl
  rw [h.course.account.flow, completionOf, hnone]
  rfl

/-- The run came to its end: every node has an outcome, and no failure was left
untolerated. -/
structure Returned
    (setting : Setting)
    (graph : Graph)
    (input : Json)
    (order : List String)
    (levels : List (List String))
    (outcomes : List NodeOutcome)
    (ended : Progress) :
    Prop extends Transcript setting graph input order levels outcomes ended where
  input_not_node : graph.hasNode inputKey = false
  order_eq : Schedule.executionOrder graph = .ok order
  tolerated : ∀ outcome ∈ outcomes, outcome.fatal? graph = none
  all : outcomes.map NodeOutcome.id = levels.flatten

/-- A run that returns a result has come to its end. -/
theorem returned_of_run
    {input : Json} {observers : Observers} {now : Instant} {result : RunResult}
    (hwell : graph.WellFormed)
    (h : (run graph input options observers now).outcome = .ok result) :
    ∃ order levels outcomes ended,
      Returned ⟨options, observers, now⟩ graph input order levels outcomes
        ended ∧
      run graph input options observers now = finished ended order levels := by
  cases hinput : graph.hasNode inputKey with
  | true => simp [run, hinput, refuse] at h
  | false =>
      cases horder : Schedule.executionOrder graph with
      | error error => simp [run, hinput, horder, unordered] at h
      | ok order =>
          obtain ⟨levels, outcomes, ended, -, htranscript, hend⟩ :=
            course_of_order options input observers now hwell hinput horder
          rcases hend with ⟨hfatal, hall, hrun⟩ | ⟨error, -, hrun⟩
          · exact ⟨order, levels, outcomes, ended,
              ⟨htranscript, hinput, horder, hfatal, hall⟩, hrun⟩
          · rw [hrun] at h
            cases h

/-- Every node has an outcome in a run that came to its end. -/
theorem Returned.outcomeOf_node
    {input : Json} {order : List String} {levels : List (List String)}
    {ended : Progress}
    (h : Returned setting graph input order levels outcomes ended)
    {id : String}
    (hid : graph.hasNode id = true) :
    ∃ outcome ∈ outcomes, outcome.id = id ∧ outcomeOf outcomes id = some outcome := by
  have hmem : id ∈ outcomes.map NodeOutcome.id := by
    rw [h.all]
    exact h.schedule.mem_iff.2 hid
  obtain ⟨outcome, houtcome, rfl⟩ := List.mem_map.1 hmem
  exact ⟨outcome, houtcome, rfl, outcomeOf_of_mem h.course.nodup houtcome⟩

end Run

end PhaseFlow
