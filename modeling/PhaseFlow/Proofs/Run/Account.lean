import Mathlib.Data.List.Nodup
import PhaseFlow.Proofs.Run.Answer
import PhaseFlow.Proofs.Run.Log

/-!
# The account of a run

How far a run has come is settled by the outcomes that have been merged. `Account` says
how: the graph, the outputs, the errors and the lists of completed and failed nodes are
those of the start, changed by each outcome, and the nodes that are dispatched but not
merged yet are running.

Observers change none of this (`SameCourse.notify`). A dispatched level is
`Account.dispatch`, one merged outcome is `Account.merge`, and the outcomes of a level
are `Account.mergeAll`, which also says which failure aborts the run.
-/

namespace PhaseFlow

namespace Run

/-! ## Reading outcomes -/

def outcomeOf (outcomes : List NodeOutcome) (id : String) : Option NodeOutcome :=
  outcomes.find? fun outcome => outcome.id = id

def completionOf
    (outcomes : List NodeOutcome)
    (id : String) :
    Option Completion :=
  (outcomeOf outcomes id).bind fun outcome => outcome.result.toOption

def errorOf (outcomes : List NodeOutcome) (id : String) : Option Error :=
  (outcomeOf outcomes id).bind fun outcome =>
    match outcome.result with
    | .ok _ => none
    | .error error => some error

/-- Whether a graph tolerates the failure of a node with an error. -/
def tolerates (graph : Graph) (id : String) (error : Error) : Bool :=
  isPhaseFailure error && (graph.nodes.get? id).any Node.continuesOnError

/-- The failure of an outcome that a graph does not tolerate. -/
def NodeOutcome.fatal? (graph : Graph) (outcome : NodeOutcome) : Option Error :=
  match outcome.result with
  | .ok _ => none
  | .error error => if tolerates graph outcome.id error then none else some error

def completedIn (outcomes : List NodeOutcome) : List String :=
  (outcomes.filter fun outcome => outcome.result.isOk).map NodeOutcome.id

/-- The nodes that failed and were tolerated. -/
def toleratedIn (graph : Graph) (outcomes : List NodeOutcome) : List String :=
  (outcomes.filter fun outcome => !outcome.result.isOk && (outcome.fatal? graph).isNone).map
    NodeOutcome.id

def nodeAfter (begun : Instant) (outcome : NodeOutcome) (node : Node) : Node :=
  match outcome.result with
  | .ok _ => node.succeeded (begun.later outcome.finish)
  | .error _ => node.failed (begun.later outcome.finish)

def edgeAfter (outcomes : List NodeOutcome) (edge : Edge) : Edge :=
  if edge.active then
    match completionOf outcomes edge.source with
    | some done => edge.passed done.output.byteSize
    | none => edge
  else edge

theorem outcomeOf_append
    (outcomes more : List NodeOutcome)
    (id : String) :
    outcomeOf (outcomes ++ more) id =
      (outcomeOf outcomes id).or (outcomeOf more id) :=
  List.find?_append

/-- A node has no outcome exactly if none of the outcomes is its own. -/
theorem outcomeOf_eq_none_iff
    {outcomes : List NodeOutcome} {id : String} :
    outcomeOf outcomes id = none ↔ id ∉ outcomes.map NodeOutcome.id := by
  simp [outcomeOf, List.find?_eq_none]

theorem outcomeOf_singleton
    (outcome : NodeOutcome)
    (id : String) :
    outcomeOf [outcome] id = if outcome.id = id then some outcome else none := by
  by_cases h : outcome.id = id <;> simp [outcomeOf, h]

theorem mem_of_outcomeOf
    {outcomes : List NodeOutcome} {id : String} {outcome : NodeOutcome}
    (h : outcomeOf outcomes id = some outcome) :
    outcome ∈ outcomes ∧ outcome.id = id :=
  ⟨List.mem_of_find?_eq_some h, by simpa using List.find?_some h⟩

/-- If every node has one outcome at most, each outcome is found. -/
theorem outcomeOf_of_mem
    {outcomes : List NodeOutcome}
    (hnodup : (outcomes.map NodeOutcome.id).Nodup)
    {outcome : NodeOutcome}
    (h : outcome ∈ outcomes) :
    outcomeOf outcomes outcome.id = some outcome := by
  cases hfind : outcomeOf outcomes outcome.id with
  | none => exact absurd (List.mem_map_of_mem h) (outcomeOf_eq_none_iff.1 hfind)
  | some other =>
      obtain ⟨hmem, hid⟩ := mem_of_outcomeOf hfind
      rw [List.inj_on_of_nodup_map hnodup hmem h hid]

/-- The nodes whose outcomes pass a test. -/
theorem mem_map_id_filter
    {outcomes : List NodeOutcome}
    (hnodup : (outcomes.map NodeOutcome.id).Nodup)
    {keep : NodeOutcome → Bool} {id : String} :
    id ∈ (outcomes.filter keep).map NodeOutcome.id ↔
      ∃ outcome, outcomeOf outcomes id = some outcome ∧ keep outcome = true := by
  rw [List.mem_map]
  constructor
  · rintro ⟨outcome, hmem, rfl⟩
    obtain ⟨houtcome, hkeep⟩ := List.mem_filter.1 hmem
    exact ⟨outcome, outcomeOf_of_mem hnodup houtcome, hkeep⟩
  · rintro ⟨outcome, houtcome, hkeep⟩
    obtain ⟨hmem, hid⟩ := mem_of_outcomeOf houtcome
    exact ⟨outcome, List.mem_filter.2 ⟨hmem, hkeep⟩, hid⟩

/-- What is read off the outcome of a node, after one more outcome. -/
theorem bind_outcomeOf_snoc
    {α : Type}
    (read : NodeOutcome → Option α)
    {outcomes : List NodeOutcome} {outcome : NodeOutcome}
    (hnew : outcome.id ∉ outcomes.map NodeOutcome.id)
    (id : String) :
    (outcomeOf (outcomes ++ [outcome]) id).bind read =
      if outcome.id = id then
        read outcome
      else (outcomeOf outcomes id).bind read := by
  rw [outcomeOf_append, outcomeOf_singleton]
  by_cases hid : outcome.id = id
  · subst hid
    simp [outcomeOf_eq_none_iff.2 hnew]
  · simp [hid]

/-- A node is completed by its outcome. -/
theorem completionOf_eq_some_iff
    {outcomes : List NodeOutcome} {id : String} {done : Completion} :
    completionOf outcomes id = some done ↔
      ∃ outcome,
        outcomeOf outcomes id = some outcome ∧ outcome.result = .ok done := by
  rw [completionOf, Option.bind_eq_some_iff]
  refine exists_congr fun outcome => and_congr_right fun _ => ?_
  cases outcome.result <;> simp [Except.toOption]

/-- A node has failed by its outcome. -/
theorem errorOf_eq_some_iff
    {outcomes : List NodeOutcome} {id : String} {error : Error} :
    errorOf outcomes id = some error ↔
      ∃ outcome,
        outcomeOf outcomes id = some outcome ∧ outcome.result = .error error := by
  rw [errorOf, Option.bind_eq_some_iff]
  refine exists_congr fun outcome => and_congr_right fun _ => ?_
  cases outcome.result <;> simp

/-- The completed nodes are the nodes with a completion. -/
theorem mem_completedIn
    {outcomes : List NodeOutcome}
    (hnodup : (outcomes.map NodeOutcome.id).Nodup)
    {id : String} :
    id ∈ completedIn outcomes ↔ ∃ done, completionOf outcomes id = some done := by
  rw [completedIn, mem_map_id_filter hnodup]
  constructor
  · rintro ⟨outcome, houtcome, hok⟩
    cases hresult : outcome.result with
    | error error => simp [hresult, Except.isOk, Except.toBool] at hok
    | ok done => exact ⟨done, completionOf_eq_some_iff.2 ⟨outcome, houtcome, hresult⟩⟩
  · rintro ⟨done, hdone⟩
    obtain ⟨outcome, houtcome, hresult⟩ := completionOf_eq_some_iff.1 hdone
    exact ⟨outcome, houtcome, by simp [hresult, Except.isOk, Except.toBool]⟩

/-- The failed nodes on record are the nodes with an error that is tolerated. -/
theorem mem_toleratedIn
    {graph : Graph} {outcomes : List NodeOutcome}
    (hnodup : (outcomes.map NodeOutcome.id).Nodup)
    {id : String} :
    id ∈ toleratedIn graph outcomes ↔
      ∃ error,
        errorOf outcomes id = some error ∧ tolerates graph id error = true := by
  rw [toleratedIn, mem_map_id_filter hnodup]
  constructor
  · rintro ⟨outcome, houtcome, hfailed⟩
    obtain ⟨-, rfl⟩ := mem_of_outcomeOf houtcome
    cases hresult : outcome.result with
    | ok done => simp [hresult, Except.isOk, Except.toBool] at hfailed
    | error error =>
        refine ⟨error, errorOf_eq_some_iff.2 ⟨outcome, houtcome, hresult⟩, ?_⟩
        by_contra htolerates
        simp [hresult, NodeOutcome.fatal?, htolerates] at hfailed
  · rintro ⟨error, herror, htolerates⟩
    obtain ⟨outcome, houtcome, hresult⟩ := errorOf_eq_some_iff.1 herror
    obtain ⟨-, rfl⟩ := mem_of_outcomeOf houtcome
    exact ⟨outcome, houtcome, by
      simp [hresult, NodeOutcome.fatal?, htolerates, Except.isOk, Except.toBool]⟩

/-- An outcome is not fatal if its failure, should it be one, is tolerated. -/
theorem fatal?_eq_none_iff
    {graph : Graph} {outcome : NodeOutcome} :
    outcome.fatal? graph = none ↔
      ∀ failure,
        outcome.result = .error failure →
        tolerates graph outcome.id failure = true := by
  unfold NodeOutcome.fatal?
  cases outcome.result with
  | ok done => simp
  | error error => simp

theorem fatal?_eq_some_iff
    {graph : Graph} {outcome : NodeOutcome} {error : Error} :
    outcome.fatal? graph = some error ↔
      outcome.result = .error error ∧ tolerates graph outcome.id error = false := by
  unfold NodeOutcome.fatal?
  cases outcome.result with
  | ok done => simp
  | error failure =>
      dsimp only
      split
      · next htolerated =>
          constructor
          · intro h
            cases h
          · rintro ⟨heq, hnot⟩
            cases heq
            rw [htolerated] at hnot
            cases hnot
      · next hnot =>
          constructor
          · intro h
            cases h
            exact ⟨rfl, by simpa using hnot⟩
          · rintro ⟨heq, -⟩
            cases heq
            rfl

theorem nodup_map_id_filter
    {outcomes : List NodeOutcome}
    (hnodup : (outcomes.map NodeOutcome.id).Nodup)
    (keep : NodeOutcome → Bool) :
    ((outcomes.filter keep).map NodeOutcome.id).Nodup :=
  (List.filter_sublist.map NodeOutcome.id).nodup hnodup

/-! ## What observers leave alone -/

/-- The second log tells of no dispatched node and of no execution but those of the
first one. -/
structure Quiet (events next : List Log.Event) : Prop where
  dispatched : Log.dispatchedIn next = Log.dispatchedIn events
  executions : Log.executionsIn next = Log.executionsIn events

theorem Quiet.refl (events : List Log.Event) : Quiet events events :=
  ⟨rfl, rfl⟩

theorem Quiet.trans
    {events next last : List Log.Event}
    (h : Quiet events next)
    (hlast : Quiet next last) :
    Quiet events last :=
  ⟨hlast.dispatched.trans h.dispatched, hlast.executions.trans h.executions⟩

theorem Quiet.snoc
    (events : List Log.Event)
    {event : Log.Event}
    (hdispatched : event.dispatched = [])
    (hexecuting : event.executing? = none) :
    Quiet events (events ++ [event]) := by
  constructor
  · rw [Log.dispatchedIn_append]
    simp [Log.dispatchedIn, hdispatched]
  · rw [Log.executionsIn_append]
    simp [Log.executionsIn, hexecuting]

/-- Two stages of a run that differ in what was logged and told only. -/
structure SameCourse (progress next : Progress) : Prop where
  graph : next.graph = progress.graph
  flow : next.flow = progress.flow
  completed : next.completed = progress.completed
  failed : next.failed = progress.failed
  errors : next.errors = progress.errors
  records : next.records = progress.records
  time : next.time = progress.time
  quiet : Quiet progress.events next.events

theorem SameCourse.refl (progress : Progress) : SameCourse progress progress :=
  ⟨rfl, rfl, rfl, rfl, rfl, rfl, rfl, Quiet.refl progress.events⟩

theorem SameCourse.trans
    {progress next last : Progress}
    (h : SameCourse progress next)
    (hlast : SameCourse next last) :
    SameCourse progress last :=
  ⟨hlast.graph.trans h.graph, hlast.flow.trans h.flow, hlast.completed.trans h.completed,
    hlast.failed.trans h.failed, hlast.errors.trans h.errors, hlast.records.trans h.records,
    hlast.time.trans h.time, h.quiet.trans hlast.quiet⟩

/-- Logging an event that tells of nothing leaves the course alone. -/
theorem SameCourse.log
    (progress : Progress)
    {event : Log.Event}
    (hdispatched : event.dispatched = [])
    (hexecuting : event.executing? = none) :
    SameCourse progress (progress.log [event]) :=
  ⟨rfl, rfl, rfl, rfl, rfl, rfl, rfl, Quiet.snoc progress.events hdispatched hexecuting⟩

theorem SameCourse.appendFailed
    {progress next : Progress}
    (h : SameCourse progress next)
    (ids : List String) :
    SameCourse { progress with failed := progress.failed ++ ids }
      { next with failed := next.failed ++ ids } where
  graph := h.graph
  flow := h.flow
  completed := h.completed
  failed := by
    dsimp only
    rw [h.failed]
  errors := h.errors
  records := h.records
  time := h.time
  quiet := h.quiet

/-- Telling an observer changes what was told and logged only. -/
theorem SameCourse.tell
    (node : Node)
    (progress : Progress)
    (numbered : Observer × Nat) :
    SameCourse progress (Progress.tell node progress numbered) := by
  obtain ⟨observer, number⟩ := numbered
  unfold Progress.tell
  dsimp only
  split
  · split
    · exact ⟨rfl, rfl, rfl, rfl, rfl, rfl, rfl, Quiet.refl progress.events⟩
    · refine SameCourse.trans ?_ (SameCourse.log _ rfl rfl)
      exact ⟨rfl, rfl, rfl, rfl, rfl, rfl, rfl, Quiet.refl progress.events⟩
  · exact SameCourse.refl progress

theorem SameCourse.foldl
    {ι : Type} {step : Progress → ι → Progress}
    (hstep : ∀ progress item, SameCourse progress (step progress item)) :
    ∀ (items : List ι) (progress : Progress),
      SameCourse progress (items.foldl step progress)
  | [], progress => SameCourse.refl progress
  | item :: rest, progress =>
      (hstep progress item).trans (SameCourse.foldl hstep rest (step progress item))

/-- **Observers leave the course of a run alone.** -/
theorem SameCourse.notify
    (setting : Setting)
    (progress : Progress)
    (id : String) :
    SameCourse progress (Progress.notify setting progress id) := by
  unfold Progress.notify
  split
  · exact SameCourse.refl progress
  · exact SameCourse.foldl (SameCourse.tell _) _ progress

/-! ## The account -/

/-- The node of an id after the outcomes, marked if it is running. -/
def nodeOf
    (begun : Instant)
    (outcomes : List NodeOutcome)
    (running : List String)
    (id : String)
    (node : Node) :
    Node :=
  match outcomeOf outcomes id with
  | some outcome => nodeAfter begun outcome node
  | none => if id ∈ running then node.dispatched else node

/-- How far a run has come after some outcomes, while some nodes are running. -/
structure Account
    (begun : Instant)
    (start : Progress)
    (outcomes : List NodeOutcome)
    (running : List String)
    (progress : Progress) : Prop where
  graphId : progress.graph.id = start.graph.id
  metadata : progress.graph.metadata = start.graph.metadata
  state : progress.graph.state =
    { start.graph.state with currentPhase := progress.graph.state.currentPhase }
  nodes : ∀ id, progress.graph.nodes.get? id =
    (start.graph.nodes.get? id).map (nodeOf begun outcomes running id)
  edges : ∀ id, progress.graph.edges.get? id =
    (start.graph.edges.get? id).map (edgeAfter outcomes)
  flow : ∀ key, progress.flow.get? key =
    ((completionOf outcomes key).map Completion.output).or (start.flow.get? key)
  completed : progress.completed = start.completed ++ completedIn outcomes
  failed : progress.failed = start.failed ++ toleratedIn start.graph outcomes
  errors : ∀ id, progress.errors.get? id =
    ((errorOf outcomes id).map Error.message).or (start.errors.get? id)
  attempts : ∀ id, (progress.records.get? id).map PhaseRecord.attempts =
    ((completionOf outcomes id).map Completion.attempts).or
      ((start.records.get? id).map PhaseRecord.attempts)

variable {begun : Instant} {start progress next : Progress}
variable {outcomes : List NodeOutcome} {running : List String}

theorem edgeAfter_nil (edge : Edge) : edgeAfter [] edge = edge := by
  unfold edgeAfter
  split <;> rfl

/-- Before anything has run, there is nothing to account for. -/
theorem Account.initial
    (begun : Instant)
    (progress : Progress) :
    Account begun progress [] [] progress where
  graphId := rfl
  metadata := rfl
  state := rfl
  nodes id := by
    have hnode : nodeOf begun [] [] id = fun node => node := rfl
    rw [hnode, Option.map_id']
  edges id := by
    have hedge : edgeAfter [] = fun edge => edge := funext edgeAfter_nil
    rw [hedge, Option.map_id']
  flow _ := rfl
  completed := by simp [completedIn]
  failed := by simp [toleratedIn]
  errors _ := rfl
  attempts _ := rfl

/-- The account does not depend on what was told and logged. -/
theorem Account.of_same
    (h : Account begun start outcomes running progress)
    (hsame : SameCourse progress next) :
    Account begun start outcomes running next where
  graphId := by rw [hsame.graph]; exact h.graphId
  metadata := by rw [hsame.graph]; exact h.metadata
  state := by rw [hsame.graph]; exact h.state
  nodes := by rw [hsame.graph]; exact h.nodes
  edges := by rw [hsame.graph]; exact h.edges
  flow := by rw [hsame.flow]; exact h.flow
  completed := by rw [hsame.completed]; exact h.completed
  failed := by rw [hsame.failed]; exact h.failed
  errors := by rw [hsame.errors]; exact h.errors
  attempts := by rw [hsame.records]; exact h.attempts

/-- What has run shows in the statistics of a node only. -/
theorem reset_nodeOf
    (id : String)
    (node : Node) :
    (nodeOf begun outcomes running id node).reset = node.reset := by
  unfold nodeOf nodeAfter
  split
  · split <;> rfl
  · split <;> rfl

theorem reset_edgeAfter
    (edge : Edge) :
    (edgeAfter outcomes edge).reset = edge.reset := by
  unfold edgeAfter
  split
  · split <;> rfl
  · rfl

/-- **A run changes statistics only.** -/
theorem Account.reset_graph
    (h : Account begun start outcomes running progress) :
    progress.graph.reset = start.graph.reset := by
  have hnodes : progress.graph.nodes.map Node.reset = start.graph.nodes.map Node.reset := by
    refine KeyMap.ext_get? ?_
    intro id
    rw [KeyMap.get?_map, KeyMap.get?_map, h.nodes, Option.map_map]
    congr 1
    exact funext fun node => reset_nodeOf id node
  have hedges : progress.graph.edges.map Edge.reset = start.graph.edges.map Edge.reset := by
    refine KeyMap.ext_get? ?_
    intro id
    rw [KeyMap.get?_map, KeyMap.get?_map, h.edges, Option.map_map]
    congr 1
    exact funext fun edge => reset_edgeAfter edge
  unfold Graph.reset
  rw [h.graphId, h.metadata, hnodes, hedges]

/-- An account does not touch what makes the graph well-formed. -/
theorem Account.wellFormed
    (h : Account begun start outcomes running progress)
    (hstart : start.graph.WellFormed) :
    progress.graph.WellFormed := by
  rw [← Graph.wellFormed_reset_iff, h.reset_graph, Graph.wellFormed_reset_iff]
  exact hstart

/-! ## Passing an output on -/

/-- A change of edges with distinct ids is made once at each. -/
theorem foldl_modifyEdge
    (change : Edge → Edge)
    {edges : List Edge}
    (graph : Graph)
    (key : String)
    (hnodup : (edges.map Edge.id).Nodup) :
    (edges.foldl
        (fun graph edge => graph.modifyEdge edge.id change) graph).edges.get?
      key =
      (graph.edges.get? key).map fun stored =>
        if key ∈ edges.map Edge.id then change stored else stored := by
  have hedges :
      (edges.foldl (fun graph edge => graph.modifyEdge edge.id change)
          graph).edges =
        (edges.map Edge.id).foldl (fun stored id => stored.modify id change)
          graph.edges := by
    clear hnodup
    induction edges generalizing graph with
    | nil => rfl
    | cons edge rest ih => exact ih (graph.modifyEdge edge.id change)
  rw [hedges]
  exact KeyMap.get?_foldl_modify (fun _ => change) hnodup graph.edges key

theorem skeleton_passOutput
    (graph : Graph)
    (id : String)
    (size : Nat) :
    (passOutput graph id size).nodes = graph.nodes ∧
    (passOutput graph id size).id = graph.id ∧
    (passOutput graph id size).metadata = graph.metadata ∧
    (passOutput graph id size).state = graph.state := by
  unfold passOutput
  generalize (graph.outgoing id).filter Edge.active = edges
  induction edges generalizing graph with
  | nil => exact ⟨rfl, rfl, rfl, rfl⟩
  | cons edge rest ih => exact ih (graph.modifyEdge edge.id fun stored => stored.passed size)

/-- **An output moves the counters of the active edges of its node, each once.** -/
theorem get?_passOutput
    {graph : Graph}
    (h : graph.WellFormed)
    (id : String)
    (size : Nat)
    (key : String) :
    (passOutput graph id size).edges.get? key =
      (graph.edges.get? key).map fun edge =>
        if edge.source = id ∧ edge.active = true then edge.passed size else edge := by
  have hsub : ((graph.outgoing id).filter Edge.active).Sublist graph.edges.values :=
    List.filter_sublist.trans List.filter_sublist
  have hnodup : (((graph.outgoing id).filter Edge.active).map Edge.id).Nodup := by
    refine (hsub.map Edge.id).nodup ?_
    rw [h.map_id_values]
    exact graph.edges.nodup_keys
  unfold passOutput
  rw [foldl_modifyEdge _ graph key hnodup]
  cases hfound : graph.edges.get? key with
  | none => rfl
  | some edge =>
      have hmem : key ∈ ((graph.outgoing id).filter Edge.active).map Edge.id ↔
          edge.source = id ∧ edge.active = true := by
        rw [List.mem_map]
        constructor
        · rintro ⟨other, hother, hid⟩
          have hvalue := hsub.subset hother
          have hsame : other = edge := by
            have hget := h.get?_id hvalue
            rw [hid, hfound] at hget
            exact (Option.some.inj hget).symm
          subst hsame
          simpa [Graph.outgoing, List.mem_filter, hvalue, and_comm] using hother
        · intro hedge
          refine ⟨edge, ?_, h.edge_id hfound⟩
          have hvalue := (graph.edges.mem_values_iff edge).2 ⟨key, hfound⟩
          simp [Graph.outgoing, List.mem_filter, hvalue, hedge]
      simp only [Option.map_some, hmem]

/-! ## Merging one outcome -/

/-- A new outcome is the completion of its own node only. -/
theorem completionOf_snoc
    {outcome : NodeOutcome}
    (hnew : outcome.id ∉ outcomes.map NodeOutcome.id)
    (id : String) :
    completionOf (outcomes ++ [outcome]) id =
      if outcome.id = id then outcome.result.toOption else completionOf outcomes id :=
  bind_outcomeOf_snoc _ hnew id

theorem completionOf_eq_none
    {id : String}
    (hnew : id ∉ outcomes.map NodeOutcome.id) :
    completionOf outcomes id = none := by
  rw [completionOf, outcomeOf_eq_none_iff.2 hnew]
  rfl

theorem errorOf_eq_none
    {id : String}
    (hnew : id ∉ outcomes.map NodeOutcome.id) :
    errorOf outcomes id = none := by
  rw [errorOf, outcomeOf_eq_none_iff.2 hnew]
  rfl

/-- A failure completes nothing. -/
theorem completionOf_snoc_error
    {outcome : NodeOutcome} {error : Error}
    (hnew : outcome.id ∉ outcomes.map NodeOutcome.id)
    (herror : outcome.result = .error error) :
    completionOf (outcomes ++ [outcome]) = completionOf outcomes := by
  funext id
  rw [completionOf_snoc hnew, herror]
  by_cases hid : outcome.id = id
  · subst hid
    rw [if_pos rfl, completionOf_eq_none hnew]
    rfl
  · rw [if_neg hid]

/-- A completion leaves the errors alone. -/
theorem errorOf_snoc_ok
    {outcome : NodeOutcome} {done : Completion}
    (hnew : outcome.id ∉ outcomes.map NodeOutcome.id)
    (hok : outcome.result = .ok done) :
    errorOf (outcomes ++ [outcome]) = errorOf outcomes := by
  funext id
  rw [errorOf, bind_outcomeOf_snoc _ hnew, hok]
  by_cases hid : outcome.id = id
  · subst hid
    rw [if_pos rfl, errorOf_eq_none hnew]
  · rw [if_neg hid, errorOf]

/-- A new outcome is entered into its own node. -/
theorem nodeOf_snoc_self
    {outcome : NodeOutcome}
    (hnew : outcome.id ∉ outcomes.map NodeOutcome.id)
    (node : Node) :
    nodeOf begun (outcomes ++ [outcome]) running outcome.id node =
      nodeAfter begun outcome node := by
  rw [nodeOf, outcomeOf_append, outcomeOf_eq_none_iff.2 hnew, outcomeOf_singleton,
    if_pos rfl]
  rfl

/-- To every other node it is the same whether a node is running or has an outcome. -/
theorem nodeOf_snoc_of_ne
    {outcome : NodeOutcome} {id : String}
    (hid : outcome.id ≠ id) :
    nodeOf begun (outcomes ++ [outcome]) running id =
      nodeOf begun outcomes (outcome.id :: running) id := by
  funext node
  rw [nodeOf, nodeOf, outcomeOf_append, outcomeOf_singleton, if_neg hid, Option.or_none]
  simp [Ne.symm hid]

/-- The nodes after the node of an outcome has been changed as the outcome says. -/
theorem Account.get?_modifyNode
    {outcome : NodeOutcome} {change : Node → Node}
    (h : Account begun start outcomes (outcome.id :: running) progress)
    (hnew : outcome.id ∉ outcomes.map NodeOutcome.id)
    (hchange : ∀ node : Node, change node.dispatched = nodeAfter begun outcome node)
    (id : String) :
    (progress.graph.modifyNode outcome.id change).nodes.get? id =
      (start.graph.nodes.get? id).map
        (nodeOf begun (outcomes ++ [outcome]) running id) := by
  rw [Graph.modifyNode, KeyMap.get?_modify]
  by_cases hid : outcome.id = id
  · subst hid
    rw [if_pos rfl, h.nodes, Option.map_map]
    congr 1
    funext node
    rw [nodeOf_snoc_self hnew, ← hchange]
    simp [nodeOf, outcomeOf_eq_none_iff.2 hnew]
  · rw [if_neg hid, h.nodes, nodeOf_snoc_of_ne hid]

/-- An output is entered into the active edges of its node, once each. -/
theorem edgeAfter_snoc_ok
    {outcome : NodeOutcome} {done : Completion}
    (hnew : outcome.id ∉ outcomes.map NodeOutcome.id)
    (hok : outcome.result = .ok done)
    (edge : Edge) :
    edgeAfter (outcomes ++ [outcome]) edge =
      if (edgeAfter outcomes edge).source = outcome.id ∧
        (edgeAfter outcomes edge).active = true then
        (edgeAfter outcomes edge).passed done.output.byteSize
      else edgeAfter outcomes edge := by
  unfold edgeAfter
  rw [completionOf_snoc hnew, hok]
  by_cases hactive : edge.active = true
  · by_cases hsource : outcome.id = edge.source
    · simp [hactive, ← hsource, completionOf_eq_none hnew, Except.toOption]
    · simp only [hactive, if_true, if_neg hsource]
      cases completionOf outcomes edge.source <;> simp [Edge.passed, Ne.symm hsource]
  · simp [hactive]

theorem edgeAfter_snoc_error
    {outcome : NodeOutcome} {error : Error}
    (hnew : outcome.id ∉ outcomes.map NodeOutcome.id)
    (herror : outcome.result = .error error) :
    edgeAfter (outcomes ++ [outcome]) = edgeAfter outcomes := by
  funext edge
  rw [edgeAfter, edgeAfter, completionOf_snoc_error hnew herror]

theorem completedIn_append
    (outcomes more : List NodeOutcome) :
    completedIn (outcomes ++ more) = completedIn outcomes ++ completedIn more := by
  simp [completedIn]

theorem toleratedIn_append
    (graph : Graph)
    (outcomes more : List NodeOutcome) :
    toleratedIn graph (outcomes ++ more) =
      toleratedIn graph outcomes ++ toleratedIn graph more := by
  simp [toleratedIn]

/-- A success is accounted for by the node, its edges, the output and the record. -/
theorem Account.recordSuccess
    {setting : Setting} {outcome : NodeOutcome} {done : Completion}
    (hstart : start.graph.WellFormed)
    (h : Account setting.begun start outcomes (outcome.id :: running) progress)
    (hnew : outcome.id ∉ outcomes.map NodeOutcome.id)
    (hok : outcome.result = .ok done) :
    Account setting.begun start (outcomes ++ [outcome]) running
      (recordSuccess setting progress outcome.id outcome.finish done) := by
  have hwell : (progress.graph.modifyNode outcome.id fun node =>
      node.succeeded (setting.begun.later outcome.finish)).WellFormed :=
    (h.wellFormed hstart).modifyNode outcome.id fun _ => rfl
  obtain ⟨hnodes, hid, hmetadata, hstate⟩ := skeleton_passOutput
    (progress.graph.modifyNode outcome.id fun node =>
      node.succeeded (setting.begun.later outcome.finish)) outcome.id done.output.byteSize
  refine Account.of_same ?_ (SameCourse.notify setting _ outcome.id)
  constructor
  case graphId => exact hid.trans h.graphId
  case metadata => exact hmetadata.trans h.metadata
  case state =>
    rw [hstate]
    exact h.state
  case nodes =>
    intro id
    dsimp only
    rw [hnodes]
    refine h.get?_modifyNode hnew ?_ id
    intro node
    simp only [nodeAfter, hok]
    rfl
  case edges =>
    intro key
    dsimp only
    rw [get?_passOutput hwell]
    show (progress.graph.edges.get? key).map _ = _
    rw [h.edges, Option.map_map]
    congr 1
    exact funext fun edge => (edgeAfter_snoc_ok hnew hok edge).symm
  case flow =>
    intro key
    dsimp only
    rw [KeyMap.get?_insert, completionOf_snoc hnew, h.flow, hok]
    by_cases hkey : outcome.id = key <;> simp [hkey, Except.toOption]
  case completed =>
    dsimp only
    rw [h.completed, completedIn_append, List.append_assoc]
    simp [completedIn, hok, Except.isOk, Except.toBool]
  case failed =>
    dsimp only
    rw [h.failed, toleratedIn_append]
    simp [toleratedIn, hok, Except.isOk, Except.toBool]
  case errors =>
    intro id
    dsimp only
    rw [h.errors, errorOf_snoc_ok hnew hok]
  case attempts =>
    intro id
    dsimp only
    rw [KeyMap.get?_insert, completionOf_snoc hnew, hok]
    by_cases hkey : outcome.id = id
    · simp [hkey, Except.toOption]
    · simp [hkey, h.attempts]

/-- A run does not change which failures are tolerated. -/
theorem Account.isTolerated_eq
    (h : Account begun start outcomes running progress)
    (id : String)
    (error : Error) :
    isTolerated progress id error = tolerates start.graph id error := by
  unfold isTolerated tolerates
  rw [h.nodes]
  cases start.graph.nodes.get? id with
  | none => rfl
  | some node =>
      have hconfig : (nodeOf begun outcomes running id node).config = node.config := by
        unfold nodeOf nodeAfter
        split
        · split <;> rfl
        · split <;> rfl
      simp only [Option.map_some, Option.any_some, Node.continuesOnError, hconfig]

/-- The failure of a node on the record, before it is said whether it is tolerated. -/
theorem Account.recordError
    {outcome : NodeOutcome} {error : Error}
    (h : Account begun start outcomes (outcome.id :: running) progress)
    (hnew : outcome.id ∉ outcomes.map NodeOutcome.id)
    (herror : outcome.result = .error error) :
    Account begun start (outcomes ++ [outcome]) running { progress with
      graph :=
        progress.graph.modifyNode outcome.id fun node =>
          node.failed (begun.later outcome.finish)
      errors := progress.errors.insert outcome.id error.message
      failed := progress.failed ++ toleratedIn start.graph [outcome] } := by
  constructor
  case graphId => exact h.graphId
  case metadata => exact h.metadata
  case state => exact h.state
  case nodes =>
    intro id
    refine h.get?_modifyNode hnew ?_ id
    intro node
    simp only [nodeAfter, herror]
    rfl
  case edges =>
    intro key
    rw [edgeAfter_snoc_error hnew herror]
    exact h.edges key
  case flow =>
    intro key
    rw [completionOf_snoc_error hnew herror]
    exact h.flow key
  case completed =>
    dsimp only
    rw [h.completed, completedIn_append]
    simp [completedIn, herror, Except.isOk, Except.toBool]
  case failed =>
    dsimp only
    rw [h.failed, toleratedIn_append, List.append_assoc]
  case errors =>
    intro id
    dsimp only
    rw [KeyMap.get?_insert, errorOf, bind_outcomeOf_snoc _ hnew, h.errors, herror]
    by_cases hkey : outcome.id = id <;> simp [hkey, errorOf]
  case attempts =>
    intro id
    rw [completionOf_snoc_error hnew herror]
    exact h.attempts id

/-- A failure is accounted for by the node and the error, and by the list if it is
tolerated. -/
theorem Account.recordFailure
    {setting : Setting} {outcome : NodeOutcome} {error : Error}
    (h : Account setting.begun start outcomes (outcome.id :: running) progress)
    (hnew : outcome.id ∉ outcomes.map NodeOutcome.id)
    (herror : outcome.result = .error error) :
    Account setting.begun start (outcomes ++ [outcome]) running
      (recordFailure setting progress outcome.id outcome.finish error) := by
  have hrecorded := h.recordError hnew herror
  have hnotify := (SameCourse.notify setting
    { progress with
      graph := progress.graph.modifyNode outcome.id fun node =>
        node.failed (setting.begun.later outcome.finish)
      errors := progress.errors.insert outcome.id error.message } outcome.id).appendFailed
    (toleratedIn start.graph [outcome])
  have htold := hrecorded.of_same hnotify
  unfold Run.recordFailure
  rw [h.isTolerated_eq]
  dsimp only
  cases htolerates : tolerates start.graph outcome.id error with
  | true =>
      have hids : toleratedIn start.graph [outcome] = [outcome.id] := by
        simp [toleratedIn, NodeOutcome.fatal?, herror, htolerates, Except.isOk,
          Except.toBool]
      rw [hids] at htold
      exact htold.of_same (SameCourse.log _ rfl rfl)
  | false =>
      have hids : toleratedIn start.graph [outcome] = [] := by
        simp [toleratedIn, NodeOutcome.fatal?, herror, htolerates]
      rw [hids, List.append_nil] at htold
      exact htold.of_same (SameCourse.log _ rfl rfl)

/-- **One merged outcome.** -/
theorem Account.merge
    {setting : Setting} {outcome : NodeOutcome}
    (abort : Option Error)
    (hstart : start.graph.WellFormed)
    (h : Account setting.begun start outcomes (outcome.id :: running) progress)
    (hnew : outcome.id ∉ outcomes.map NodeOutcome.id) :
    ∃ merged,
      merge setting (progress, abort) outcome =
        (merged, abort.or (outcome.fatal? start.graph)) ∧
      Account setting.begun start (outcomes ++ [outcome]) running merged := by
  cases hresult : outcome.result with
  | ok done =>
      refine ⟨_, ?_, h.recordSuccess hstart hnew hresult⟩
      simp [Run.merge, hresult, NodeOutcome.fatal?]
  | error error =>
      refine ⟨_, ?_, h.recordFailure hnew hresult⟩
      simp only [Run.merge, hresult, NodeOutcome.fatal?, h.isTolerated_eq]
      cases tolerates start.graph outcome.id error <;> simp

/-- **The outcomes of a level, merged in turn.** The first failure that is not tolerated
aborts the run. -/
theorem Account.mergeAll
    {setting : Setting}
    (hstart : start.graph.WellFormed) :
    ∀ (found : List NodeOutcome) (abort : Option Error) {outcomes : List NodeOutcome}
      {progress : Progress},
      Account setting.begun start outcomes (found.map NodeOutcome.id) progress →
      ((outcomes ++ found).map NodeOutcome.id).Nodup →
      ∃ merged,
        found.foldl (Run.merge setting) (progress, abort) =
          (merged, abort.or (found.findSome? (NodeOutcome.fatal? start.graph))) ∧
        Account setting.begun start (outcomes ++ found) [] merged
  | [], abort, outcomes, progress, h, _ => ⟨progress, by simp, by simpa using h⟩
  | outcome :: rest, abort, outcomes, progress, h, hnodup => by
      have hsplit : outcomes ++ outcome :: rest = (outcomes ++ [outcome]) ++ rest := by simp
      have hnew : outcome.id ∉ outcomes.map NodeOutcome.id := by
        intro hmem
        rw [List.map_append, List.nodup_append] at hnodup
        exact hnodup.2.2 _ hmem _ List.mem_cons_self rfl
      obtain ⟨next, hmerge, hnext⟩ := Account.merge abort hstart h hnew
      rw [hsplit] at hnodup ⊢
      obtain ⟨merged, hfold, hmerged⟩ := Account.mergeAll hstart rest
        (abort.or (outcome.fatal? start.graph)) hnext hnodup
      refine ⟨merged, ?_, hmerged⟩
      rw [List.foldl_cons, hmerge, hfold, List.findSome?_cons, Option.or_assoc]
      cases outcome.fatal? start.graph <;> rfl

/-! ## Dispatching a level -/

/-- The nodes of a level are marked, and no others. -/
theorem get?_foldl_dispatched
    (level : List String)
    (graph : Graph)
    (id : String) :
    (level.foldl
        (fun graph id => graph.modifyNode id Node.dispatched) graph).nodes.get?
      id =
      (graph.nodes.get? id).map fun node =>
        if id ∈ level then node.dispatched else node := by
  induction level generalizing graph with
  | nil => simp
  | cons first rest ih =>
      rw [List.foldl_cons, ih, Graph.modifyNode, KeyMap.get?_modify]
      by_cases hid : first = id
      · subst hid
        -- Dispatching a node twice is dispatching it once.
        cases graph.nodes.get? first with
        | none => simp
        | some node => simp [Node.dispatched]
      · simp [hid, Ne.symm hid]

theorem skeleton_foldl_dispatched (level : List String) (graph : Graph) :
    let marked := level.foldl (fun graph id => graph.modifyNode id Node.dispatched) graph
    marked.edges = graph.edges ∧ marked.id = graph.id ∧ marked.metadata = graph.metadata ∧
      marked.state = graph.state := by
  induction level generalizing graph with
  | nil => exact ⟨rfl, rfl, rfl, rfl⟩
  | cons first rest ih => exact ih (graph.modifyNode first Node.dispatched)

/-- The account does not depend on the log. -/
theorem Account.log
    (h : Account begun start outcomes running progress)
    (events : List Log.Event) :
    Account begun start outcomes running (progress.log events) :=
  ⟨h.graphId, h.metadata, h.state, h.nodes, h.edges, h.flow, h.completed, h.failed, h.errors,
    h.attempts⟩

/-- **A dispatched level.** -/
theorem Account.dispatch
    {setting : Setting} {level : List String} {index : Nat}
    (h : Account setting.begun start outcomes [] progress)
    (hnew : ∀ id ∈ level, id ∉ outcomes.map NodeOutcome.id) :
    Account setting.begun start outcomes level
      (dispatch setting progress index level) := by
  have hlogged := h.log
    [.levelDispatch progress.graph.id index level setting.options.parallel]
  unfold Run.dispatch
  refine Account.of_same ?_ (SameCourse.foldl (SameCourse.notify setting) level _)
  generalize progress.log _ = logged at hlogged ⊢
  obtain ⟨hedges, hid, hmetadata, hstate⟩ := skeleton_foldl_dispatched level logged.graph
  refine ⟨hid.trans hlogged.graphId, hmetadata.trans hlogged.metadata, ?_, ?_, ?_,
    hlogged.flow, hlogged.completed, hlogged.failed, hlogged.errors, hlogged.attempts⟩
  · simp only [markRunning]
    rw [hstate, hlogged.state]
  · intro id
    simp only [markRunning]
    rw [get?_foldl_dispatched, hlogged.nodes, Option.map_map]
    congr 1
    funext node
    by_cases hmem : id ∈ level
    · simp [nodeOf, outcomeOf_eq_none_iff.2 (hnew id hmem), hmem]
    · simp [nodeOf, hmem]
  · intro id
    simp only [markRunning, hedges]
    exact hlogged.edges id

/-! ## What merging and dispatching log -/

theorem quiet_recordSuccess
    (setting : Setting)
    (progress : Progress)
    (id : String)
    (finish : Nat)
    (done : Completion) :
    Quiet progress.events (recordSuccess setting progress id finish done).events := by
  unfold Run.recordSuccess
  dsimp only
  refine Quiet.trans ?_ (SameCourse.notify setting _ id).quiet
  exact Quiet.refl progress.events

theorem quiet_recordFailure
    (setting : Setting)
    (progress : Progress)
    (id : String)
    (finish : Nat)
    (error : Error) :
    Quiet progress.events
      (recordFailure setting progress id finish error).events := by
  have hnotify := (SameCourse.notify setting
    { progress with
      graph :=
        progress.graph.modifyNode id fun node =>
          node.failed (setting.begun.later finish)
      errors := progress.errors.insert id error.message } id).quiet
  unfold Run.recordFailure
  dsimp only
  split
  · exact hnotify.trans (Quiet.snoc _ rfl rfl)
  · exact hnotify.trans (Quiet.snoc _ rfl rfl)

/-- Merging an outcome logs neither an execution nor a dispatch. -/
theorem quiet_merge
    (setting : Setting)
    (state : Progress × Option Error)
    (outcome : NodeOutcome) :
    Quiet state.1.events (merge setting state outcome).1.events := by
  obtain ⟨progress, abort⟩ := state
  unfold Run.merge
  dsimp only
  split
  · exact quiet_recordSuccess setting progress outcome.id outcome.finish _
  · split
    · exact quiet_recordFailure setting progress outcome.id outcome.finish _
    · exact quiet_recordFailure setting progress outcome.id outcome.finish _

/-- Merging tells of nothing. -/
theorem quiet_mergeAll
    (setting : Setting)
    (found : List NodeOutcome) :
    ∀ state : Progress × Option Error,
      Quiet state.1.events (found.foldl (Run.merge setting) state).1.events := by
  induction found with
  | nil => exact fun state => Quiet.refl state.1.events
  | cons outcome rest ih =>
      intro state
      exact (quiet_merge setting state outcome).trans (ih (Run.merge setting state outcome))

/-- **Dispatching a level tells that its nodes are dispatched**, and of no execution. -/
theorem log_dispatch
    (setting : Setting)
    (progress : Progress)
    (index : Nat)
    (level : List String) :
    Log.dispatchedIn (dispatch setting progress index level).events =
      Log.dispatchedIn progress.events ++ level ∧
    Log.executionsIn (dispatch setting progress index level).events =
      Log.executionsIn progress.events := by
  have hquiet := (SameCourse.foldl (SameCourse.notify setting) level
    (markRunning (progress.log
    [.levelDispatch progress.graph.id index level setting.options.parallel]) level)).quiet
  constructor
  · refine hquiet.dispatched.trans ?_
    show Log.dispatchedIn (progress.events ++ [_]) = _
    rw [Log.dispatchedIn_append]
    simp [Log.dispatchedIn, Log.Event.dispatched]
  · refine hquiet.executions.trans ?_
    show Log.executionsIn (progress.events ++ [_]) = _
    rw [Log.executionsIn_append]
    simp [Log.executionsIn, Log.Event.executing?]

end Run

end PhaseFlow
