import PhaseFlow.Proofs.Run.Dataflow
import PhaseFlow.Proofs.Run.Record

/-!
# Statistics over a history of runs

A graph is run again and again, each time with executors, input, mode and observers of
that run (`Request`). The logs of the reports tell which runs dispatched a node and what
the node put out (`dispatches`, `outputs`), and the statistics of nodes and edges are
these numbers: `NodeBalance` and `EdgeBalance` say how. One more run keeps them
(`NodeBalance.snoc`, `EdgeBalance.snoc`), however it ends, since every run leaves a
record.

Main statement: `statistics_account_for_history`.
-/

namespace PhaseFlow

/-! ## Graphs that never ran -/

/-- Nothing has run on the graph: resetting it changes no node and no edge. -/
structure Graph.Pristine (graph : Graph) : Prop where
  nodes : ∀ {id node}, graph.nodes.get? id = some node → node.reset = node
  edges : ∀ {key edge}, graph.edges.get? key = some edge → edge.reset = edge

namespace Graph

/-- Nothing has run on a new graph. -/
theorem pristine_create
    (freshId name : String)
    (now : Instant) :
    (Graph.create freshId name now).Pristine where
  nodes h := by cases h
  edges h := by cases h

theorem pristine_reset (graph : Graph) : graph.reset.Pristine where
  nodes {id node} h := by
    rw [Graph.reset, KeyMap.get?_map] at h
    obtain ⟨old, -, rfl⟩ := Option.map_eq_some_iff.1 h
    rfl
  edges {key edge} h := by
    rw [Graph.reset, KeyMap.get?_map] at h
    obtain ⟨old, -, rfl⟩ := Option.map_eq_some_iff.1 h
    rfl

theorem Pristine.addNode
    {graph next : Graph}
    (h : graph.Pristine)
    {id phase : String} {config : Json} {executor : Capability} {now : Instant}
    (hnext : graph.addNode id phase config executor now = .ok next) :
    next.Pristine := by
  obtain ⟨given, -, -, hinsert⟩ := addNode_eq_ok hnext
  obtain ⟨-, -, rfl⟩ := insertNode_eq_ok_iff.1 hinsert
  constructor
  · intro other node hnode
    rw [KeyMap.get?_insert] at hnode
    split at hnode
    · cases hnode
      rfl
    · exact h.nodes hnode
  · exact h.edges

theorem Pristine.addEdge
    {graph next : Graph}
    (h : graph.Pristine)
    {source target : String} {config : Json} {now : Instant} {stored : Edge}
    (hnext : graph.addEdge source target config now = .ok (next, stored)) :
    next.Pristine := by
  obtain ⟨stream, settings, -, -, -, hinsert⟩ := addEdge_eq_ok hnext
  obtain ⟨-, -, rfl, rfl⟩ := insertEdge_eq_ok_iff.1 hinsert
  constructor
  · exact h.nodes
  · intro key edge hedge
    rw [KeyMap.get?_insert] at hedge
    split at hedge
    · cases hedge
      rfl
    · exact h.edges hedge

def Operation.builds : Operation → Bool
  | .addNode .. => true
  | .addEdge .. => true
  | _ => false

/-- Operations that build a graph run nothing on it. -/
theorem Pristine.apply
    {graph : Graph}
    (h : graph.Pristine)
    {operation : Operation}
    (hbuilds : operation.builds = true) :
    (graph.apply operation).Pristine := by
  unfold Graph.apply
  split
  · next next hnext =>
      cases operation with
      | addNode id phase config executor now => exact h.addNode hnext
      | addEdge source target config now =>
          obtain ⟨⟨_, stored⟩, hadd, rfl⟩ := Answer.map_eq_ok_iff.1 hnext
          exact h.addEdge hadd
      | _ => cases hbuilds
  · exact h

/-- **A graph that was only built has never run.** -/
theorem Pristine.after
    {graph : Graph}
    (h : graph.Pristine)
    {history : List Operation}
    (hbuilds : ∀ operation ∈ history, operation.builds = true) :
    (graph.after history).Pristine := by
  induction history generalizing graph with
  | nil => exact h
  | cons operation rest ih =>
      exact ih (h.apply (hbuilds operation List.mem_cons_self)) fun later hlater =>
        hbuilds later (List.mem_cons_of_mem _ hlater)

/-- The graph with other executors at its nodes. -/
def equipped (graph : Graph) (executor : Node → Capability) : Graph :=
  { graph with nodes := graph.nodes.map fun node => { node with executor := executor node } }

end Graph

namespace Run

/-! ## Histories -/

/-- One run of a history: what the nodes run this time, and what is asked for. -/
structure Request where
  executor : Node → Capability := Node.executor
  input : Json := .null
  options : RunOptions := {}
  observers : Observers := []
  now : Instant

def Request.report (request : Request) (graph : Graph) : Report :=
  run (graph.equipped request.executor) request.input request.options
    request.observers request.now

/-- A graph and the reports of the runs on it so far. -/
structure Session where
  graph : Graph
  reports : List Report

namespace Session

/-- After one more run, whether it returned or not. -/
def step (session : Session) (request : Request) : Session :=
  let report := request.report session.graph
  ⟨report.graph, session.reports ++ [report]⟩

def after (graph : Graph) (requests : List Request) : Session :=
  requests.foldl step ⟨graph, []⟩

end Session

/-! ## What the logs tell -/

/-- The number of runs that dispatched a node. -/
def dispatches (reports : List Report) (id : String) : Nat :=
  reports.countP fun report => id ∈ Log.dispatchedIn report.events

/-- The outputs of a node over all runs, in order. -/
def outputs (reports : List Report) (id : String) : List Json :=
  reports.flatMap fun report => Log.outputsIn id report.events

/-- The number of runs that dispatched a node without output. -/
def failures (reports : List Report) (id : String) : Nat :=
  reports.countP fun report =>
    id ∈ Log.dispatchedIn report.events ∧ (Log.outputsIn id report.events).isEmpty

def total (numbers : List Nat) : Nat :=
  numbers.foldr (· + ·) 0

/-- The bytes of the outputs of a node over all runs. -/
def outputBytes (reports : List Report) (id : String) : Nat :=
  total ((outputs reports id).map Json.byteSize)

/-- The latest report of a run that dispatched a node. -/
def latest? (reports : List Report) (id : String) : Option Report :=
  reports.reverse.find? fun report => id ∈ Log.dispatchedIn report.events

/-- The status of a node according to the latest run that dispatched it. -/
def latestStatus (reports : List Report) (id : String) : NodeStatus :=
  match latest? reports id with
  | none => .idle
  | some report => if (Log.outputsIn id report.events).isEmpty then .error else .completed

variable {reports : List Report} {report : Report} {id : String}

/-- A run counts once more for the nodes that it dispatched. -/
theorem dispatches_snoc
    (reports : List Report)
    (report : Report)
    (id : String) :
    dispatches (reports ++ [report]) id =
      dispatches reports id +
        if id ∈ Log.dispatchedIn report.events then 1 else 0 := by
  simp [dispatches, List.countP_append, List.countP_singleton]

/-- A run is a failure of a node that it dispatched without an output. -/
theorem failures_snoc
    (reports : List Report)
    (report : Report)
    (id : String) :
    failures (reports ++ [report]) id =
      failures reports id +
        if id ∈ Log.dispatchedIn report.events ∧
          (Log.outputsIn id report.events).isEmpty then
          1
        else 0 := by
  simp [failures, List.countP_append, List.countP_singleton]

theorem outputs_snoc
    (reports : List Report)
    (report : Report)
    (id : String) :
    outputs (reports ++ [report]) id =
      outputs reports id ++ Log.outputsIn id report.events := by
  simp [outputs]

theorem total_snoc
    (numbers : List Nat)
    (number : Nat) :
    total (numbers ++ [number]) = total numbers + number := by
  induction numbers with
  | nil => simp [total]
  | cons first rest ih =>
      show first + total (rest ++ [number]) = first + total rest + number
      rw [ih, Nat.add_assoc]

/-- The latest run that dispatched a node is the last one if it did. -/
theorem latest?_snoc
    (reports : List Report)
    (report : Report)
    (id : String) :
    latest? (reports ++ [report]) id =
      if id ∈ Log.dispatchedIn report.events then
        some report
      else latest? reports id := by
  rw [latest?, List.reverse_concat, List.find?_cons]
  by_cases hmem : id ∈ Log.dispatchedIn report.events <;> simp [hmem, latest?]

theorem latest?_eq_none_iff :
    latest? reports id = none ↔ dispatches reports id = 0 := by
  simp [latest?, dispatches, List.countP_eq_zero]

/-- A node that no run dispatched stays idle. -/
theorem latestStatus_eq_idle_iff :
    latestStatus reports id = .idle ↔ dispatches reports id = 0 := by
  rw [← latest?_eq_none_iff, latestStatus]
  cases latest? reports id with
  | none => simp
  | some report =>
      dsimp only
      split <;> simp

/-- **The log of a run that returns shows the outputs in its result.** -/
theorem outputsIn_of_run
    {graph : Graph}
    (hwell : graph.WellFormed)
    {input : Json} {options : RunOptions} {observers : Observers}
    {now : Instant} {result : RunResult}
    (hrun : (run graph input options observers now).outcome = .ok result)
    (hid : graph.hasNode id = true) :
    Log.outputsIn id (run graph input options observers now).events =
      (result.flow.get? id).toList := by
  obtain ⟨order, levels, outcomes, ended, hreturned, hreport⟩ := returned_of_run hwell hrun
  rw [hreport] at hrun ⊢
  cases hrun
  rw [hreturned.toTranscript.recorded_finished.outputsIn_eq, ← hreturned.get?_flow_node hid]

/-! ## The balance of a node -/

/-- The statistics of a node are what the logs tell. -/
structure NodeBalance
    (reports : List Report)
    (id : String)
    (node : Node) : Prop where
  runs : node.runCount = UInt64.ofNat (outputs reports id).length
  errors : node.errorCount = UInt64.ofNat (failures reports id)
  total : (outputs reports id).length + failures reports id = dispatches reports id
  status : node.status = latestStatus reports id
  lastRun : node.lastRun = none ↔ dispatches reports id = 0

theorem NodeBalance.initial
    {node : Node}
    (h : node.reset = node) :
    NodeBalance [] id node := by
  rw [← h]
  exact ⟨rfl, rfl, rfl, rfl, Iff.rfl.mpr (by simp [Node.reset, dispatches])⟩

theorem NodeBalance.equip
    {node : Node}
    (h : NodeBalance reports id node)
    (executor : Capability) :
    NodeBalance reports id { node with executor := executor } :=
  ⟨h.runs, h.errors, h.total, h.status, h.lastRun⟩

section Steps

variable {node : Node}

/-- A run that does not dispatch a node leaves its balance as it was. -/
theorem NodeBalance.skipped
    (h : NodeBalance reports id node)
    (hnot : id ∉ Log.dispatchedIn report.events)
    (hnone : Log.outputsIn id report.events = []) :
    NodeBalance (reports ++ [report]) id node := by
  constructor
  case runs => simpa [outputs_snoc, hnone] using h.runs
  case errors => simpa [failures_snoc, hnot] using h.errors
  case total =>
      simpa [outputs_snoc, failures_snoc, dispatches_snoc, hnone, hnot] using h.total
  case status => simpa [latestStatus, latest?_snoc, hnot] using h.status
  case lastRun => simpa [dispatches_snoc, hnot] using h.lastRun

/-- A run that shows the output of a node has counted a success. -/
theorem NodeBalance.succeeded
    (h : NodeBalance reports id node)
    (hin : id ∈ Log.dispatchedIn report.events)
    {output : Json}
    (hone : Log.outputsIn id report.events = [output])
    (moment : Instant) :
    NodeBalance (reports ++ [report]) id (node.succeeded moment) := by
  have htotal := h.total
  constructor
  case runs => simp [Node.succeeded, outputs_snoc, hone, h.runs]
  case errors => simpa [Node.succeeded, failures_snoc, hone] using h.errors
  case total =>
    simp only [outputs_snoc, failures_snoc, dispatches_snoc, hone, hin, List.length_append,
      List.length_singleton, List.isEmpty_cons, Bool.false_eq_true, and_false,
        if_false, if_true]
    omega
  case status => simp [Node.succeeded, latestStatus, latest?_snoc, hin, hone]
  case lastRun => simp [Node.succeeded, dispatches_snoc, hin]

/-- A run that dispatches a node and shows no output has counted a failure. -/
theorem NodeBalance.failed
    (h : NodeBalance reports id node)
    (hin : id ∈ Log.dispatchedIn report.events)
    (hnone : Log.outputsIn id report.events = [])
    (moment : Instant) :
    NodeBalance (reports ++ [report]) id (node.failed moment) := by
  have htotal := h.total
  constructor
  case runs => simpa [Node.failed, outputs_snoc, hnone] using h.runs
  case errors => simp [Node.failed, failures_snoc, hin, hnone, h.errors]
  case total =>
    simp only [outputs_snoc, failures_snoc, dispatches_snoc, hnone, hin, List.append_nil,
      List.isEmpty_nil, and_self, if_true]
    omega
  case status => simp [Node.failed, latestStatus, latest?_snoc, hin, hnone]
  case lastRun => simp [Node.failed, dispatches_snoc, hin]

end Steps

variable {options : RunOptions} {begun : Instant} {graph : Graph}
variable {outcomes : List NodeOutcome}

/-- **One more run keeps the balance of a node.** -/
theorem NodeBalance.snoc
    {node : Node}
    (h : NodeBalance reports id node)
    (hrecord : Recorded options begun graph outcomes report) :
    NodeBalance (reports ++ [report]) id (nodeOf begun outcomes [] id node) := by
  have hmem : id ∈ Log.dispatchedIn report.events ↔ _ := hrecord.mem_dispatched_iff
  have hshown := hrecord.outputsIn_eq id
  rw [completionOf] at hshown
  rw [nodeOf]
  cases hfound : outcomeOf outcomes id with
  | none =>
      rw [hfound] at hmem hshown
      exact h.skipped (by simp [hmem]) hshown
  | some outcome =>
      rw [hfound, Option.bind_some] at hshown
      have hin : id ∈ Log.dispatchedIn report.events := hmem.2 ⟨outcome, hfound⟩
      dsimp only
      rw [nodeAfter]
      cases hresult : outcome.result with
      | ok done =>
          rw [hresult] at hshown
          exact h.succeeded hin hshown _
      | error error =>
          rw [hresult] at hshown
          exact h.failed hin hshown _

/-! ## The balance of an edge -/

/-- The counters of an edge are what the logs tell of its source, if data flows through
it. -/
structure EdgeBalance (reports : List Report) (edge : Edge) : Prop where
  messages : edge.messages =
    if edge.active then UInt64.ofNat (outputs reports edge.source).length else 0
  bytes :
    edge.bytes =
      if edge.active then UInt64.ofNat (outputBytes reports edge.source) else 0

theorem EdgeBalance.initial
    {edge : Edge}
    (h : edge.reset = edge) :
    EdgeBalance [] edge := by
  rw [← h]
  constructor <;> split <;> rfl

/-- **One more run keeps the balance of an edge.** -/
theorem EdgeBalance.snoc
    {edge : Edge}
    (h : EdgeBalance reports edge)
    (hrecord : Recorded options begun graph outcomes report) :
    EdgeBalance (reports ++ [report]) (edgeAfter outcomes edge) := by
  have hshown := hrecord.outputsIn_eq edge.source
  unfold edgeAfter
  cases hactive : edge.active with
  | false => exact ⟨by simpa [hactive] using h.messages, by simpa [hactive] using h.bytes⟩
  | true =>
      have hmessages := h.messages
      have hbytes := h.bytes
      rw [hactive, if_pos rfl] at hmessages hbytes
      cases hdone : completionOf outcomes edge.source with
      | none =>
          rw [hdone] at hshown
          constructor
          · simp [hactive, outputs_snoc, hshown, hmessages]
          · simp [hactive, outputBytes, outputs_snoc, hshown, hbytes]
      | some done =>
          rw [hdone] at hshown
          constructor
          · simp [hactive, Edge.passed, outputs_snoc, hshown, hmessages]
          · simp [hactive, Edge.passed, outputBytes, outputs_snoc, hshown, hbytes,
              total_snoc]

/-! ## A whole history -/

/-- Other executors do not touch what makes a graph well-formed. -/
theorem wellFormed_equipped
    {graph : Graph}
    (h : graph.WellFormed)
    (executor : Node → Capability) :
    (graph.equipped executor).WellFormed := by
  refine h.of_same rfl ?_ (Graph.SameEdgeIds.refl graph)
  intro id
  show ((graph.nodes.map _).get? id).map Node.id = _
  rw [KeyMap.get?_map, Option.map_map]
  rfl

/-- What a history keeps: the graph has the nodes and edges it started with, and all its
statistics are what the logs tell. -/
structure Balanced (origin : Graph) (session : Session) : Prop where
  wellFormed : session.graph.WellFormed
  hasNode : ∀ id, session.graph.hasNode id = origin.hasNode id
  edges_reset : session.graph.edges.map Edge.reset = origin.edges.map Edge.reset
  nodes :
    ∀ {id node},
      session.graph.nodes.get? id = some node → NodeBalance session.reports id node
  edges :
    ∀ {key edge},
      session.graph.edges.get? key = some edge → EdgeBalance session.reports edge

theorem Balanced.initial
    {graph : Graph}
    (hwell : graph.WellFormed)
    (hpristine : graph.Pristine) :
    Balanced graph ⟨graph, []⟩ where
  wellFormed := hwell
  hasNode _ := rfl
  edges_reset := rfl
  nodes hnode := NodeBalance.initial (hpristine.nodes hnode)
  edges hedge := EdgeBalance.initial (hpristine.edges hedge)

/-- **One more run keeps the balance.** -/
theorem Balanced.step
    {origin : Graph} {session : Session}
    (h : Balanced origin session)
    (request : Request) :
    Balanced origin (session.step request) := by
  have hequipped := wellFormed_equipped h.wellFormed request.executor
  obtain ⟨outcomes, hrecord⟩ := recorded_of_run hequipped request.input request.options
    request.observers request.now
  change Recorded _ _ _ outcomes (request.report session.graph) at hrecord
  unfold Session.step
  dsimp only
  generalize request.report session.graph = report at hrecord
  have hnodes :
      ∀ id,
        report.graph.nodes.get? id =
          (session.graph.nodes.get? id).map fun node =>
            nodeOf request.now outcomes [] id
              { node with executor := request.executor node } := by
    intro id
    rw [hrecord.nodes]
    show ((session.graph.nodes.map _).get? id).map _ = _
    rw [KeyMap.get?_map, Option.map_map]
    rfl
  constructor
  case wellFormed =>
    rw [← Graph.wellFormed_reset_iff, hrecord.reset, Graph.wellFormed_reset_iff]
    exact hequipped
  case hasNode =>
    intro id
    rw [← h.hasNode, Graph.hasNode, KeyMap.contains, hnodes, Option.isSome_map]
    rfl
  case edges_reset => exact (congrArg Graph.edges hrecord.reset).trans h.edges_reset
  case nodes =>
    intro id node hnode
    rw [hnodes] at hnode
    obtain ⟨old, hold, rfl⟩ := Option.map_eq_some_iff.1 hnode
    exact ((h.nodes hold).equip _).snoc hrecord
  case edges =>
    intro key edge hedge
    rw [hrecord.edges] at hedge
    obtain ⟨old, hold, rfl⟩ := Option.map_eq_some_iff.1 hedge
    exact (h.edges hold).snoc hrecord

/-- All runs of a history keep the balance. -/
theorem Balanced.foldl_step
    {origin : Graph}
    (requests : List Request) :
    ∀ {session : Session},
      Balanced origin session →
      Balanced origin (requests.foldl Session.step session) := by
  induction requests with
  | nil => exact fun h => h
  | cons request rest ih => exact fun h => ih (h.step request)

/-- Numbers modulo `2 ^ 64` add up to their sum modulo `2 ^ 64`. -/
theorem foldl_add_ofNat
    {α : Type} {read : α → UInt64} {number : α → Nat} {items : List α}
    (h : ∀ item ∈ items, read item = UInt64.ofNat (number item)) :
    (items.map read).foldl (· + ·) 0 = UInt64.ofNat (total (items.map number)) := by
  have hfold : ∀ start : Nat, (items.map read).foldl (· + ·) (UInt64.ofNat start) =
      UInt64.ofNat (start + total (items.map number)) := by
    induction items with
    | nil => exact fun start => rfl
    | cons item rest ih =>
        intro start
        rw [List.map_cons, List.foldl_cons, h item List.mem_cons_self, ← UInt64.ofNat_add,
          ih fun later hlater => h later (List.mem_cons_of_mem _ hlater), Nat.add_assoc]
        rfl
  simpa using hfold 0

/-- What the statistics of a graph say after a history of runs with some reports. -/
structure Accounted (reports : List Report) (graph : Graph) : Prop where
  counts : ∀ {id node}, graph.nodes.get? id = some node →
    node.runCount + node.errorCount = UInt64.ofNat (dispatches reports id)
  successes : ∀ {id node}, graph.nodes.get? id = some node →
    node.runCount = UInt64.ofNat (outputs reports id).length
  idle : ∀ {id node}, graph.nodes.get? id = some node →
    (node.status = .idle ↔ dispatches reports id = 0) ∧
      (node.lastRun = none ↔ dispatches reports id = 0)
  status :
    ∀ {id node},
      graph.nodes.get? id = some node → node.status = latestStatus reports id
  active :
    ∀ {key edge},
      graph.edges.get? key = some edge →
      edge.active = true →
      ∃ source,
        graph.nodes.get? edge.source = some source ∧
        edge.messages = source.runCount ∧
        edge.bytes = UInt64.ofNat (outputBytes reports edge.source)
  inactive : ∀ {key edge}, graph.edges.get? key = some edge → edge.active = false →
    edge.messages = 0 ∧ edge.bytes = 0
  runs : graph.stats.runs =
    UInt64.ofNat (total (graph.nodes.keys.map fun id => (outputs reports id).length))
  errors :
    graph.stats.errors =
      UInt64.ofNat (total (graph.nodes.keys.map (failures reports)))
  messages :
    graph.stats.messages =
      UInt64.ofNat (total (graph.edges.values.map fun edge =>
            if edge.active then (outputs reports edge.source).length else 0))
  bytes : graph.stats.bytes = UInt64.ofNat (total (graph.edges.values.map fun edge =>
    if edge.active then outputBytes reports edge.source else 0))

/-- The balance of a session accounts for its statistics. -/
theorem Balanced.accounted
    {origin : Graph} {session : Session}
    (h : Balanced origin session) :
    Accounted session.reports session.graph := by
  have hvalues :
      ∀ node ∈ session.graph.nodes.values,
        NodeBalance session.reports node.id node := by
    intro node hnode
    obtain ⟨id, hid⟩ := (session.graph.nodes.mem_values_iff node).1 hnode
    rw [h.wellFormed.node_id hid]
    exact h.nodes hid
  have hkeys : ∀ number : String → Nat, session.graph.nodes.keys.map number =
      session.graph.nodes.values.map fun node => number node.id := by
    intro number
    rw [← KeyMap.map_values_of_own h.wellFormed.node_id, List.map_map]
    rfl
  have hedges : ∀ edge ∈ session.graph.edges.values, EdgeBalance session.reports edge := by
    intro edge hedge
    obtain ⟨key, hkey⟩ := (session.graph.edges.mem_values_iff edge).1 hedge
    exact h.edges hkey
  constructor
  case counts =>
    intro id node hnode
    have hbalance := h.nodes hnode
    rw [hbalance.runs, hbalance.errors, ← UInt64.ofNat_add, hbalance.total]
  case successes => exact fun hnode => (h.nodes hnode).runs
  case idle =>
    intro id node hnode
    have hbalance := h.nodes hnode
    rw [hbalance.status]
    exact ⟨latestStatus_eq_idle_iff, hbalance.lastRun⟩
  case status => exact fun hnode => (h.nodes hnode).status
  case active =>
    intro key edge hedge hactive
    obtain ⟨source, hsource⟩ := Graph.hasNode_iff.1 (h.wellFormed.hasNode_source hedge)
    have hbalance := h.edges hedge
    refine ⟨source, hsource, ?_, ?_⟩
    · rw [hbalance.messages, hactive, if_pos rfl, (h.nodes hsource).runs]
    · rw [hbalance.bytes, hactive, if_pos rfl]
  case inactive =>
    intro key edge hedge hinactive
    have hbalance := h.edges hedge
    rw [hbalance.messages, hbalance.bytes, hinactive]
    exact ⟨rfl, rfl⟩
  case runs =>
    rw [hkeys]
    exact foldl_add_ofNat fun node hnode => (hvalues node hnode).runs
  case errors =>
    rw [hkeys]
    exact foldl_add_ofNat fun node hnode => (hvalues node hnode).errors
  case messages =>
    refine foldl_add_ofNat ?_
    intro edge hedge
    rw [(hedges edge hedge).messages]
    split <;> rfl
  case bytes =>
    refine foldl_add_ofNat ?_
    intro edge hedge
    rw [(hedges edge hedge).bytes]
    split <;> rfl

/-- **Statistics account for histories of runs.** After any runs on a graph that had
never run, however each of them ended, the nodes and edges are those of before, and
their statistics are what the logs of the runs tell. -/
theorem statistics_account_for_history
    {graph : Graph}
    (hgraph : graph.Reachable)
    (hpristine : graph.Pristine)
    (requests : List Request) :
    (∀ id, (Session.after graph requests).graph.hasNode id = graph.hasNode id) ∧
    (Session.after graph requests).graph.edges.map Edge.reset =
      graph.edges.map Edge.reset ∧
    Accounted (Session.after graph requests).reports
      (Session.after graph requests).graph := by
  have hbalanced : Balanced graph (Session.after graph requests) :=
    Balanced.foldl_step requests (Balanced.initial hgraph.wellFormed hpristine)
  exact ⟨hbalanced.hasNode, hbalanced.edges_reset, hbalanced.accounted⟩

theorem pristine_threeNodes : threeNodes.Pristine :=
  (Graph.pristine_create "g" "three nodes" ⟨0⟩).after (by simp [Graph.Operation.builds])

/-- A run in parallel that returns, a run that is aborted since every node fails, and a
run in turn. -/
def threeRuns : List Request :=
  [{ options := { parallel := true }, now := ⟨0⟩ },
    {executor := fun _ => .custom "constant" fun _ _ _ => Reply.failure .foreign,
      now := ⟨1000000⟩},
    { executor := fun node =>
        if node.id = "sink" then .passThrough else .custom "constant" Registry.constant
      now := ⟨2000000⟩ }]

theorem outcomes_threeRuns :
    (Session.after threeNodes threeRuns).reports.map
      (fun report => report.outcome.isOk) =
      [true, false, true] :=
  rfl

theorem statistics_account_for_history_threeRuns :
    threeNodes.Reachable ∧
    threeNodes.Pristine ∧
    (Session.after threeNodes threeRuns).reports.map
      (fun report => report.outcome.isOk) =
      [true, false, true] ∧
    Accounted (Session.after threeNodes threeRuns).reports
      (Session.after threeNodes threeRuns).graph := by
  obtain ⟨-, -, haccounted⟩ :=
    statistics_account_for_history reachable_threeNodes pristine_threeNodes threeRuns
  exact ⟨reachable_threeNodes, pristine_threeNodes, outcomes_threeRuns, haccounted⟩

end Run

end PhaseFlow
