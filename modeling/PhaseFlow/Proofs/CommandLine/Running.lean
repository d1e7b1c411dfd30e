import PhaseFlow.Proofs.CommandLine.Performing
import PhaseFlow.Proofs.Definition.Building
import PhaseFlow.Proofs.Document.Restore
import PhaseFlow.Proofs.Graph.Origin
import PhaseFlow.Proofs.Run.Ending
import PhaseFlow.Proofs.Text.Encoding

/-!
# Running a pipeline from the command line

The program builds the pipeline of the file (`World.pipeline`), runs it, and ends with
the code that the report of the run calls for (`codeOf`, `concluded_runGraph`). A
pipeline that cannot be built ends every command with an error (`on_perform_of_error`).
-/

namespace PhaseFlow

namespace CommandLine

/-! ## A run -/

/-- The exit code that a report calls for. -/
def codeOf (report : Run.Report) : ExitCode :=
  match report.outcome with
  | .ok result => if result.isSuccess then .success else .toleratedFailures
  | .error error => if Run.isPhaseFailure error then .phaseFailure else .configuration

/-- The results of a run can be written. -/
structure Writable (world : World) (options : Options) : Prop where
  output : options.output = "" ∨ world.files.Accepts options.output
  exportTo : options.exportTo = "" ∨ world.files.Accepts options.exportTo

theorem Writable.kept
    {world after : World} {options : Options}
    (h : Writable world options)
    (hkept : world.Kept after) :
    Writable after options :=
  ⟨h.output.imp_right hkept.directories.accepts,
    h.exportTo.imp_right hkept.directories.accepts⟩

/-- The text of a result was written to a file, and a line end. -/
def World.Wrote (world after : World) (path text : String) : Prop :=
  ∃ before : Files, world.files.SameDirectories before ∧
    before.create? path (Text.utf8 (text ++ "\n")) = some after.files

/-- How a command ends that has run a graph. -/
inductive Concluded
    (world : World)
    (options : Options)
    (report : Run.Report) :
    Result ExitCode × World → Prop
  | concluded
      {after : World}
      (hcode : codeOf report ≠ .configuration)
      (hexport :
          options.exportTo ≠ "" →
          world.Wrote after options.exportTo (Document.textOf report.graph 2)) :
      Concluded world options report (.ok (codeOf report), after)
  | refused
      {error : Error} {after : World}
      (hcode : codeOf report = .configuration)
      (herror : report.outcome = .error error) :
      Concluded world options report (.error error, after)

theorem on_concludeRun
    {world : World} {options : Options}
    (hwritable : Writable world options)
    (report : Run.Report) :
    (∃ after,
        (concludeRun report options).on world = (.ok (codeOf report), after) ∧
        codeOf report ≠ .configuration) ∨
    ∃ error after,
      (concludeRun report options).on world = (.error error, after) ∧
      codeOf report = .configuration ∧
      report.outcome = .error error := by
  unfold concludeRun codeOf
  cases report.outcome with
  | ok result =>
      obtain ⟨after, hon, -⟩ := on_writeResult hwritable.output (result.toJson.indented 2)
      refine .inl ⟨after, Command.on_bind_ok hon, ?_⟩
      dsimp only
      split <;> nofun
  | error error =>
      dsimp only
      split
      · exact .inl ⟨_, Command.on_bind_ok (Command.on_script _ _), nofun⟩
      · exact .inr ⟨error, world, rfl, rfl, rfl⟩

/-- The aftermath of a run ends as the report calls for. -/
theorem concluded_reportRun
    {world : World} {options : Options}
    (hwritable : Writable world options)
    (report : Run.Report)
    (config : Log.Config) :
    Concluded world options report ((reportRun report options config).on world) := by
  unfold reportRun
  rw [Command.on_bind_ok (Command.on_script _ _), Command.on_bind_ok (Command.on_script _ _)]
  generalize hlogged : ((logEvents config report.events).runIn
    ((Script.request (.pause report.elapsed)).runIn world).2).2 = logged
  have hkept : world.Kept logged := hlogged ▸ Script.kept_runIn _ _
  rcases on_concludeRun (hwritable.kept hkept) report with
    ⟨after, hconclude, hcode⟩ | ⟨error, after, hconclude, hcode, herror⟩
  · have hafter : logged.Kept after := Command.kept_of_on hconclude
    rw [Command.on_bind_ok hconclude]
    split
    · next hexport =>
        obtain ⟨final, hwrite, hfile⟩ := on_writeResult
          (((hwritable.kept hkept).kept hafter).exportTo) (Document.textOf report.graph 2)
        rw [Command.on_bind_ok hwrite]
        exact .concluded hcode fun _ =>
          ⟨after.files, hkept.directories.trans hafter.directories, hfile hexport⟩
    · next hexport => exact .concluded hcode fun hne => absurd hne hexport
  · rw [Command.on_bind_error hconclude]
    exact .refused hcode herror

/-- **A command that runs a graph** ends as the report of the run calls for. -/
theorem concluded_runGraph
    {world : World} {options : Options} {nulEnds : Bool} {input : Json}
    (hwritable : Writable world options)
    (hinput : world.input options.input nulEnds = .ok input)
    (definition : Definition)
    (graph : Graph)
    (config : Log.Config) :
    Concluded world options
      (Run.run graph input (runOptions definition options) [] world.now)
      ((runGraph definition graph options config nulEnds).on world) := by
  have hload : (loadInput options.input nulEnds).on world = (.ok input, world) := by
    rw [on_loadInput, hinput]
  unfold runGraph
  rw [Command.on_bind_ok hload, Command.on_bind_ok (Command.on_script _ _)]
  exact concluded_reportRun hwritable _ config

/-! ## Whole commands -/

/-- The definition in a file and the graph that is built from it. -/
def World.pipeline
    (world : World)
    (path : String)
    (nulEnds : Bool := false) :
    Result (Definition × Graph) :=
  Definition.ofFile world.environment path (world.read path) nulEnds >>= fun definition =>
    (definition.build Registry.builtin world.freshId world.now).map fun graph =>
      (definition, graph)

theorem World.pipeline_eq_ok_iff
    {world : World} {path : String} {nulEnds : Bool} {definition : Definition}
    {graph : Graph} :
    world.pipeline path nulEnds = .ok (definition, graph) ↔
      Definition.ofFile world.environment path (world.read path) nulEnds =
        .ok definition ∧
      definition.build Registry.builtin world.freshId world.now = .ok graph := by
  unfold World.pipeline
  rw [Answer.bind_eq_ok_iff]
  constructor
  · rintro ⟨found, hfound, hbuild⟩
    obtain ⟨built, hbuilt, heq⟩ := Answer.map_eq_ok_iff.1 hbuild
    cases heq
    exact ⟨hfound, hbuilt⟩
  · rintro ⟨hdefinition, hgraph⟩
    exact ⟨definition, hdefinition, Answer.map_eq_ok_iff.2 ⟨graph, hgraph, rfl⟩⟩

/-- The JSON library itself refuses the pipeline only if a number in the file is out of
range. -/
theorem World.pipeline_eq_json_iff
    {world : World} {path : String} {nulEnds : Bool} {fault : JsonFault} :
    world.pipeline path nulEnds = .error (.json fault) ↔
      fault = .numberOutOfRange ∧ world.Overflows path nulEnds := by
  unfold World.pipeline
  rw [Answer.bind_eq_error_iff, Definition.ofFile_eq_json_iff]
  refine or_iff_left ?_
  rintro ⟨definition, hdefinition, hgraph⟩
  obtain ⟨hsound, -⟩ := Definition.sound_of_ofFile hdefinition
  rcases Definition.build_cases hsound Registry.builtin world.freshId world.now with
    ⟨found, hfound, -⟩ | ⟨error, herror, hrefused⟩
  · rw [hfound] at hgraph
    cases hgraph
  · rw [herror] at hgraph
    cases hgraph
    cases hrefused

/-- The log is opened before the graph is built, and both see the world as it was. -/
theorem on_perform_of_ofFile
    {world : World} {options : Options} {nulEnds : Bool}
    {definition : Definition}
    (h :
        Definition.ofFile world.environment options.pipeline
          (world.read options.pipeline) nulEnds =
          .ok definition) :
    ∃ config,
      (perform options nulEnds).on world =
        Command.on (ExceptT.mk
            (pure (definition.build Registry.builtin world.freshId world.now))
            >>= fun graph => carryOut definition graph options config nulEnds)
          ((openLog (logConfig definition options)).runIn world).2 := by
  generalize hopened : (openLog (logConfig definition options)).runIn world = opened
  obtain ⟨config, after⟩ := opened
  have hkept : world.Kept after := Script.kept_of_runIn hopened
  refine ⟨config, ?_⟩
  unfold perform
  rw [Command.on_bind_ok ((on_loadDefinition _ _ _).trans (by rw [h])),
    Command.on_bind_ok (Command.on_script_eq hopened), Command.on_bind_ok
      (Command.on_script _ _),
    Command.on_bind_ok (Command.on_script _ _)]
  show Command.on
    (ExceptT.mk (pure (definition.build _ after.freshId after.now)) >>= _) after = _
  rw [hkept.freshId, hkept.now]

/-- A pipeline that cannot be built ends every command. -/
theorem on_perform_of_error
    {world : World} {options : Options} {nulEnds : Bool} {error : Error}
    (h : world.pipeline options.pipeline nulEnds = .error error) :
    ∃ after, (perform options nulEnds).on world = (.error error, after) := by
  rcases Answer.bind_eq_error_iff.1 h with hdefinition | ⟨definition, hdefinition, hgraph⟩
  · exact ⟨world,
      Command.on_bind_error ((on_loadDefinition _ _ _).trans (by rw [hdefinition]))⟩
  · obtain ⟨config, hperform⟩ := on_perform_of_ofFile hdefinition
    refine ⟨((openLog (logConfig definition options)).runIn world).2,
      hperform.trans (Command.on_bind_error ?_)⟩
    rw [Answer.map_eq_error_iff.1 hgraph]
    rfl

/-- What a command finds when it has read the pipeline and opened the log: the
variables, the time and the directories are as before, and files can be read as before
or hold nothing. -/
structure World.Opened (world after : World) : Prop where
  kept : world.Kept after
  read :
    ∀ {path content}, world.read path = some content → after.read path = some content
  read_or_empty : ∀ {path content}, after.read path = some content →
    world.read path = some content ∨ content = ByteArray.mk #[]

/-- **A pipeline that can be built is handed to the command.** -/
theorem on_perform
    {world : World} {options : Options} {nulEnds : Bool}
    {definition : Definition} {graph : Graph}
    (h : world.pipeline options.pipeline nulEnds = .ok (definition, graph)) :
    ∃ config after,
      world.Opened after ∧
      (perform options nulEnds).on world =
        (carryOut definition graph options config nulEnds).on after := by
  obtain ⟨hdefinition, hgraph⟩ := World.pipeline_eq_ok_iff.1 h
  obtain ⟨config, hperform⟩ := on_perform_of_ofFile hdefinition
  have hopened : world.Opened ((openLog (logConfig definition options)).runIn world).2 :=
    ⟨Script.kept_runIn _ _, read_openLog _, read_of_read_openLog _⟩
  refine ⟨config, _, hopened, hperform.trans (Command.on_bind_ok ?_)⟩
  rw [hgraph]
  rfl

/-! ## What is caught -/

/-- An error that the program reports: the JSON library has not raised it. -/
def Caught (error : Error) : Prop :=
  ∀ fault, error ≠ .json fault

variable {options : Options} {nulEnds : Bool} {world after : World}

theorem runIn_performReporting_of_ok
    {code : ExitCode}
    (h : (perform options nulEnds).on world = (.ok code, after)) :
    (performReporting options nulEnds).runIn world = (code, after) := by
  have hrun : (ExceptT.run (perform options nulEnds)).runIn world = (.ok code, after) := h
  unfold performReporting
  rw [Script.runIn_bind, hrun]
  rfl

/-- **An error that is caught is reported.** -/
theorem runIn_performReporting_of_error
    {error : Error}
    (hcaught : Caught error)
    (h : (perform options nulEnds).on world = (.error error, after)) :
    ((performReporting options nulEnds).runIn world).1 = .configuration := by
  have hrun :
      (ExceptT.run (perform options nulEnds)).runIn world = (.error error, after) :=
    h
  unfold performReporting
  rw [Script.runIn_bind, hrun]
  cases error with
  | json fault => exact absurd rfl (hcaught fault)
  | _ => rfl

/-- **What the JSON library raises is not caught.** -/
theorem runIn_performReporting_of_json
    {fault : JsonFault}
    (h : (perform options nulEnds).on world = (.error (.json fault), after)) :
    (performReporting options nulEnds).runIn world = (.uncaught, after) := by
  have hrun : (ExceptT.run (perform options nulEnds)).runIn world =
      (.error (.json fault), after) := h
  unfold performReporting
  rw [Script.runIn_bind, hrun]
  rfl

/-! ## The code of a report -/

variable {report : Run.Report}

theorem codeOf_eq_phaseFailure_iff :
    codeOf report = .phaseFailure ↔
      ∃ id lastError attempts,
        report.outcome = .error (.phaseFailed id lastError attempts) := by
  unfold codeOf
  cases report.outcome with
  | ok result => simp [apply_ite (· = ExitCode.phaseFailure)]
  | error error => cases error <;> simp [Run.isPhaseFailure]

theorem codeOf_eq_toleratedFailures_iff
    (hstatus :
        ∀ result,
          report.outcome = .ok result →
          (result.isSuccess = true ↔ result.failed = [])) :
    codeOf report = .toleratedFailures ↔
      ∃ result, report.outcome = .ok result ∧ result.failed ≠ [] := by
  unfold codeOf
  cases houtcome : report.outcome with
  | ok result => simp [← hstatus result houtcome]
  | error error => cases error <;> simp [Run.isPhaseFailure]

theorem codeOf_eq_success_iff
    (hstatus :
        ∀ result,
          report.outcome = .ok result →
          (result.isSuccess = true ↔ result.failed = [])) :
    codeOf report = .success ↔
      ∃ result, report.outcome = .ok result ∧ result.failed = [] := by
  unfold codeOf
  cases houtcome : report.outcome with
  | ok result => simp [← hstatus result houtcome]
  | error error => cases error <;> simp [Run.isPhaseFailure]

theorem codeOf_eq_configuration_iff
    {options : RunOptions} {graph : Graph}
    (hwriter : options.writer = {})
    (h : Run.Ending options graph report) :
    codeOf report = .configuration ↔ Run.Obstructed options graph report := by
  cases h with
  | reserved hnode => exact iff_of_true rfl (.reserved hnode)
  | cyclic hnode hcycle remaining => exact iff_of_true rfl (.cycle hcycle)
  | misconfigured hnode hacyclic hid hfault houtcome =>
      refine iff_of_true ?_ (.settings hid hfault houtcome)
      unfold codeOf
      rw [houtcome]
      rfl
  | unwritten hnode hacyclic hid hwords =>
      rw [hwriter] at hwords
      cases hwords
  | failed hnode hacyclic hid houtcome =>
      refine iff_of_false ?_ fun hobstructed => ?_
      · rw [codeOf_eq_phaseFailure_iff.2 ⟨_, _, _, houtcome⟩]
        nofun
      · obtain ⟨fault, hfault⟩ := hobstructed.exists_fault hnode hacyclic
        cases houtcome.symm.trans hfault
  | returned hnode hacyclic houtcome =>
      refine iff_of_false ?_ fun hobstructed => ?_
      · unfold codeOf
        rw [houtcome]
        dsimp only
        split <;> nofun
      · obtain ⟨fault, hfault⟩ := hobstructed.exists_fault hnode hacyclic
        cases houtcome.symm.trans hfault

/-! ## Graphs that are exported -/

/-- A graph that agrees in whole milliseconds can be imported from some bytes. -/
def HoldsGraph (bytes : ByteArray) (graph : Graph) : Prop :=
  ∀ (freshId : String) (now : Instant) (nulEnds : Bool), ∃ found,
    Document.graphOfBytes Registry.builtin freshId now bytes nulEnds = .ok found ∧
      found.SameInMilliseconds graph

/-- The bytes that are written for a text. -/
def bytesFor (text : String) : ByteArray :=
  ByteArray.mk (Text.utf8 text).toArray

theorem toList_bytesFor
    (text : String) :
    (bytesFor text).data.toList = Text.utf8 text :=
  rfl

theorem bytesFor_eq (text : String) : bytesFor text = text.toUTF8 :=
  (Text.toUTF8_eq text).symm

/-- The pipeline that a file of a world holds, and what is known of it. -/
structure Built
    (world : World)
    (definition : Definition)
    (graph : Graph) : Prop where
  reachable : graph.Reachable
  built : definition.BuiltAs Registry.builtin world.now graph
  config :
    ∀ phase ∈ definition.phases,
      phase.config.isObject = true ∧ phase.config.IsCanonical
  writer : definition.options.writer = {}

theorem built_of_pipeline
    (hfresh : world.freshId ≠ "")
    {path : String} {definition : Definition} {graph : Graph}
    (h : world.pipeline path nulEnds = .ok (definition, graph)) :
    Built world definition graph := by
  obtain ⟨hdefinition, hgraph⟩ := World.pipeline_eq_ok_iff.1 h
  obtain ⟨hsound, hcanonical⟩ := Definition.sound_of_ofFile hdefinition
  refine ⟨Definition.reachable_build hfresh hgraph, ?_, fun phase hphase =>
    ⟨hsound.config phase hphase, hcanonical phase hphase⟩, Definition.writer_of_ofFile
      hdefinition⟩
  rcases Definition.build_cases hsound Registry.builtin world.freshId world.now with
    ⟨found, hfound, hbuilt⟩ | ⟨error, herror, -⟩
  · cases hgraph.symm.trans hfound
    exact hbuilt
  · cases hgraph.symm.trans herror

/-- A node has the configuration of its phase and an executor with a name. -/
theorem Built.node
    {world : World} {definition : Definition} {graph : Graph}
    (h : Built world definition graph)
    {id : String} {node : Node}
    (hnode : graph.nodes.get? id = some node) :
    (node.config.isObject = true ∧ node.config.IsCanonical) ∧
    ∃ name, Registry.builtin.resolve name = .ok node.executor := by
  obtain ⟨phase, hphase, rfl⟩ := (h.built.hasNode id).1 (Graph.hasNode_iff.2 ⟨node, hnode⟩)
  obtain ⟨capability, hresolve, hstands⟩ := h.built.node phase hphase
  cases hnode.symm.trans hstands
  exact ⟨h.config phase hphase, phase.executor, hresolve⟩

/-- **The document of a graph that was run can be imported.** -/
theorem Built.holdsGraph
    {world : World} {definition : Definition} {graph : Graph}
    (h : Built world definition graph)
    (input : Json)
    (options : RunOptions)
    (now : Instant) :
    HoldsGraph (bytesFor
        (Document.textOf (Run.run graph input options [] now).graph 2 ++ "\n"))
      (Run.run graph input options [] now).graph := by
  obtain ⟨outcomes, hrecorded⟩ :=
    Run.recorded_of_run h.reachable.wellFormed input options [] now
  have hreachable := h.reachable.run input options [] now
  have hnode :
      ∀ {id node},
        (Run.run graph input options [] now).graph.nodes.get? id = some node →
        (node.config.isObject = true ∧ node.config.IsCanonical) ∧
        ∃ name, Registry.builtin.resolve name = .ok node.executor := by
    intro id node hnode
    obtain ⟨before, hbefore, hconfig, hexecutor⟩ := hrecorded.exists_node hnode
    rw [hconfig, hexecutor]
    exact h.node hbefore
  generalize (Run.run graph input options [] now).graph = after at hreachable hnode
  intro freshId moment nulEnds
  have hcanonical := Document.isCanonical_ofGraph fun hfound => (hnode hfound).1.2
  refine ⟨after.inMilliseconds, ?_, after.sameInMilliseconds_inMilliseconds⟩
  rw [bytesFor_eq, Document.graphOfBytes, Document.textOf,
    Json.parse_text_newline hcanonical]
  exact Document.toGraph_ofGraph hreachable.wellFormed
    ⟨fun hfound => (hnode hfound).1.1, fun hfound => (hnode hfound).2⟩ freshId moment

end CommandLine

end PhaseFlow
