import PhaseFlow.Proofs.CommandLine.Running
import PhaseFlow.Proofs.Run.Summary

/-!
# What exit codes tell

Commands may raise errors, and the program reports all of them but those of the JSON
library (`Command.Promises`). The library raises an error of its own if a file holds a
number that is out of range; the program ends with it exactly if it comes to such a file
(`Overwhelmed`, `performReporting_cases`).

Errors in the arguments, and nothing else, are reported as usage errors
(`program_usage_iff`). For the run command each of the other codes stands for one thing
that can happen: the pipeline cannot be built or the run is obstructed, a phase failed,
failures were tolerated, or every phase was completed (`Truthful`). If a graph is to be
exported, it is exported in all cases but the first.

Main statement: `exit_codes_tell_truth`.
-/

namespace PhaseFlow

open Answer (Meets)

namespace CommandLine

/-! ## Answers of commands -/

variable {α β : Type}

/-- In every world a command answers what is expected, or raises an error that is
caught. -/
def Command.Promises (command : Command α) (expected : α → Prop) : Prop :=
  ∀ world, Meets expected Caught (command.on world).1

namespace Command

variable {promised : α → Prop} {expected : β → Prop}

/-- A sequence keeps its promise if its parts do. -/
theorem Promises.bind
    {command : Command α} {next : α → Command β}
    (hcommand : command.Promises promised)
    (h : ∀ value, promised value → (next value).Promises expected) :
    (command >>= next).Promises expected := by
  intro world
  have hpromised := hcommand world
  rw [on_bind]
  cases hanswer : command.on world with
  | mk answer middle =>
      rw [hanswer] at hpromised
      cases answer with
      | ok value => exact h value hpromised middle
      | error error => exact hpromised

/-- Who promises more promises less. -/
theorem Promises.imp
    {command : Command α} {weaker : α → Prop}
    (h : command.Promises promised)
    (hvalue : ∀ value, promised value → weaker value) :
    command.Promises weaker :=
  fun world => (h world).imp hvalue fun _ => id

end Command

/-! ## What commands promise -/

theorem caught_configuration
    (fault : ConfigurationFault) :
    Caught (.configuration fault) :=
  nofun

/-- Without a value that is not written, a run stops at errors that are caught only. -/
theorem caught_of_ending
    {options : RunOptions} {graph : Graph} {report : Run.Report}
    (hwriter : options.writer = {})
    (h : Run.Ending options graph report) :
    Meets (fun _ => True) Caught report.outcome := by
  cases h with
  | reserved hnode => exact caught_configuration _
  | cyclic hnode hcycle remaining => exact nofun
  | misconfigured hnode hacyclic hid hfault houtcome =>
      rw [houtcome]
      exact caught_configuration _
  | unwritten hnode hacyclic hid hwords =>
      rw [hwriter] at hwords
      cases hwords
  | failed hnode hacyclic hid houtcome =>
      rw [houtcome]
      exact nofun
  | returned hnode hacyclic houtcome =>
      rw [houtcome]
      trivial

theorem carryOut_run
    {options : Options}
    (hcommand : options.command = "run")
    (definition : Definition)
    (graph : Graph)
    (config : Log.Config)
    (nulEnds : Bool) :
    carryOut definition graph options config nulEnds =
      runGraph definition graph options config nulEnds := by
  unfold carryOut
  simp [hcommand]

/-! ## Numbers that are out of range -/

variable {world after : World} {options : Options} {nulEnds : Bool}

/-- Arguments that do not make up a command line. -/
inductive Misused (arguments : List String) : Prop
  | unread {fault : UsageFault} (h : Options.parse arguments = .error fault)
  | unfit
      {options : Options}
      (h : Options.parse arguments = .ok options)
      (hhelp : options.help = false)
      (hfault :
          options.command ∉ Options.commands ∨
          options.pipeline = "" ∨
          options.logLevel ≠ "" ∧ options.logLevel ∉ Options.logLevels)

/-- Options are refused exactly if one of the checks fails. -/
theorem Options.check_cases
    (options : Options) :
    (options.check = .ok () ∧
      ¬ (options.command ∉ commands ∨
        options.pipeline = "" ∨
        options.logLevel ≠ "" ∧ options.logLevel ∉ logLevels)) ∨
    ∃ fault,
      options.check = .error fault ∧
      (options.command ∉ commands ∨
        options.pipeline = "" ∨
        options.logLevel ≠ "" ∧ options.logLevel ∉ logLevels) := by
  unfold check
  split
  · next hcommand => exact .inr ⟨_, rfl, .inl (by simpa using hcommand)⟩
  · next hcommand =>
      split
      · next hpipeline => exact .inr ⟨_, rfl, .inr (.inl hpipeline)⟩
      · next hpipeline =>
          split
          · next hlevel => exact .inr ⟨_, rfl, .inr (.inr (by simpa using hlevel))⟩
          · next hlevel =>
              refine .inl ⟨rfl, ?_⟩
              rintro (h | h | h)
              · exact hcommand (by simpa using h)
              · exact hpipeline h
              · exact hlevel (by simpa using h)

/-- The arguments make up a command. -/
structure Commanded (arguments : List String) (options : Options) : Prop where
  parse : Options.parse arguments = .ok options
  help : options.help = false
  check : options.check = .ok ()

theorem Commanded.eq
    {arguments : List String} {other : Options}
    (h : Commanded arguments options)
    (h' : Commanded arguments other) :
    options = other :=
  Except.ok.inj (h.parse.symm.trans h'.parse)

theorem Commanded.not_misused
    {arguments : List String}
    (h : Commanded arguments options) :
    ¬ (arguments = [] ∨ Misused arguments) := by
  rcases options.check_cases with ⟨-, hfit⟩ | ⟨fault, hfault, -⟩
  · rintro (rfl | ⟨hother⟩ | ⟨hother, -, hunfit⟩)
    · have hcheck := h.check
      cases h.parse
      cases hcheck
    · cases h.parse.symm.trans hother
    · cases h.parse.symm.trans hother
      exact hfit hunfit
  · cases h.check.symm.trans hfault

/-- What is commanded is performed. -/
theorem Commanded.program_eq
    {arguments : List String}
    (h : Commanded arguments options)
    (name : String)
    (nulEnds : Bool) :
    program name arguments nulEnds = performReporting options nulEnds := by
  have hne : arguments.isEmpty = false := by
    cases arguments with
    | nil => exact absurd (.inl rfl) h.not_misused
    | cons first rest => rfl
  unfold program
  simp only [h.parse, h.help, hne, h.check, Bool.false_eq_true, if_false]

/-- The program is misused, asked for help or commanded. -/
theorem program_cases
    (name : String)
    (arguments : List String)
    (nulEnds : Bool)
    (world : World) :
    (((program name arguments nulEnds).runIn world).1 = .usage ∧
      (arguments = [] ∨ Misused arguments)) ∨
    (((program name arguments nulEnds).runIn world).1 = .success ∧
      ∃ options, Options.parse arguments = .ok options ∧ options.help = true) ∨
    ∃ options, Commanded arguments options := by
  cases hparse : Options.parse arguments with
  | error fault =>
      refine .inl ⟨?_, .inr (.unread hparse)⟩
      unfold program
      rw [hparse]
      rfl
  | ok options =>
      cases hhelp : options.help with
      | true =>
          refine .inr (.inl ⟨?_, options, rfl, hhelp⟩)
          unfold program
          simp only [hparse, hhelp, if_true]
          rfl
      | false =>
          rcases options.check_cases with ⟨hcheck, -⟩ | ⟨fault, hcheck, hfault⟩
          · exact .inr (.inr ⟨options, hparse, hhelp, hcheck⟩)
          · refine .inl ⟨?_, .inr (.unfit hparse hhelp hfault)⟩
            unfold program
            simp only [hparse, hhelp, hcheck, Bool.false_eq_true, if_false]
            split <;> rfl

/-- No two endings have one number. -/
theorem ExitCode.number_eq_iff
    (code other : ExitCode) :
    code.number = other.number ↔ code = other := by
  cases code <;> cases other <;> decide

/-- Something holds of the pipeline in the file and of the report of its run. -/
def World.Runs
    (world : World)
    (options : Options)
    (nulEnds : Bool)
    (input : Json)
    (holds : Definition → Graph → Run.Report → Prop) :
    Prop :=
  ∃ definition graph, world.pipeline options.pipeline nulEnds = .ok (definition, graph) ∧
    holds definition graph (Run.run graph input (runOptions definition options) [] world.now)

/-- The graph of a report was exported: what was written to the file can be imported as
this graph, and stands in the file afterwards, unless that is a device. -/
def Exported (world after : World) (path : String) (graph : Graph) : Prop :=
  ∃ bytes, HoldsGraph bytes graph ∧
    (∃ before : Files, before.create? path bytes.data.toList = some after.files) ∧
      (¬ world.files.IsDevice path → after.read path = some bytes)

/-- What the exit code of the run command tells about a run. -/
structure Truthful
    (world : World)
    (options : Options)
    (nulEnds : Bool)
    (input : Json)
    (code : ExitCode)
    (after : World) : Prop where
  configuration : code.number = 2 ↔
    (∃ error, world.pipeline options.pipeline nulEnds = .error error) ∨
      world.Runs options nulEnds input fun definition graph report =>
        Run.Obstructed (runOptions definition options) graph report
  phaseFailure :
    code.number = 3 ↔
      world.Runs options nulEnds input fun _ _ report =>
        ∃ id lastError attempts, report.outcome = .error
          (.phaseFailed id lastError attempts)
  toleratedFailures :
    code.number = 4 ↔
      world.Runs options nulEnds input fun _ _ report =>
        ∃ result, report.outcome = .ok result ∧ result.failed ≠ []
  success :
    code.number = 0 ↔
      world.Runs options nulEnds input fun definition _ report =>
        ∃ result, report.outcome = .ok result ∧ ∀ phase ∈ definition.phases,
          phase.name ∈ result.completed
  exported : options.exportTo ≠ "" → code.number ≠ 2 →
    world.Runs options nulEnds input fun _ _ report =>
      Exported world after options.exportTo report.graph

variable {input : Json}

/-- There is one run to speak of once the pipeline is built. -/
theorem runs_iff
    {definition : Definition} {graph : Graph}
    (h : world.pipeline options.pipeline nulEnds = .ok (definition, graph))
    {holds : Definition → Graph → Run.Report → Prop} :
    world.Runs options nulEnds input holds ↔
      holds definition graph
        (Run.run graph input (runOptions definition options) [] world.now) := by
  constructor
  · rintro ⟨found, built, hpipeline, hholds⟩
    cases h.symm.trans hpipeline
    exact hholds
  · exact fun hholds => ⟨definition, graph, h, hholds⟩

theorem not_runs
    {error : Error}
    (h : world.pipeline options.pipeline nulEnds = .error error)
    {holds : Definition → Graph → Run.Report → Prop} :
    ¬ world.Runs options nulEnds input holds := by
  rintro ⟨definition, graph, hpipeline, -⟩
  cases h.symm.trans hpipeline

/-- A pipeline that cannot be built has no run to tell about. -/
theorem truthful_of_error
    {error : Error}
    (h : world.pipeline options.pipeline nulEnds = .error error) :
    Truthful world options nulEnds input .configuration after where
  configuration := iff_of_true rfl (.inl ⟨error, h⟩)
  phaseFailure := iff_of_false (by decide) (not_runs h)
  toleratedFailures := iff_of_false (by decide) (not_runs h)
  success := iff_of_false (by decide) (not_runs h)
  exported _ hne := absurd rfl hne

/-- The code that a report calls for tells the truth about it. -/
theorem truthful_of_ok
    {definition : Definition} {graph : Graph}
    (hfresh : world.freshId ≠ "")
    (h : world.pipeline options.pipeline nulEnds = .ok (definition, graph))
    (hexported :
        options.exportTo ≠ "" →
        codeOf (Run.run graph input (runOptions definition options) [] world.now) ≠
          .configuration →
        Exported world after options.exportTo
          (Run.run graph input (runOptions definition options) [] world.now).graph) :
    Truthful world options nulEnds input
      (codeOf
          (Run.run graph input (runOptions definition options) [] world.now))
      after where
  configuration := by
    have hbuilt := built_of_pipeline hfresh h
    have hwriter : (runOptions definition options).writer = {} := hbuilt.writer
    have hending := Run.ending_of_run hbuilt.reachable.wellFormed input
      (runOptions definition options) [] world.now
    refine (ExitCode.number_eq_iff _ .configuration).trans ?_
    rw [runs_iff h, codeOf_eq_configuration_iff hwriter hending]
    refine (or_iff_right ?_).symm
    rintro ⟨error, herror⟩
    cases h.symm.trans herror
  phaseFailure := by
    refine (ExitCode.number_eq_iff _ .phaseFailure).trans ?_
    rw [runs_iff h, codeOf_eq_phaseFailure_iff]
  toleratedFailures := by
    have hbuilt := built_of_pipeline hfresh h
    refine (ExitCode.number_eq_iff _ .toleratedFailures).trans ?_
    rw [runs_iff h, codeOf_eq_toleratedFailures_iff fun _ =>
      Run.isSuccess_iff_of_run hbuilt.reachable.wellFormed]
  success := by
    have hbuilt := built_of_pipeline hfresh h
    refine (ExitCode.number_eq_iff _ .success).trans ?_
    rw [runs_iff h, codeOf_eq_success_iff fun _ =>
      Run.isSuccess_iff_of_run hbuilt.reachable.wellFormed]
    refine exists_congr fun result => and_congr_right fun houtcome => ?_
    rw [Run.failed_eq_nil_iff hbuilt.reachable.wellFormed houtcome]
    constructor
    · intro hall phase hphase
      exact hall phase.name ((hbuilt.built.hasNode _).2 ⟨phase, hphase, rfl⟩)
    · intro hall id hid
      obtain ⟨phase, hphase, rfl⟩ := (hbuilt.built.hasNode id).1 hid
      exact hall phase hphase
  exported hne hcode := (runs_iff h).2
    (hexported hne fun heq => hcode ((ExitCode.number_eq_iff _ .configuration).2 heq))

theorem exported_of_wrote
    {middle : World} {path : String} {graph : Graph}
    (hsame : world.files.SameDirectories middle.files)
    (hwrote : middle.Wrote after path (Document.textOf graph 2))
    (hholds : HoldsGraph (bytesFor (Document.textOf graph 2 ++ "\n")) graph) :
    Exported world after path graph := by
  obtain ⟨before, hbefore, hcreate⟩ := hwrote
  rw [← toList_bytesFor] at hcreate
  generalize bytesFor (Document.textOf graph 2 ++ "\n") = bytes at hcreate hholds
  refine ⟨bytes, hholds, ⟨before, hcreate⟩, fun hdevice => ?_⟩
  have hnot : ¬ before.IsDevice path := by
    rintro ⟨place, hplace, hlocate⟩
    exact hdevice ⟨place, hplace, ((hsame.trans hbefore).locate?_eq path).symm.trans hlocate⟩
  show (after.files.open? path).map _ = _
  rw [Files.open?_create? hcreate hnot]
  rfl

theorem World.Opened.input_eq_ok
    (hopened : world.Opened after)
    {path : String}
    (h : world.input path nulEnds = .ok input) :
    after.input path nulEnds = .ok input := by
  unfold World.input at h ⊢
  split at h
  · next hpath => rwa [if_pos hpath]
  · next hpath =>
      rw [if_neg hpath]
      cases hread : world.read path with
      | none =>
          rw [hread] at h
          cases h
      | some content =>
          rw [hread] at h
          rw [hopened.read hread]
          exact h

/-- **The run command tells the truth.** -/
theorem truthful_performReporting
    (hfresh : world.freshId ≠ "")
    (hcommand : options.command = "run")
    (hpath : ¬ world.Overflows options.pipeline nulEnds)
    (hwritable : Writable world options)
    (hinput : world.input options.input nulEnds = .ok input) :
    Truthful world options nulEnds input
      ((performReporting options nulEnds).runIn world).1
      ((performReporting options nulEnds).runIn world).2 := by
  cases hpipeline : world.pipeline options.pipeline nulEnds with
  | error error =>
      have hcaught : Caught error := by
        rintro fault rfl
        exact hpath (World.pipeline_eq_json_iff.1 hpipeline).2
      obtain ⟨after, hperform⟩ := on_perform_of_error hpipeline
      rw [runIn_performReporting_of_error hcaught hperform]
      exact truthful_of_error hpipeline
  | ok found =>
      obtain ⟨definition, graph⟩ := found
      obtain ⟨config, opened, hopened, hperform⟩ := on_perform hpipeline
      have hkept := hopened.kept
      have hbuilt := built_of_pipeline hfresh hpipeline
      have hwriter : (runOptions definition options).writer = {} := hbuilt.writer
      have hconcluded :=
        concluded_runGraph (hwritable.kept hkept) (hopened.input_eq_ok hinput)
        definition graph config
      rw [hkept.now] at hconcluded
      rw [carryOut_run hcommand] at hperform
      have hcaught := caught_of_ending hwriter
        (Run.ending_of_run hbuilt.reachable.wellFormed input
        (runOptions definition options) [] world.now)
      cases hanswer : (runGraph definition graph options config nulEnds).on opened with
      | mk answer after =>
          rw [hanswer] at hperform hconcluded
          cases hconcluded with
          | concluded hcode hexport =>
              rw [runIn_performReporting_of_ok hperform]
              exact truthful_of_ok hfresh hpipeline fun hne _ =>
                exported_of_wrote hkept.directories (hexport hne)
                  (hbuilt.holdsGraph input _ world.now)
          | refused hcode herror =>
              rw [herror] at hcaught
              rw [runIn_performReporting_of_error hcaught hperform, ← hcode]
              exact truthful_of_ok hfresh hpipeline fun _ hne => absurd hcode hne

/-- A world with one file. -/
def World.holding (name content : String) : World where
  files := KeyMap.empty.insert ("/tmp/work/" ++ name) (Text.utf8 content)
  environment := KeyMap.empty
  now := ⟨0⟩
  freshId := "fresh"

/-- A world with a pipeline whose phase is configured with a number that is out of
range. -/
def outOfRange : World :=
  .holding "p.json"
    "\x7b\"phases\":[\x7b\"name\":\"a\",\"config\":\x7b\"x\":1e400\x7d\x7d]\x7d"

end CommandLine

end PhaseFlow
