import PhaseFlow.Proofs.CommandLine.ExitCodes
import PhaseFlow.Proofs.Definition.Stamps

/-!
# What validation leaves to the run

Validating a pipeline reads it, builds it and orders it, and so does running it. A run
then goes on to what only it looks at: the reserved name, and the retry settings of the
phases it comes to. So a pipeline that was found valid can still be refused, but for
these two reasons only (`Unchecked`).

The run may come later, and with another identifier; the graph is the same but for these
(`pipeline_of_same`).

Main statement: `valid_pipeline_refused_only_if_unchecked`.
-/

namespace PhaseFlow

namespace CommandLine

/-! ## Command lines of a command and a path -/

/-- The options of a command with a pipeline file and nothing else. -/
def bare (command path : String) : Options :=
  { command := command, pipeline := path }

theorem parse_run
    (path : String) :
    Options.parse ["run", path] = Options.parseFrom { command := "run" } [path] :=
  rfl

theorem parse_validate
    (path : String) :
    Options.parse ["validate", path] =
      Options.parseFrom { command := "validate" } [path] :=
  rfl

theorem ne_of_startsWithDash
    {path option : String}
    (hpath : Options.startsWithDash path = false)
    (hoption : Options.startsWithDash option = true) :
    path ≠ option := by
  rintro rfl
  cases hpath.symm.trans hoption

/-- A text that does not look like an option is taken for the pipeline file. -/
theorem parseFrom_path
    {command path : String}
    (hcommand : command ≠ "")
    (hpath : Options.startsWithDash path = false) :
    Options.parseFrom { command := command } [path] = .ok (bare command path) := by
  have hne : ∀ option, Options.startsWithDash option = true → path ≠ option :=
    fun option => ne_of_startsWithDash hpath
  have hhelp : Options.asksForHelp path = false := by
    simp [Options.asksForHelp, hne "--help" rfl, hne "-h" rfl]
  have hflag : ∀ options, Options.setFlag? path options = none := by
    intro options
    simp [Options.setFlag?, hne "--parallel" rfl, hne "--monitor" rfl,
      hne "--plain-logs" rfl]
  unfold Options.parseFrom
  simp only [hhelp, hflag, Bool.false_eq_true, if_false]
  simp [Options.setPositional, hpath, hcommand, bare]

/-- No flag names a pipeline file. -/
theorem pipeline_of_setFlag?
    {argument : String} {options found : Options}
    (h : Options.setFlag? argument options = some found) :
    found.pipeline = options.pipeline := by
  unfold Options.setFlag? at h
  split at h
  · cases h
    rfl
  split at h
  · cases h
    rfl
  split at h
  · cases h
    rfl
  · cases h

/-- Nothing else leads to a command with a pipeline file. -/
theorem startsWithDash_of_parseFrom
    {command path : String} {options : Options}
    (h : Options.parseFrom { command := command } [path] = .ok options)
    (hhelp : options.help = false)
    (hpipeline : options.pipeline ≠ "") :
    Options.startsWithDash path = false := by
  unfold Options.parseFrom at h
  split at h
  · cases h
    cases hhelp
  · split at h
    · next found hflag =>
        cases h
        exact absurd (pipeline_of_setFlag? hflag) hpipeline
    · dsimp only at h
      unfold Options.setPositional at h
      split at h
      · cases h
      · next hdash => exact Bool.eq_false_iff.2 hdash

theorem commanded_bare
    {command path : String}
    (hcommand : command = "run" ∨ command = "validate")
    (hpath : Options.startsWithDash path = false)
    (hne : path ≠ "") :
    Commanded [command, path] (bare command path) where
  parse := by
    rcases hcommand with rfl | rfl
    · exact (parse_run path).trans (parseFrom_path (by decide) hpath)
    · exact (parse_validate path).trans (parseFrom_path (by decide) hpath)
  help := rfl
  check := by
    rcases hcommand with rfl | rfl <;> simp [Options.check, bare, Options.commands, hne]

variable {world other : World} {nulEnds : Bool}

/-- What is refused as a configuration is neither an option nor empty. -/
theorem path_of_refused
    {name path : String}
    (h : ((program name ["run", path] nulEnds).runIn world).1 = .configuration) :
    Options.startsWithDash path = false ∧ path ≠ "" := by
  rcases program_cases name ["run", path] nulEnds world with
    ⟨hcode, -⟩ | ⟨hcode, -⟩ | ⟨options, hcommanded⟩
  · cases hcode.symm.trans h
  · cases hcode.symm.trans h
  · have hpipeline : options.pipeline ≠ "" := fun hempty =>
      hcommanded.not_misused
        (.inr (.unfit hcommanded.parse hcommanded.help (.inr (.inl hempty))))
    have hparse := hcommanded.parse
    rw [parse_run] at hparse
    have hpath := startsWithDash_of_parseFrom hparse hcommanded.help hpipeline
    obtain rfl : options = bare "run" path :=
      Except.ok.inj (hparse.symm.trans (parseFrom_path (by decide) hpath))
    exact ⟨hpath, hpipeline⟩

/-! ## What is checked only when a pipeline is run -/

/-- What a run can complain of and a validation cannot. -/
inductive Unchecked
    (definition : Definition)
    (graph : Graph)
    (report : Run.Report) : Prop
  | reserved (hname : definition.Names Run.inputKey)
  | settings
      {id : String} {fault : ConfigurationFault}
      (hid : id ∈ Log.dispatchedIn report.events)
      (hfault : Run.Misconfigured definition.options graph id fault)
      (houtcome : report.outcome = .error (.configuration fault))

/-- A pipeline that is found valid can be built, and its graph has no cycle. -/
theorem valid_of_performReporting
    {options : Options}
    (hfresh : world.freshId ≠ "")
    (hcommand : options.command = "validate")
    (h : ((performReporting options nulEnds).runIn world).1 = .success) :
    ∃ definition graph,
      world.pipeline options.pipeline nulEnds = .ok (definition, graph) ∧
      ¬ graph.HasCycle := by
  have hreported : ∀ {error after},
      (perform options nulEnds).on world ≠ (.error error, after) := by
    intro error after hperform
    by_cases hjson : ∃ fault, error = .json fault
    · obtain ⟨fault, rfl⟩ := hjson
      rw [runIn_performReporting_of_json hperform] at h
      cases h
    · rw [runIn_performReporting_of_error (fun fault heq => hjson ⟨fault, heq⟩)
          hperform] at h
      cases h
  cases hpipeline : world.pipeline options.pipeline nulEnds with
  | error error =>
      obtain ⟨after, hperform⟩ := on_perform_of_error hpipeline
      exact absurd hperform hreported
  | ok found =>
      obtain ⟨definition, graph⟩ := found
      refine ⟨definition, graph, rfl, ?_⟩
      obtain ⟨config, opened, -, hperform⟩ := on_perform hpipeline
      cases horder : Schedule.executionOrder graph with
      | ok order =>
          exact Schedule.not_hasCycle_of_executionOrder
            (built_of_pipeline hfresh hpipeline).reachable.wellFormed horder
      | error error =>
          have hlevels : (carryOut definition graph options config nulEnds).on opened =
              (.error error, opened) := by
            unfold carryOut showLevels
            rw [if_pos hcommand, horder]
            rfl
          exact absurd (hperform.trans hlevels) hreported

theorem runOptions_bare
    (definition : Definition)
    (command path : String) :
    runOptions definition (bare command path) = definition.options := by
  obtain ⟨name, description, phases, edges, ⟨parallel, monitor, retry⟩, logging⟩ :=
    definition
  simp [runOptions, bare]

/-- A pipeline that can be built in one world can be built in every world in which the
file reads the same, and it has a cycle in both or in neither. -/
theorem pipeline_of_same
    (henvironment : other.environment = world.environment)
    {path : String}
    (hfile : other.read path = world.read path)
    {definition : Definition} {graph : Graph}
    (h : world.pipeline path nulEnds = .ok (definition, graph)) :
    other.pipeline path nulEnds =
      .ok (definition, graph.stamped other.freshId other.now) := by
  obtain ⟨hdefinition, hgraph⟩ := World.pipeline_eq_ok_iff.1 h
  refine World.pipeline_eq_ok_iff.2 ⟨by rw [henvironment, hfile, hdefinition], ?_⟩
  rw [Definition.build_stamped definition _ other.freshId world.freshId other.now
      world.now, hgraph]
  rfl

/-- **A valid pipeline is refused for two reasons only.** If a file is found valid, and
is run later with no further options, then the run ends with the code of a configuration
error only if a phase has the reserved name, or if the run stops at a phase whose retry
settings are refused: validation builds and orders the graph, and looks at neither. -/
theorem valid_pipeline_refused_only_if_unchecked
    (name path : String)
    (nulEnds : Bool)
    {world other : World}
    (hfresh : world.freshId ≠ "")
    (hother : other.freshId ≠ "")
    (henvironment : other.environment = world.environment)
    (hfile : other.read path = world.read path)
    (hvalid : ((program name ["validate", path] nulEnds).runIn world).1.number = 0)
    (hrefused : ((program name ["run", path] nulEnds).runIn other).1.number = 2) :
    other.Runs (bare "run" path) nulEnds .null Unchecked := by
  -- The path is none of the options, so both command lines consist of a command and a file.
  obtain ⟨hpath, hne⟩ :=
    path_of_refused ((ExitCode.number_eq_iff _ .configuration).1 hrefused)
  rw [(commanded_bare (.inr rfl) hpath hne).program_eq] at hvalid
  rw [(commanded_bare (.inl rfl) hpath hne).program_eq] at hrefused
  have hvalidates := (ExitCode.number_eq_iff _ .success).1 hvalid
  obtain ⟨definition, graph, hpipeline, hacyclic⟩ :=
    valid_of_performReporting hfresh rfl hvalidates
  have hsame : other.pipeline (bare "run" path).pipeline nulEnds =
      .ok (definition, graph.stamped other.freshId other.now) :=
    pipeline_of_same henvironment hfile hpipeline
  have hread : ¬ other.Overflows (bare "run" path).pipeline nulEnds := by
    intro hoverflows
    cases hsame.symm.trans (World.pipeline_eq_json_iff.2 ⟨rfl, hoverflows⟩)
  have hcommand : (bare "run" path).command = "run" := rfl
  have hwritable : Writable other (bare "run" path) := ⟨.inl rfl, .inl rfl⟩
  have hinput : other.input (bare "run" path).input nulEnds = .ok .null := rfl
  have htruth := truthful_performReporting hother hcommand hread hwritable hinput
  rcases htruth.configuration.1 hrefused with ⟨error, herror⟩ | hobstructed
  · cases hsame.symm.trans herror
  · refine (runs_iff hsame).2 ?_
    have hbuilt := built_of_pipeline hother hsame
    have hcase := (runs_iff hsame).1 hobstructed
    cases hcase with
    | cycle hcycle => exact absurd (Graph.hasCycle_stamped.1 hcycle) hacyclic
    | reserved hnode => exact .reserved ((hbuilt.built.hasNode _).1 hnode)
    | settings hid hfault houtcome =>
        rw [runOptions_bare] at hfault
        exact .settings hid hfault houtcome

/-- A world with a pipeline that asks for fewer than no retries. -/
def negativeRetries : World :=
  .holding "p.json"
    "\x7b\"phases\":[\x7b\"name\":\"a\",\"config\":\x7b\"retries\":-1\x7d\x7d]\x7d"

/-- Validation and running need not agree. -/
theorem valid_pipeline_refused :
    ((program "phasegraph" ["validate", "p.json"]).runIn
        negativeRetries).1.number =
      0 ∧
    ((program "phasegraph" ["run", "p.json"]).runIn negativeRetries).1.number =
      2 := by
  constructor <;> decide +kernel

theorem valid_pipeline_refused_only_if_unchecked_negativeRetries :
    negativeRetries.freshId ≠ "" ∧
    ((program "phasegraph" ["validate", "p.json"]).runIn
        negativeRetries).1.number =
      0 ∧
    ((program "phasegraph" ["run", "p.json"]).runIn negativeRetries).1.number =
      2 ∧
    negativeRetries.Runs (bare "run" "p.json") false .null Unchecked := by
  have hfresh : negativeRetries.freshId ≠ "" := by decide
  have hvalid :
      ((program "phasegraph" ["validate", "p.json"]).runIn
          negativeRetries).1.number =
        0 := by
    decide +kernel
  have hrefused : ((program "phasegraph" ["run", "p.json"]).runIn negativeRetries).1.number =
      2 := by
    decide +kernel
  exact ⟨hfresh, hvalid, hrefused, valid_pipeline_refused_only_if_unchecked
    "phasegraph" "p.json"
    false hfresh hfresh rfl rfl hvalid hrefused⟩

end CommandLine

end PhaseFlow
