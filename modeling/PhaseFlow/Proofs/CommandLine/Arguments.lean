import PhaseFlow.CommandLine.Options
import PhaseFlow.Proofs.Answer

/-!
# Arguments in any order

The arguments of a command line come in groups: a flag, an option with the argument
after it as its value, or an argument of its own (`Group`). What they ask for can be
read off the groups (`Describes`): the first two arguments of their own are the command
and the pipeline file, of an option the last value counts, and a flag is set or not.
Only the order of the arguments of their own and the order of the values of one option
matter, so the groups may stand in any order that keeps these.

Reading takes one group after the other (`parseFrom_group`), and each keeps the
description (`meets_apply`). Main statement: `groups_stand_anywhere`.
-/

namespace PhaseFlow

namespace CommandLine

open Answer (Meets)

/-! ## Groups of arguments -/

/-- An option without a value. -/
inductive Flag where
  | parallel
  | monitor
  | plainLogs

/-- An option with a value. -/
inductive Parameter where
  | input
  | output
  | exportTo
  | logLevel
  | logFile
  deriving DecidableEq

/-- An argument of its own. -/
structure Word where
  text : String
  ne_empty : text ≠ ""
  no_dash : Options.startsWithDash text = false

/-- Arguments that belong together. -/
inductive Group where
  | flag (named : Flag)
  | setting (parameter : Parameter) (value : String)
  | word (own : Word)

def Flag.name : Flag → String
  | parallel => "--parallel"
  | monitor => "--monitor"
  | plainLogs => "--plain-logs"

def Parameter.name : Parameter → String
  | input => "--input"
  | output => "--output"
  | exportTo => "--export"
  | logLevel => "--log-level"
  | logFile => "--log-file"

def Group.arguments : Group → List String
  | .flag named => [named.name]
  | .setting parameter value => [parameter.name, value]
  | .word own => [own.text]

def Group.word? : Group → Option Word
  | .word own => some own
  | _ => none

def Group.value? (parameter : Parameter) : Group → Option String
  | .setting other value => if other = parameter then some value else none
  | _ => none

/-- The arguments of some groups, one group after the other. -/
def argumentsOf (groups : List Group) : List String :=
  groups.flatMap Group.arguments

/-- The arguments of their own, in order. -/
def wordsOf (groups : List Group) : List Word :=
  groups.filterMap Group.word?

/-- The values of an option, in order. -/
def valuesOf (parameter : Parameter) (groups : List Group) : List String :=
  groups.filterMap (Group.value? parameter)

/-! ## What groups ask for -/

namespace Options

def isSet (options : Options) : Flag → Bool
  | .parallel => options.parallel
  | .monitor => options.monitor
  | .plainLogs => options.plainLogs

def valueOf (options : Options) : Parameter → String
  | .input => options.input
  | .output => options.output
  | .exportTo => options.exportTo
  | .logLevel => options.logLevel
  | .logFile => options.logFile

/-- The options with a flag set. -/
def set (options : Options) : Flag → Options
  | .parallel => { options with parallel := true }
  | .monitor => { options with monitor := true }
  | .plainLogs => { options with plainLogs := true }

/-- The options with another value. -/
def assign (options : Options) (value : String) : Parameter → Options
  | .input => { options with input := value }
  | .output => { options with output := value }
  | .exportTo => { options with exportTo := value }
  | .logLevel => { options with logLevel := value }
  | .logFile => { options with logFile := value }

/-- The options are what some groups ask for. -/
structure Describes (options : Options) (groups : List Group) : Prop where
  command : options.command = ((wordsOf groups)[0]?.map Word.text).getD ""
  pipeline : options.pipeline = ((wordsOf groups)[1]?.map Word.text).getD ""
  value : ∀ parameter,
    options.valueOf parameter = (valuesOf parameter groups).getLast?.getD ""
  flag : ∀ flag, options.isSet flag = true ↔ .flag flag ∈ groups
  help : options.help = false

variable {options other : Options} {groups before : List Group}

theorem describes_nil : Describes {} [] where
  command := rfl
  pipeline := rfl
  value parameter := by cases parameter <;> rfl
  flag flag := by cases flag <;> simp [isSet]
  help := rfl

theorem ext_of_views
    (hcommand : options.command = other.command)
    (hpipeline : options.pipeline = other.pipeline)
    (hvalue : ∀ parameter, options.valueOf parameter = other.valueOf parameter)
    (hflag : ∀ flag, options.isSet flag = other.isSet flag)
    (hhelp : options.help = other.help) :
    options = other := by
  have hinput := hvalue .input
  have houtput := hvalue .output
  have hexport := hvalue .exportTo
  have hlevel := hvalue .logLevel
  have hfile := hvalue .logFile
  have hparallel := hflag .parallel
  have hmonitor := hflag .monitor
  have hplain := hflag .plainLogs
  cases options
  cases other
  simp_all [valueOf, isSet]

/-- **Groups ask for one thing only**, and it does not depend on how words, flags and
different options are mixed. -/
theorem Describes.eq_of_perm
    {groups' : List Group}
    (h : Describes options groups)
    (h' : Describes other groups')
    (hperm : groups'.Perm groups)
    (hwords : wordsOf groups' = wordsOf groups)
    (hvalues : ∀ parameter, valuesOf parameter groups' = valuesOf parameter groups) :
    other = options := by
  refine ext_of_views ?_ ?_ ?_ ?_ ?_
  · rw [h'.command, h.command, hwords]
  · rw [h'.pipeline, h.pipeline, hwords]
  · intro parameter
    rw [h'.value, h.value, hvalues]
  · intro flag
    rw [Bool.eq_iff_iff, h'.flag, h.flag]
    exact hperm.mem_iff
  · rw [h'.help, h.help]

/-! ## Reading one group -/

/-- The effect of a group on the options read so far. -/
def apply (options : Options) : Group → Except UsageFault Options
  | .flag flag => .ok (options.set flag)
  | .setting parameter value => .ok (options.assign value parameter)
  | .word word => setPositional word.text options

/-- The argument is not one of those that can be asked for by name. -/
structure Unnamed (argument : String) : Prop where
  not_help : asksForHelp argument = false
  ne_flag : ∀ flag : Flag, argument ≠ flag.name
  ne_parameter : ∀ parameter : Parameter, argument ≠ parameter.name

theorem Unnamed.setFlag?_eq_none
    {argument : String}
    (h : Unnamed argument)
    (options : Options) :
    setFlag? argument options = none := by
  have hparallel : argument ≠ "--parallel" := h.ne_flag .parallel
  have hmonitor : argument ≠ "--monitor" := h.ne_flag .monitor
  have hplain : argument ≠ "--plain-logs" := h.ne_flag .plainLogs
  simp [setFlag?, hparallel, hmonitor, hplain]

theorem Unnamed.setValue?_eq_none
    {argument : String}
    (h : Unnamed argument)
    (value : String)
    (options : Options) :
    setValue? argument value options = none := by
  have hinput : argument ≠ "--input" := h.ne_parameter .input
  have houtput : argument ≠ "--output" := h.ne_parameter .output
  have hexport : argument ≠ "--export" := h.ne_parameter .exportTo
  have hlevel : argument ≠ "--log-level" := h.ne_parameter .logLevel
  have hfile : argument ≠ "--log-file" := h.ne_parameter .logFile
  simp [setValue?, hinput, houtput, hexport, hlevel, hfile]

/-- An argument that is not asked for by name stands for itself, whatever comes after
it. -/
theorem Unnamed.parseFrom_cons
    {argument : String}
    (h : Unnamed argument)
    (options : Options)
    (rest : List String) :
    parseFrom options (argument :: rest) =
      setPositional argument options >>= fun next => parseFrom next rest := by
  cases rest with
  | nil =>
      rw [parseFrom, h.not_help, if_neg Bool.false_ne_true, h.setFlag?_eq_none]
      cases setPositional argument options <;> rfl
  | cons value others =>
      rw [parseFrom, h.not_help, if_neg Bool.false_ne_true, h.setFlag?_eq_none,
        h.setValue?_eq_none]
      cases setPositional argument options <;> rfl

theorem startsWithDash_flag (flag : Flag) : startsWithDash flag.name = true := by
  cases flag <;> rfl

theorem startsWithDash_parameter
    (parameter : Parameter) :
    startsWithDash parameter.name = true := by
  cases parameter <;> rfl

/-- An argument of its own is not asked for by name: all names start with a dash. -/
theorem Unnamed.of_word (word : Word) : Unnamed word.text := by
  have hne : ∀ argument, startsWithDash argument = true → word.text ≠ argument := by
    rintro argument hdash rfl
    rw [word.no_dash] at hdash
    cases hdash
  constructor
  case not_help => simp [asksForHelp, hne "--help" rfl, hne "-h" rfl]
  case ne_flag => exact fun flag => hne flag.name (startsWithDash_flag flag)
  case ne_parameter =>
      exact fun parameter => hne parameter.name (startsWithDash_parameter parameter)

theorem parseFrom_flag
    (options : Options)
    (flag : Flag)
    (rest : List String) :
    parseFrom options (flag.name :: rest) = parseFrom (options.set flag) rest := by
  have hhelp : asksForHelp flag.name = false := by
    cases flag <;> rfl
  have hset : setFlag? flag.name options = some (options.set flag) := by
    cases flag <;> rfl
  cases rest <;> simp [parseFrom, hhelp, hset]

/-- The argument after an option is its value, also if it looks like an option. -/
theorem parseFrom_parameter
    (options : Options)
    (parameter : Parameter)
    (value : String)
    (rest : List String) :
    parseFrom options (parameter.name :: value :: rest) =
      parseFrom (options.assign value parameter) rest := by
  have hhelp : asksForHelp parameter.name = false := by
    cases parameter <;> rfl
  have hflag : setFlag? parameter.name options = none := by
    cases parameter <;> rfl
  have hvalue :
      setValue? parameter.name value options =
        some (options.assign value parameter) := by
    cases parameter <;> rfl
  rw [parseFrom, hhelp, if_neg Bool.false_ne_true, hflag, hvalue]

/-- **One group is read** as a whole, whatever comes after it. -/
theorem parseFrom_group
    (options : Options)
    (group : Group)
    (rest : List String) :
    parseFrom options (group.arguments ++ rest) =
      options.apply group >>= fun next => parseFrom next rest := by
  cases group with
  | flag flag => exact parseFrom_flag options flag rest
  | setting parameter value => exact parseFrom_parameter options parameter value rest
  | word word => exact (Unnamed.of_word word).parseFrom_cons options rest

/-- **All groups are read in turn.** -/
theorem parseFrom_argumentsOf
    (groups : List Group)
    (rest : List String) :
    ∀ options,
      parseFrom options (argumentsOf groups ++ rest) =
        groups.foldlM apply options >>= fun next => parseFrom next rest := by
  induction groups with
  | nil => exact fun options => rfl
  | cons group groups ih =>
      intro options
      rw [argumentsOf, List.flatMap_cons, List.append_assoc, parseFrom_group,
        List.foldlM_cons]
      cases options.apply group with
      | error fault => rfl
      | ok next => exact ih next

/-! ## What one group adds to the description -/

theorem wordsOf_snoc_word
    (before : List Group)
    (word : Word) :
    wordsOf (before ++ [.word word]) = wordsOf before ++ [word] := by
  simp [wordsOf, Group.word?]

theorem wordsOf_snoc_of_none
    {group : Group}
    (h : group.word? = none)
    (before : List Group) :
    wordsOf (before ++ [group]) = wordsOf before := by
  simp [wordsOf, h]

theorem valuesOf_snoc_of_none
    {group : Group} {parameter : Parameter}
    (h : group.value? parameter = none)
    (before : List Group) :
    valuesOf parameter (before ++ [group]) = valuesOf parameter before := by
  simp [valuesOf, h]

theorem Describes.set
    (h : Describes options before)
    (flag : Flag) :
    Describes (options.set flag) (before ++ [.flag flag]) := by
  have hwords : wordsOf (before ++ [.flag flag]) = wordsOf before :=
    wordsOf_snoc_of_none rfl before
  constructor
  case command =>
    rw [hwords, ← h.command]
    cases flag <;> rfl
  case pipeline =>
    rw [hwords, ← h.pipeline]
    cases flag <;> rfl
  case value =>
    intro parameter
    rw [valuesOf_snoc_of_none rfl, ← h.value]
    cases flag <;> cases parameter <;> rfl
  case flag =>
    intro other
    rw [List.mem_append, ← h.flag]
    cases flag <;> cases other <;> simp [isSet, Options.set]
  case help =>
    rw [← h.help]
    cases flag <;> rfl

theorem Describes.assign
    (h : Describes options before)
    (parameter : Parameter)
    (value : String) :
    Describes (options.assign value parameter)
      (before ++ [.setting parameter value]) := by
  have hwords : wordsOf (before ++ [.setting parameter value]) = wordsOf before :=
    wordsOf_snoc_of_none rfl before
  constructor
  case command =>
    rw [hwords, ← h.command]
    cases parameter <;> rfl
  case pipeline =>
    rw [hwords, ← h.pipeline]
    cases parameter <;> rfl
  case value =>
    intro other
    by_cases hsame : parameter = other
    · subst hsame
      have hvalues : valuesOf parameter (before ++ [.setting parameter value]) =
          valuesOf parameter before ++ [value] := by
        simp [valuesOf, Group.value?]
      rw [hvalues, List.getLast?_concat]
      cases parameter <;> rfl
    · have hnone : Group.value? other (.setting parameter value) = none := if_neg hsame
      rw [valuesOf_snoc_of_none hnone, ← h.value]
      cases parameter <;> cases other <;> first | rfl | exact absurd rfl hsame
  case flag =>
    intro flag
    have hmem :
        .flag flag ∈ before ++ [.setting parameter value] ↔ .flag flag ∈ before := by
      simp
    rw [hmem, ← h.flag]
    cases parameter <;> cases flag <;> rfl
  case help =>
    rw [← h.help]
    cases parameter <;> rfl

/-- A further word changes the command and the pipeline file at most. -/
theorem Describes.place
    (h : Describes options before)
    (word : Word)
    {command pipeline : String}
    (hcommand : command = ((wordsOf before ++ [word])[0]?.map Word.text).getD "")
    (hpipeline : pipeline = ((wordsOf before ++ [word])[1]?.map Word.text).getD "") :
    Describes { options with command := command, pipeline := pipeline }
      (before ++ [.word word]) where
  command := by rw [wordsOf_snoc_word, ← hcommand]
  pipeline := by rw [wordsOf_snoc_word, ← hpipeline]
  value parameter := by
    rw [valuesOf_snoc_of_none rfl, ← h.value]
    cases parameter <;> rfl
  flag flag := by
    have hmem : .flag flag ∈ before ++ [.word word] ↔ .flag flag ∈ before := by simp
    rw [hmem, ← h.flag]
    cases flag <;> rfl
  help := h.help

/-- The first word is the command, the second one is the pipeline file, and there is no
place for a third. -/
theorem meets_setPositional
    (h : Describes options before)
    (hroom : (wordsOf before).length ≤ 2)
    (word : Word) :
    Meets (fun next =>
        Describes next (before ++ [.word word]) ∧
        (wordsOf (before ++ [.word word])).length ≤ 2) (fun fault =>
        (wordsOf before).length = 2 ∧ fault = .unexpectedArgument word.text)
      (setPositional word.text options) := by
  have hcommand := h.command
  have hpipeline := h.pipeline
  unfold setPositional
  rw [word.no_dash, if_neg Bool.false_ne_true, wordsOf_snoc_word]
  cases hwords : wordsOf before with
  | nil =>
      rw [hwords] at hcommand hpipeline
      have hempty : options.command = "" := hcommand
      rw [if_pos hempty]
      refine ⟨h.place word ?_ ?_, by simp⟩
      · rw [hwords]
        rfl
      · rw [hwords]
        exact hpipeline
  | cons first others =>
      rw [hwords] at hcommand hpipeline hroom
      have hfirst : options.command = first.text := hcommand
      rw [if_neg (hfirst ▸ first.ne_empty)]
      cases others with
      | nil =>
          have hempty : options.pipeline = "" := hpipeline
          rw [if_pos hempty]
          refine ⟨h.place word ?_ ?_, by simp⟩
          · rw [hwords]
            exact hcommand
          · rw [hwords]
            rfl
      | cons second others =>
          have hsecond : options.pipeline = second.text := hpipeline
          have hnone : others = [] := by
            simpa using hroom
          rw [if_neg (hsecond ▸ second.ne_empty), hnone]
          exact ⟨rfl, rfl⟩

/-- **One group**: it is added to the description, unless it is a third word. -/
theorem meets_apply
    (h : Describes options before)
    (hroom : (wordsOf before).length ≤ 2)
    (group : Group)
    (later : List Group) :
    Meets (fun next =>
        Describes next (before ++ [group]) ∧
        (wordsOf (before ++ [group])).length ≤ 2) (fun fault =>
        ∃ third,
          (wordsOf (before ++ group :: later))[2]? = some third ∧
          fault = .unexpectedArgument third.text) (options.apply group) := by
  cases group with
  | flag flag =>
      rw [wordsOf_snoc_of_none rfl]
      exact ⟨h.set flag, hroom⟩
  | setting parameter value =>
      rw [wordsOf_snoc_of_none rfl]
      exact ⟨h.assign parameter value, hroom⟩
  | word word =>
      refine (meets_setPositional h hroom word).imp (fun _ => id) ?_
      rintro fault ⟨hfull, rfl⟩
      refine ⟨word, ?_, rfl⟩
      have hwords :
          wordsOf (before ++ .word word :: later) =
            wordsOf before ++ word :: wordsOf later := by
        simp [wordsOf, Group.word?]
      rw [hwords, List.getElem?_append_right (Nat.le_of_eq hfull), hfull]
      rfl

/-- **All groups**: they are what the options describe, unless there is a third word. -/
theorem meets_foldlM_apply
    (groups : List Group) :
    Meets
      (fun options => Describes options groups ∧ (wordsOf groups).length ≤ 2)
      (fun fault =>
          ∃ third,
            (wordsOf groups)[2]? = some third ∧
            fault = .unexpectedArgument third.text) (groups.foldlM apply {}) := by
  refine Meets.foldlM
    (fun before options => Describes options before ∧ (wordsOf before).length ≤ 2)
    ?_ ⟨describes_nil, Nat.zero_le 2⟩
  rintro before group later options rfl ⟨hdescribes, hroom⟩
  exact meets_apply hdescribes hroom group later

theorem exists_foldlM_apply
    {groups : List Group}
    (hroom : (wordsOf groups).length ≤ 2) :
    ∃ options, groups.foldlM apply {} = .ok options ∧ Describes options groups := by
  have hmeets := meets_foldlM_apply groups
  cases hfold : groups.foldlM apply {} with
  | ok options =>
      rw [hfold] at hmeets
      exact ⟨options, rfl, hmeets.1⟩
  | error fault =>
      rw [hfold] at hmeets
      obtain ⟨third, hthird, -⟩ := hmeets
      obtain ⟨hlt, -⟩ := List.getElem?_eq_some_iff.1 hthird
      omega

theorem foldlM_apply_of_third
    {groups : List Group} {third : Word}
    (hthird : (wordsOf groups)[2]? = some third) :
    groups.foldlM apply {} = .error (.unexpectedArgument third.text) := by
  have hmeets := meets_foldlM_apply groups
  cases hfold : groups.foldlM apply {} with
  | ok options =>
      rw [hfold] at hmeets
      obtain ⟨hlt, -⟩ := List.getElem?_eq_some_iff.1 hthird
      exact absurd hmeets.2 (by omega)
  | error fault =>
      rw [hfold] at hmeets
      obtain ⟨found, hfound, rfl⟩ := hmeets
      obtain rfl := Option.some.inj (hfound.symm.trans hthird)
      rfl

/-- **Groups with two words at most are read as what they ask for.** -/
theorem exists_parse
    {groups : List Group}
    (hroom : (wordsOf groups).length ≤ 2) :
    ∃ options,
      parse (argumentsOf groups) = .ok options ∧ Describes options groups := by
  obtain ⟨options, hfold, hdescribes⟩ := exists_foldlM_apply hroom
  refine ⟨options, ?_, hdescribes⟩
  rw [parse, ← List.append_nil (argumentsOf groups), parseFrom_argumentsOf, hfold]
  rfl

/-! ## Arguments that are refused -/

/-- After groups that leave a place, an argument that looks like an option must be
one. -/
theorem parse_unnamed
    {groups : List Group}
    (hroom : (wordsOf groups).length ≤ 2)
    {argument : String}
    (hunnamed : Unnamed argument)
    (hdash : startsWithDash argument = true)
    (rest : List String) :
    parse (argumentsOf groups ++ argument :: rest) =
      .error (.unknownOption argument) := by
  obtain ⟨options, hfold, -⟩ := exists_foldlM_apply hroom
  have hrefused : setPositional argument options = .error (.unknownOption argument) := by
    rw [setPositional, hdash, if_pos rfl]
  rw [parse, parseFrom_argumentsOf, hfold]
  show parseFrom options (argument :: rest) = _
  rw [hunnamed.parseFrom_cons, hrefused]
  rfl

/-- An option that is the last argument lacks its value. -/
theorem parse_incomplete
    {groups : List Group}
    (hroom : (wordsOf groups).length ≤ 2)
    (parameter : Parameter) :
    parse (argumentsOf groups ++ [parameter.name]) =
      .error (.unknownOption parameter.name) := by
  obtain ⟨options, hfold, -⟩ := exists_foldlM_apply hroom
  rw [parse, parseFrom_argumentsOf, hfold]
  show parseFrom options [parameter.name] = _
  cases parameter <;>
    simp [parseFrom, Parameter.name, asksForHelp, setFlag?, setPositional, startsWithDash]

theorem parse_third
    {groups : List Group} {third : Word}
    (hthird : (wordsOf groups)[2]? = some third)
    (rest : List String) :
    parse (argumentsOf groups ++ rest) = .error (.unexpectedArgument third.text) := by
  rw [parse, parseFrom_argumentsOf, foldlM_apply_of_third hthird]
  rfl

/-- **Groups of arguments may stand anywhere.** Groups with two words at most are read
as what they ask for, in every order that keeps the words and the values of each option
in order. A third word is refused, and so is an argument that only looks like an option,
or an option without its value. -/
theorem groups_stand_anywhere
    (groups : List Group) :
    ((wordsOf groups).length ≤ 2 →
      ∃ options,
        parse (argumentsOf groups) = .ok options ∧
        Describes options groups ∧
        ∀ other : List Group,
          other.Perm groups →
          wordsOf other = wordsOf groups →
          (∀ parameter, valuesOf parameter other = valuesOf parameter groups) →
          parse (argumentsOf other) = .ok options) ∧
    (∀ third,
        (wordsOf groups)[2]? = some third →
        ∀ rest,
          parse (argumentsOf groups ++ rest) =
            .error (.unexpectedArgument third.text)) ∧
    ((wordsOf groups).length ≤ 2 →
      (∀ argument rest,
          Unnamed argument →
          startsWithDash argument = true →
          parse (argumentsOf groups ++ argument :: rest) =
            .error (.unknownOption argument)) ∧
      ∀ parameter : Parameter,
        parse (argumentsOf groups ++ [parameter.name]) =
          .error (.unknownOption parameter.name)) := by
  refine ⟨fun hroom => ?_, fun third hthird => parse_third hthird, fun hroom =>
    ⟨fun argument rest hunnamed hdash => parse_unnamed hroom hunnamed hdash rest,
      parse_incomplete hroom⟩⟩
  obtain ⟨options, hok, hdescribes⟩ := exists_parse hroom
  refine ⟨options, hok, hdescribes, fun other hperm hwords hvalues => ?_⟩
  obtain ⟨found, hfound, hother⟩ :=
    exists_parse (hwords.symm ▸ hroom : (wordsOf other).length ≤ 2)
  rw [hfound, hdescribes.eq_of_perm hother hperm hwords hvalues]

/-- A run that names its input twice, the second time by a word that looks like an
option. -/
def mixed : List Group :=
  [.setting .input "a.json", .word ⟨"run", by decide, by decide⟩, .flag .parallel,
    .setting .input "--help", .word ⟨"p.json", by decide, by decide⟩]

/-- The same groups, the flag first. -/
def flagFirst : List Group :=
  [.flag .parallel, .setting .input "a.json", .word ⟨"run", by decide, by decide⟩,
    .setting .input "--help", .word ⟨"p.json", by decide, by decide⟩]

theorem groups_stand_anywhere_mixed :
    (wordsOf mixed).length ≤ 2 ∧
    flagFirst.Perm mixed ∧
    ∃ options,
      parse (argumentsOf mixed) = .ok options ∧
      Describes options mixed ∧
      parse (argumentsOf flagFirst) = .ok options ∧
      parse (argumentsOf mixed ++ ["--verbose"]) =
        .error (.unknownOption "--verbose") := by
  have hroom : (wordsOf mixed).length ≤ 2 := by decide
  have hperm : flagFirst.Perm mixed := (List.Perm.swap _ _ _).trans (.cons _ (.swap _ _ _))
  obtain ⟨hreads, -, hrefuses⟩ := groups_stand_anywhere mixed
  obtain ⟨options, hok, hdescribes, hother⟩ := hreads hroom
  have hsame := hother flagFirst hperm rfl fun parameter => by cases parameter <;> rfl
  have hunnamed : Unnamed "--verbose" :=
    ⟨rfl, fun flag => by cases flag <;> decide,
      fun parameter => by cases parameter <;> decide⟩
  exact ⟨hroom, hperm, options, hok, hdescribes, hsame, (hrefuses hroom).1 _ [] hunnamed rfl⟩

end Options

end CommandLine

end PhaseFlow
