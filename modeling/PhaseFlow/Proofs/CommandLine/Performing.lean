import PhaseFlow.CommandLine.Program
import PhaseFlow.CommandLine.World
import PhaseFlow.Proofs.CommandLine.Files
import PhaseFlow.Proofs.Definition.Expansion

/-!
# Scripts and commands in a world

A script asks, and the world answers. Whatever is asked, the variables and the time stay
as they are, and so do the directories (`Script.kept_runIn`); only files and streams
change.

A command is a script that may raise an error, which ends it (`Command.on_bind`). There
is one lemma for each command that others are made of: it says what is answered and what
the world is afterwards.
-/

namespace PhaseFlow

namespace CommandLine

variable {α β : Type}

/-! ## Scripts -/

@[simp] theorem Script.runIn_pure
    (value : α)
    (world : World) :
    (pure value : Script α).runIn world = (value, world) :=
  rfl

@[simp] theorem Script.runIn_request
    (request : Request)
    (world : World) :
    (Script.request request).runIn world = world.answer request :=
  rfl

@[simp] theorem Script.runIn_bind
    (script : Script α)
    (next : α → Script β)
    (world : World) :
    (script >>= next).runIn world =
      (next (script.runIn world).1).runIn (script.runIn world).2 := by
  induction script generalizing world with
  | done value => rfl
  | ask request rest ih => exact ih _ _

/-- What no script can change: the variables, the time, the identifier that is handed
out, and which directories there are. -/
structure World.Kept (world after : World) : Prop where
  environment : after.environment = world.environment
  now : after.now = world.now
  freshId : after.freshId = world.freshId
  directories : world.files.SameDirectories after.files

theorem World.Kept.refl (world : World) : world.Kept world :=
  ⟨rfl, rfl, rfl, .refl _⟩

theorem World.Kept.trans
    {world middle after : World}
    (h : world.Kept middle)
    (h' : middle.Kept after) :
    world.Kept after :=
  ⟨h'.environment.trans h.environment, h'.now.trans h.now, h'.freshId.trans h.freshId,
    h.directories.trans h'.directories⟩

/-- A file that cannot be made leaves the files as they were. -/
theorem World.answer_createFile
    (world : World)
    (path : String)
    (content : List UInt8) :
    world.answer (.createFile path content) =
      ((world.files.create? path content).isSome,
        { world with
          files := (world.files.create? path content).getD world.files }) := by
  cases hfiles : world.files.create? path content <;> simp [answer, hfiles]

theorem World.answer_extendFile
    (world : World)
    (path : String)
    (content : List UInt8) :
    world.answer (.extendFile path content) =
      ((world.files.extend? path content).isSome,
        { world with
          files := (world.files.extend? path content).getD world.files }) := by
  cases hfiles : world.files.extend? path content <;> simp [answer, hfiles]

/-- **No request changes more than the content of files and the streams.** -/
theorem World.kept_answer
    (world : World)
    (request : Request) :
    world.Kept (world.answer request).2 := by
  cases request with
  | createFile path content =>
      rw [answer_createFile]
      cases hfiles : world.files.create? path content with
      | none => exact .refl world
      | some files => exact ⟨rfl, rfl, rfl, Files.sameDirectories_create? hfiles⟩
  | extendFile path content =>
      rw [answer_extendFile]
      cases hfiles : world.files.extend? path content with
      | none => exact .refl world
      | some files => exact ⟨rfl, rfl, rfl, Files.sameDirectories_extend? hfiles⟩
  | _ => exact ⟨rfl, rfl, rfl, .refl _⟩

/-- Whatever a script asks, the variables, the time and the directories stay. -/
theorem Script.kept_runIn
    (script : Script α)
    (world : World) :
    world.Kept (script.runIn world).2 := by
  induction script generalizing world with
  | done value => exact .refl world
  | ask request next ih => exact (world.kept_answer request).trans (ih _ _)

theorem Script.kept_of_runIn
    {script : Script α} {world after : World} {value : α}
    (h : script.runIn world = (value, after)) :
    world.Kept after := by
  have hkept := script.kept_runIn world
  rwa [h] at hkept

/-! ## Commands -/

namespace Command

/-- The answer of a command performed in a world, and the world afterwards. -/
def on (command : Command α) (world : World) : Result α × World :=
  command.run.runIn world

@[simp] theorem on_pure
    (value : α)
    (world : World) :
    (pure value : Command α).on world = (.ok value, world) :=
  rfl

@[simp] theorem on_throw
    (error : Error)
    (world : World) :
    (throw error : Command α).on world = (.error error, world) :=
  rfl

@[simp] theorem on_answer
    (answer : Result α)
    (world : World) :
    Command.on (ExceptT.mk (pure answer)) world = (answer, world) :=
  rfl

@[simp] theorem on_script
    (script : Script α)
    (world : World) :
    (liftM script : Command α).on world =
      (.ok (script.runIn world).1, (script.runIn world).2) :=
  Script.runIn_bind script _ world

theorem on_script_eq
    {script : Script α} {world after : World} {value : α}
    (h : script.runIn world = (value, after)) :
    (liftM script : Command α).on world = (.ok value, after) := by
  rw [on_script, h]

/-- A command that fails ends the commands after it, and keeps what was written. -/
theorem on_bind (command : Command α) (next : α → Command β) (world : World) :
    (command >>= next).on world =
      match command.on world with
      | (.ok value, after) => (next value).on after
      | (.error error, after) => (.error error, after) := by
  have hbind : (command >>= next).on world =
      (ExceptT.bindCont next (command.on world).1).runIn (command.on world).2 :=
    Script.runIn_bind command.run (ExceptT.bindCont next) world
  rw [hbind]
  cases command.on world with
  | mk answer after => cases answer <;> rfl

@[simp] theorem on_bind_ok
    {command : Command α} {next : α → Command β} {world after : World}
    {value : α}
    (h : command.on world = (.ok value, after)) :
    (command >>= next).on world = (next value).on after := by
  rw [on_bind, h]

@[simp] theorem on_bind_error
    {command : Command α} {next : α → Command β} {world after : World}
    {error : Error}
    (h : command.on world = (.error error, after)) :
    (command >>= next).on world = (.error error, after) := by
  rw [on_bind, h]

theorem kept_of_on
    {command : Command α} {world after : World} {answer : Result α}
    (h : command.on world = (answer, after)) :
    world.Kept after :=
  Script.kept_of_runIn h

end Command

/-! ## Reading -/

namespace World

/-- The content of a file that can be read. -/
def read (world : World) (path : String) : Option ByteArray :=
  (world.answer (.readFile path)).1

/-- The input in a file, or why there is none; null if there is no file to read it
from. -/
def input
    (world : World)
    (path : String)
    (nulEnds : Bool := false) :
    Result Json :=
  if path = "" then .ok .null
  else
    match world.read path with
    | none => .error (.definition (.unreadableInput path))
    | some content =>
        (Json.parse nulEnds content).mapError
          (.ofReadFault (.definition (.inputNotJson path)))

/-- A file holds a number that is out of range. -/
def Overflows (world : World) (path : String) (nulEnds : Bool) : Prop :=
  ∃ content, world.read path = some content ∧ Json.parse nulEnds content = .error .outOfRange

end World

/-- The environment that is asked for agrees with the variables of the world at the
names it is asked for. -/
theorem runIn_environmentFor
    (names : List String)
    (world : World) :
    ∃ environment,
      (environmentFor names).runIn world = (environment, world) ∧
      ∀ name,
        environment.get? name =
          if name ∈ names then world.environment.get? name else none := by
  induction names with
  | nil => exact ⟨KeyMap.empty, rfl, fun name => rfl⟩
  | cons first rest ih =>
      obtain ⟨environment, hrun, hvalues⟩ := ih
      cases hfirst : world.environment.get? first with
      | none =>
          refine ⟨environment, ?_, fun name => ?_⟩
          · simp [environmentFor, hrun, Script.request, Script.runIn, World.answer, hfirst]
          · rw [hvalues]
            by_cases heq : name = first
            · simp [heq, hfirst]
            · simp [heq]
      | some value =>
          refine ⟨environment.insert first value, ?_, fun name => ?_⟩
          · simp [environmentFor, hrun, Script.request, Script.runIn, World.answer, hfirst]
          · rw [KeyMap.get?_insert, hvalues]
            by_cases heq : first = name
            · simp [← heq, hfirst]
            · simp [heq, Ne.symm heq]

/-- **The program asks for as many variables as the definition needs.** -/
theorem on_loadDefinition
    (path : String)
    (nulEnds : Bool)
    (world : World) :
    (loadDefinition path nulEnds).on world =
      (Definition.ofFile world.environment path (world.read path) nulEnds,
        world) := by
  obtain ⟨environment, hrun, hvalues⟩ := runIn_environmentFor
    ((((world.read path).bind fun bytes => (Json.parse nulEnds bytes).toOption).map
      Environment.mentioned).getD []) world
  have hcontent :
      (liftM (Script.request (.readFile path)) : Command (Option ByteArray)).on
        world =
        (.ok (world.read path), world) :=
    rfl
  have hagree : Definition.ofFile environment path (world.read path) nulEnds =
      Definition.ofFile world.environment path (world.read path) nulEnds := by
    refine Definition.ofFile_congr fun bytes document hbytes hdocument name hname => ?_
    have hmentioned : name ∈ (((world.read path).bind fun bytes =>
        (Json.parse nulEnds bytes).toOption).map Environment.mentioned).getD [] := by
      rw [hbytes, Option.bind_some, hdocument]
      exact hname
    rw [hvalues, if_pos hmentioned]
  unfold loadDefinition
  rw [Command.on_bind_ok hcontent]
  exact (Command.on_bind_ok (Command.on_script_eq hrun)).trans (congrArg (·, world) hagree)

theorem on_loadInput
    (path : String)
    (nulEnds : Bool)
    (world : World) :
    (loadInput path nulEnds).on world = (world.input path nulEnds, world) := by
  unfold loadInput World.input
  split
  · rfl
  · have hanswer :
        (liftM (Script.request (.readFile path)) : Command (Option ByteArray)).on
          world =
          (.ok (world.read path), world) :=
      rfl
    rw [Command.on_bind_ok hanswer]
    cases world.read path with
    | none => rfl
    | some content =>
        dsimp only
        cases Json.parse nulEnds content <;> rfl

/-! ## Writing -/

/-- Opening the log file leaves what can be read. -/
theorem read_openLog
    (config : Log.Config)
    {world : World} {path : String} {content : ByteArray}
    (h : world.read path = some content) :
    ((openLog config).runIn world).2.read path = some content := by
  unfold openLog
  split
  · obtain ⟨bytes, hopen, rfl⟩ := Option.map_eq_some_iff.1 h
    rw [Script.runIn_bind, Script.runIn_request, World.answer_extendFile]
    cases hfiles : world.files.extend? config.path [] with
    | none => exact h
    | some files =>
        show (files.open? path).map _ = _
        rw [Files.open?_extend?_nil hfiles hopen, Option.map_some]
  · exact h

/-- What can be read after the log file was opened could be read before, or is
nothing. -/
theorem read_of_read_openLog
    (config : Log.Config)
    {world : World} {path : String} {content : ByteArray}
    (h : ((openLog config).runIn world).2.read path = some content) :
    world.read path = some content ∨ content = ByteArray.mk #[] := by
  unfold openLog at h
  split at h
  · rw [Script.runIn_bind, Script.runIn_request, World.answer_extendFile] at h
    cases hfiles : world.files.extend? config.path [] with
    | none =>
        rw [hfiles] at h
        exact .inl h
    | some files =>
        rw [hfiles] at h
        have hread : (files.open? path).map (fun bytes => ByteArray.mk bytes.toArray) =
            some content := h
        obtain ⟨bytes, hopen, rfl⟩ := Option.map_eq_some_iff.1 hread
        rcases Files.open?_of_extend?_nil hfiles hopen with hbefore | rfl
        · exact .inl (congrArg (Option.map _) hbefore)
        · exact .inr rfl
  · exact .inl h

/-- The text of a result, and a line end, is written where results are written. -/
theorem on_writeResult
    {path : String} {world : World}
    (h : path = "" ∨ world.files.Accepts path)
    (text : String) :
    ∃ after,
      (writeResult path text).on world = (.ok (), after) ∧
      (path ≠ "" →
        world.files.create? path (Text.utf8 (text ++ "\n")) = some after.files) := by
  unfold writeResult
  split
  · next hpath => exact ⟨_, Command.on_script _ _, fun hne => absurd hpath hne⟩
  · next hpath =>
      obtain ⟨files, hfiles⟩ :=
        (h.resolve_left hpath).create?_eq_some (Text.utf8 (text ++ "\n"))
      refine ⟨{ world with files := files }, ?_, fun _ => hfiles⟩
      have hanswer : (liftM (Script.request (.createFile path (Text.utf8 (text ++ "\n")))) :
          Command Bool).on world = (.ok true, { world with files := files }) := by
        rw [Command.on_script, Script.runIn_request, World.answer_createFile, hfiles]
        rfl
      rw [Command.on_bind_ok hanswer]
      rfl

end CommandLine

end PhaseFlow
