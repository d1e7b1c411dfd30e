import PhaseFlow.Proofs.Definition.Reading
import PhaseFlow.Proofs.Definition.References
import PhaseFlow.Proofs.Json.Canonical

/-!
# What a definition takes from its environment

References are replaced in one pass, so that the variables a document mentions determine
the definition that is read from it (`Definition.ofFile_congr`); nobody has to know the
others. Keys and numbers are never replaced, so that canonical configurations stay
canonical (`Definition.sound_of_ofFile`).
-/

namespace PhaseFlow

namespace Environment

variable {environment other : Environment}

/-- Two environments give the same values to some names. -/
def AgreeOn (environment other : Environment) (names : List String) : Prop :=
  ∀ name ∈ names, environment.get? name = other.get? name

/-- Environments that agree on some names agree on fewer. -/
theorem AgreeOn.mono
    {names some : List String}
    (h : AgreeOn environment other names)
    (hsome : some ⊆ names) :
    AgreeOn environment other some :=
  fun name hname => h name (hsome hname)

/-- Environments that agree on a name give it one value. -/
theorem AgreeOn.lookUp
    {name : List UInt8} {names : List String}
    (h : AgreeOn environment other names)
    (hname : nameText name ∈ names) :
    environment.lookUp name = other.lookUp name := by
  unfold Environment.lookUp
  rw [h _ hname]

/-! ## Texts -/

theorem Reference.suffix
    {s name after : List UInt8}
    (h : Reference s name after) :
    after <:+ s := by
  obtain ⟨ascii, -, rfl⟩ := h.exists_ascii
  exact List.suffix_append ascii after

theorem namesIn_subset_cons
    (byte : UInt8)
    (rest : List UInt8) :
    namesIn rest ⊆ namesIn (byte :: rest) := by
  rw [namesIn]
  split
  · split
    · exact List.subset_cons_self _ _
    · exact List.Subset.refl _
  · exact List.Subset.refl _

/-- The names in the rest of a text are among those in the text. -/
theorem namesIn_subset_of_suffix
    {s whole : List UInt8}
    (h : s <:+ whole) :
    namesIn s ⊆ namesIn whole := by
  obtain ⟨before, rfl⟩ := h
  induction before with
  | nil => exact List.Subset.refl _
  | cons byte before ih =>
      exact List.Subset.trans ih (namesIn_subset_cons byte (before ++ s))

/-- The scan comes upon names that are in the text only. -/
theorem Scan.mem_namesIn
    {s name : List UInt8} {pieces : List Piece}
    (h : Scan s pieces)
    (hname : .value name ∈ pieces) :
    nameText name ∈ namesIn s := by
  induction h with
  | done => cases hname
  | @reference rest found after pieces href _ ih =>
      obtain ⟨width, hfound, -⟩ := reference?_of_reference href
      have hnames : namesIn (36 :: rest) = nameText found :: namesIn rest := by
        rw [namesIn, if_pos rfl, hfound]
      rw [hnames]
      cases hname with
      | head => exact List.mem_cons_self
      | tail _ hlater =>
          exact List.mem_cons_of_mem _
            (namesIn_subset_of_suffix href.suffix (ih hlater))
  | dollar _ _ ih | other _ _ ih =>
      cases hname with
      | tail _ hlater => exact namesIn_subset_cons _ _ (ih hlater)

/-- A text is expanded in the same way if the names in it have the same values. -/
theorem expand_congr
    {text : String}
    (h : AgreeOn environment other (namesIn (Text.utf8 text))) :
    environment.expand text = other.expand text := by
  obtain ⟨pieces, hscan⟩ := exists_scan (Text.utf8 text)
  have hpieces : pieces.flatMap (Piece.written environment.lookUp) =
      pieces.flatMap (Piece.written other.lookUp) := by
    refine List.flatMap_congr fun piece hpiece => ?_
    cases piece with
    | copied byte => rfl
    | value name => rw [Piece.written, Piece.written, h.lookUp (hscan.mem_namesIn hpiece)]
  rw [expand, expand, replaceReferences_eq hscan, replaceReferences_eq hscan, hpieces]

/-! ## Values -/

mutual
/-- A value is expanded in the same way if the names in its texts have the same
values. -/
theorem expandJson_congr :
    ∀ {value : Json},
      AgreeOn environment other (mentioned value) →
      environment.expandJson value = other.expandJson value
  | .str _, h => congrArg Json.str (expand_congr h)
  | .arr _, h => congrArg Json.arr (expandItems_congr h)
  | .obj _, h => congrArg Json.obj (expandFields_congr h)
  | .null, _ | .bool _, _ | .int _, _ | .float _, _ => rfl

theorem expandItems_congr :
    ∀ {items : List Json},
      AgreeOn environment other (mentionedInItems items) →
      expandItems environment items = expandItems other items
  | [], _ => rfl
  | item :: rest, h => by
      rw [expandItems, expandItems, expandJson_congr (h.mono (List.subset_append_left _ _)),
        expandItems_congr (h.mono (List.subset_append_right _ _))]

theorem expandFields_congr :
    ∀ {fields : List (String × Json)},
      AgreeOn environment other (mentionedInFields fields) →
      expandFields environment fields = expandFields other fields
  | [], _ => rfl
  | (key, value) :: rest, h => by
      rw [expandFields, expandFields,
        expandJson_congr (h.mono (List.subset_append_left _ _)),
        expandFields_congr (h.mono (List.subset_append_right _ _))]
end

theorem mentioned_subset_of_mem_items
    {items : List Json} {item : Json}
    (h : item ∈ items) :
    mentioned item ⊆ mentionedInItems items := by
  induction h with
  | head rest => exact List.subset_append_left _ _
  | tail other _ ih =>
      exact List.Subset.trans ih (List.subset_append_right (mentioned other) _)

theorem mentioned_subset_of_mem_fields
    {fields : List (String × Json)} {field : String × Json}
    (h : field ∈ fields) :
    mentioned field.2 ⊆ mentionedInFields fields := by
  induction h with
  | head rest => exact List.subset_append_left _ _
  | tail other _ ih =>
      exact List.Subset.trans ih (List.subset_append_right (mentioned other.2) _)

/-- The names that a field mentions are among those of the value. -/
theorem mentioned_subset_of_field?
    {value found : Json} {key : String}
    (h : value.field? key = some found) :
    mentioned found ⊆ mentioned value := by
  cases value with
  | obj fields => exact mentioned_subset_of_mem_fields (Entries.mem_of_find?_eq_some h)
  | _ => cases h

/-! ## Canonical values -/

/-- The fields keep their keys and their order. -/
theorem expandFields_eq_map
    (environment : Environment)
    (fields : List (String × Json)) :
    expandFields environment fields =
      fields.map fun field => (field.1, environment.expandJson field.2) := by
  induction fields with
  | nil => rfl
  | cons field rest ih => rw [expandFields, ih, List.map_cons]

mutual
/-- **Expansion keeps a value canonical**: keys and numbers are not touched. -/
theorem isCanonical_expandJson
    (environment : Environment) :
    ∀ {value : Json}, value.IsCanonical → (environment.expandJson value).IsCanonical
  | .str _, _ => trivial
  | .arr _, h => allCanonical_expandItems environment h
  | .obj fields, h => by
      refine ⟨?_, fieldsCanonical_expandFields environment h.2⟩
      rw [expandFields_eq_map]
      exact h.1.map fun field => environment.expandJson field.2
  | .null, h | .bool _, h | .int _, h | .float _, h => h

/-- Replacing references keeps the items of an array canonical. -/
theorem allCanonical_expandItems
    (environment : Environment) :
    ∀ {items : List Json},
      Json.AllCanonical items → Json.AllCanonical (expandItems environment items)
  | [], _ => trivial
  | _ :: _, h =>
      ⟨isCanonical_expandJson environment h.1,
        allCanonical_expandItems environment h.2⟩

theorem fieldsCanonical_expandFields
    (environment : Environment) :
    ∀ {fields : List (String × Json)},
      Json.FieldsCanonical fields →
      Json.FieldsCanonical (expandFields environment fields)
  | [], _ => trivial
  | _ :: _, h =>
      ⟨isCanonical_expandJson environment h.1, fieldsCanonical_expandFields environment h.2⟩
end

end Environment

/-! ## Definitions -/

namespace Definition

open Environment (AgreeOn mentioned)

variable {environment other : Environment}

theorem configOf_congr
    {name : String} {entry : Json}
    (h : AgreeOn environment other (mentioned entry)) :
    configOf environment name entry = configOf other name entry := by
  unfold configOf
  split
  · rfl
  · next config hconfig =>
      rw [Environment.expandJson_congr
          (h.mono (Environment.mentioned_subset_of_field? hconfig))]

theorem readPhase_congr
    {entry : Json}
    (h : AgreeOn environment other (mentioned entry)) :
    readPhase environment entry = readPhase other entry := by
  unfold readPhase
  simp only [configOf_congr h]

/-- Two environments read the same phases if they agree on the names that the document
mentions. -/
theorem readPhases_congr
    {document : Json}
    (h : AgreeOn environment other (mentioned document)) :
    readPhases environment document = readPhases other document := by
  unfold readPhases
  split
  · rfl
  · next entries hentries =>
      have hmentioned := Environment.mentioned_subset_of_field? hentries
      refine Answer.mapM_congr fun entry hentry => readPhase_congr (h.mono ?_)
      exact List.Subset.trans (Environment.mentioned_subset_of_mem_items hentry) hmentioned
  · rfl

theorem readLogging_congr
    {document : Json}
    (h : AgreeOn environment other (mentioned document)) :
    readLogging environment document = readLogging other document := by
  unfold readLogging
  split
  · rfl
  · next entry hentry =>
      have hfile : ∀ file, textField entry "file" "" = .ok file →
          environment.expand file = other.expand file := by
        intro file hread
        unfold textField at hread
        split at hread
        · cases hread
          exact Environment.expand_congr fun name hname =>
            by simp [Text.utf8, Environment.namesIn] at hname
        · next found hfound =>
            obtain rfl := eq_str_of_access hread
            exact Environment.expand_congr (h.mono (List.Subset.trans
              (Environment.mentioned_subset_of_field? hfound)
              (Environment.mentioned_subset_of_field? hentry)))
      have hlast : ∀ level json previews,
          (textField entry "file" "" >>= fun file =>
            Except.ok (⟨level, json, environment.expand file, previews⟩ : LoggingEntry)) =
          textField entry "file" "" >>= fun file =>
            Except.ok ⟨level, json, other.expand file, previews⟩ := by
        intro level json previews
        cases hread : textField entry "file" "" with
        | error fault => rfl
        | ok file =>
            show Except.ok _ = Except.ok _
            rw [hfile file hread]
      simp only [hlast]

/-- **What is read from a document depends on the variables that it mentions only.** -/
theorem ofJson_congr
    {document : Json}
    (h : AgreeOn environment other (mentioned document)) :
    ofJson environment document = ofJson other document := by
  unfold ofJson readParts
  rw [readPhases_congr h, readLogging_congr h]

/-! ## Definitions in files -/

theorem phases_inFile
    (definition : Definition)
    (file : String) :
    (definition.inFile file).phases = definition.phases := by
  unfold inFile
  split <;> rfl

/-- A definition from a file is as sound as the document in it. -/
theorem Sound.inFile
    {definition : Definition}
    (h : definition.Sound)
    (file : String) :
    (definition.inFile file).Sound := by
  unfold Definition.inFile
  split
  · exact h
  · exact ⟨h.phases_ne_nil, h.name_ne_empty, h.nodup, h.config, h.dependency, h.ends,
      h.edgeConfig⟩

/-- Two environments read the same definition from a file if they agree on the names
that it mentions. -/
theorem ofFile_congr
    {file : String} {content : Option ByteArray} {nulEnds : Bool}
    (h :
        ∀ bytes document,
          content = some bytes →
          Json.parse nulEnds bytes = .ok document →
          AgreeOn environment other (mentioned document)) :
    ofFile environment file content nulEnds = ofFile other file content nulEnds := by
  cases content with
  | none => rfl
  | some bytes =>
      show (read environment (Json.parse nulEnds bytes)).map _ =
        (read other (Json.parse nulEnds bytes)).map _
      cases hread : Json.parse nulEnds bytes with
      | error fault => rfl
      | ok document => rw [read, read, ofJson_congr (h bytes document rfl hread)]

theorem isCanonical_of_writtenBy
    {phase : PhaseEntry} {entry : Json}
    (h : phase.WrittenBy environment entry)
    (hentry : entry.IsCanonical) :
    phase.config.IsCanonical := by
  rw [h.config]
  cases hconfig : entry.field? "config" with
  | none => exact ⟨List.Pairwise.nil, trivial⟩
  | some config =>
      exact Environment.isCanonical_expandJson environment (hentry.field? hconfig)

/-- The configurations of a definition that is read are canonical. -/
theorem WrittenBy.isCanonical_config
    {definition : Definition} {document : Json}
    (h : definition.WrittenBy environment document)
    (hcanonical : document.IsCanonical) :
    ∀ phase ∈ definition.phases, phase.config.IsCanonical := by
  obtain ⟨entries, hentries, hwritten⟩ := h.phases
  have hitems := Json.allCanonical_iff.1 (hcanonical.field? hentries)
  generalize definition.phases = phases at hwritten
  clear hentries
  induction hwritten with
  | nil => exact fun phase hphase => by cases hphase
  | cons hphase _ ih =>
      obtain ⟨hentry, hrest⟩ := List.forall_mem_cons.1 hitems
      exact List.forall_mem_cons.2 ⟨isCanonical_of_writtenBy hphase hentry, ih hrest⟩

/-- A definition in a file is the one that the document in it writes. -/
theorem exists_ofJson_of_ofFile
    {file : String} {content : Option ByteArray} {nulEnds : Bool}
    {definition : Definition}
    (h : ofFile environment file content nulEnds = .ok definition) :
    ∃ bytes document found,
      content = some bytes ∧
      Json.parse nulEnds bytes = .ok document ∧
      ofJson environment document = .ok found ∧
      definition = found.inFile file := by
  cases content with
  | none => cases h
  | some bytes =>
      obtain ⟨found, hfound, rfl⟩ := Answer.map_eq_ok_iff.1 h
      cases hread : Json.parse nulEnds bytes with
      | error fault =>
          rw [hread] at hfound
          cases hfound
      | ok document =>
          rw [hread] at hfound
          exact ⟨bytes, document, found, rfl, hread, Answer.mapError_eq_ok_iff.1 hfound, rfl⟩

/-- **A definition in a file fits together, and its configurations are canonical.** -/
theorem sound_of_ofFile
    {file : String} {content : Option ByteArray} {nulEnds : Bool}
    {definition : Definition}
    (h : ofFile environment file content nulEnds = .ok definition) :
    definition.Sound ∧ ∀ phase ∈ definition.phases, phase.config.IsCanonical := by
  obtain ⟨bytes, document, found, -, hread, hfound, rfl⟩ := exists_ofJson_of_ofFile h
  obtain ⟨hsound, hwritten⟩ := written_of_ofJson hfound
  refine ⟨hsound.inFile file, ?_⟩
  rw [phases_inFile]
  exact hwritten.isCanonical_config (Json.isCanonical_of_parse hread)

theorem options_inFile
    (definition : Definition)
    (file : String) :
    (definition.inFile file).options = definition.options := by
  unfold inFile
  split <;> rfl

/-- A definition that is read from a file is run with the library that objects to
nothing. -/
theorem writer_of_ofFile
    {file : String} {content : Option ByteArray} {nulEnds : Bool}
    {definition : Definition}
    (h : ofFile environment file content nulEnds = .ok definition) :
    definition.options.writer = {} := by
  obtain ⟨bytes, document, found, -, -, hfound, rfl⟩ := exists_ofJson_of_ofFile h
  rw [options_inFile]
  exact writer_of_readOptions (readFrom_of_ofJson hfound).options

/-- The JSON library complains of a definition file itself only if a number in it is out
of range. -/
theorem ofFile_eq_json_iff
    {file : String} {content : Option ByteArray} {nulEnds : Bool}
    {fault : JsonFault} :
    ofFile environment file content nulEnds = .error (.json fault) ↔
      fault = .numberOutOfRange ∧
      ∃ bytes,
        content = some bytes ∧ Json.parse nulEnds bytes = .error .outOfRange := by
  cases content with
  | none => exact iff_of_false nofun nofun
  | some bytes =>
      simp only [ofFile, Answer.map_eq_error_iff, Option.some.injEq, exists_eq_left']
      cases Json.parse nulEnds bytes with
      | ok document =>
          refine iff_of_false ?_ nofun
          rw [read]
          cases ofJson environment document <;> nofun
      | error refused =>
          cases refused with
          | malformed => exact iff_of_false nofun nofun
          | outOfRange =>
              simp only [read, Error.ofReadFault, Except.error.injEq,
                Error.json.injEq, and_true]
              exact eq_comm

end Definition

end PhaseFlow
