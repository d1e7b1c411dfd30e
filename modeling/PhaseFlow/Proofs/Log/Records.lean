import PhaseFlow.Proofs.KeyMap
import PhaseFlow.Proofs.Log.Reading

/-!
# What a record keeps of an event

A JSON record holds the fields of its event and, in the same object, the time, the
severity and the message; a field of one of these three names is replaced. Of all
events, only a dispatch has such a field: the number of the dispatched level is called
`level`, and the severity takes its place (`isLevelNumber_of_reserved`). The plain line
of an event, which shows time, severity and message outside of the braces, has every
field.

Main statement: `field_kept_iff`.
-/

namespace PhaseFlow

namespace Log

/-! ## Records -/

/-- The fields of the record of an event. -/
def record (config : Config) (timestamp : String) (event : Event) : Fields :=
  (((event.fields config.previewLimit).insert "timestamp"
    (Text.utf8 timestamp)).insert "level"
    (Text.utf8 event.level.name)).insert "message" (Text.utf8 event.message)

/-- A value that is read from a line has a field with some bytes. -/
def Holds (read : Json) (key : String) (value : List UInt8) : Prop :=
  read.field? (byteText (Text.utf8 key)) = some (.str (byteText value))

variable {config : Config} {timestamp : String} {event : Event}

theorem line_of_json
    (hjson : config.json = true) :
    config.line timestamp event = jsonObject (record config timestamp event) := by
  rw [Config.line, if_pos hjson]
  rfl

/-- What is read from a line holds the fields that are written, and no others. -/
theorem holds_iff
    (fields : Fields)
    (key : String)
    (value : List UInt8) :
    Holds (.obj (fields.entries.map fieldRead)) key value ↔
      fields.get? key = some value := by
  rw [← fields.mem_entries_iff]
  constructor
  · intro hholds
    obtain ⟨⟨name, bytes⟩, hmem, heq⟩ := List.mem_map.1 (Entries.mem_of_find?_eq_some hholds)
    rw [fieldRead, Prod.mk.injEq, Json.str.injEq] at heq
    rw [← Text.utf8_injective (byteText_injective heq.1), ← byteText_injective heq.2]
    exact hmem
  · intro hmem
    have hread : fieldRead (key, value) ∈ fields.entries.map fieldRead :=
      List.mem_map_of_mem hmem
    exact Entries.find?_eq_some_of_mem (ascending_map_fieldRead fields) hread

/-! ## Names of fields -/

/-- The names of the fields that every record has. -/
def reserved : List String :=
  ["timestamp", "level", "message"]

/-- None of the texts has the name of an added field. -/
def Unreserved (entries : List (String × String)) : Prop :=
  ∀ entry ∈ entries, entry.1 ∉ reserved

/-- None of the fields has the name of an added one. -/
def Clear (fields : Fields) : Prop :=
  ∀ key ∈ reserved, fields.get? key = none

/-- The field is the number of the level that an event dispatches. -/
def Event.IsLevelNumber (event : Event) (key : String) : Prop :=
  match event with
  | .levelDispatch .. => key = "level"
  | _ => False

@[simp] theorem unreserved_nil : Unreserved [] :=
  fun _ h => absurd h List.not_mem_nil

@[simp] theorem unreserved_cons
    {entry : String × String} {entries : List (String × String)} :
    Unreserved (entry :: entries) ↔ entry.1 ∉ reserved ∧ Unreserved entries :=
  List.forall_mem_cons

@[simp] theorem unreserved_append
    {entries more : List (String × String)} :
    Unreserved (entries ++ more) ↔ Unreserved entries ∧ Unreserved more :=
  List.forall_mem_append

@[simp] theorem unreserved_optional
    {name : String}
    (h : name ∉ reserved)
    (text : String) :
    Unreserved (optional name text) := by
  unfold optional
  split <;> simp [h]

@[simp] theorem unreserved_subject
    (subject : Subject) :
    Unreserved subject.entries := by
  unfold Subject.entries
  split <;> simp [reserved]

theorem mem_of_get?_ofTexts
    {entries : List (String × String)} {key : String} {value : List UInt8}
    (h : (Fields.ofTexts entries).get? key = some value) :
    ∃ text, (key, text) ∈ entries ∧ Text.utf8 text = value := by
  obtain ⟨⟨name, text⟩, hmem, heq⟩ := List.mem_map.1 (KeyMap.mem_of_get?_ofList h)
  rw [Prod.mk.injEq] at heq
  obtain ⟨rfl, rfl⟩ := heq
  exact ⟨text, hmem, rfl⟩

/-- Texts under names that are not reserved leave the reserved ones free. -/
theorem clear_ofTexts
    {entries : List (String × String)}
    (h : Unreserved entries) :
    Clear (Fields.ofTexts entries) := by
  intro key hkey
  refine Option.eq_none_iff_forall_not_mem.2 fun value hvalue => ?_
  obtain ⟨text, hmem, -⟩ := mem_of_get?_ofTexts hvalue
  exact h (key, text) hmem hkey

theorem Clear.insert
    {fields : Fields}
    (h : Clear fields)
    {name : String}
    (hname : name ∉ reserved)
    (value : List UInt8) :
    Clear (fields.insert name value) := by
  intro key hkey
  have hne : name ≠ key := by
    rintro rfl
    exact hname hkey
  rw [KeyMap.get?_insert, if_neg hne]
  exact h key hkey

theorem clear_previewFields
    (limit : Nat)
    (subject : Subject)
    (label : String)
    (data : Json) :
    Clear (Event.previewFields limit subject label data) := by
  unfold Event.previewFields
  dsimp only
  split
  · exact ((clear_ofTexts (by simp [reserved])).insert (by decide) _).insert (by decide) _
  · exact (clear_ofTexts (by simp [reserved])).insert (by decide) _

/-- **Only the number of a dispatched level has the name of an added field.** -/
theorem isLevelNumber_of_reserved
    {limit : Nat} {key : String} {value : List UInt8}
    (hfield : (event.fields limit).get? key = some value)
    (hkey : key ∈ reserved) :
    event.IsLevelNumber key := by
  cases event with
  | levelDispatch graphId index nodes parallel =>
      obtain ⟨text, hmem, -⟩ := mem_of_get?_ofTexts hfield
      have hnames : key = "timestamp" ∨ key = "level" ∨ key = "message" := by
        simpa [reserved] using hkey
      rcases hnames with rfl | rfl | rfl
      · simp at hmem
      · rfl
      · simp at hmem
  | preview subject label data =>
      cases hfield.symm.trans (clear_previewFields limit subject label data key hkey)
  | _ => cases hfield.symm.trans (clear_ofTexts (by simp [reserved]) key hkey)

theorem eq_level_of_isLevelNumber
    {key : String}
    (h : event.IsLevelNumber key) :
    key = "level" := by
  cases event with
  | levelDispatch graphId index nodes parallel => exact h
  | _ => exact absurd h not_false

/-- The number of a level is written in digits. -/
theorem digits_of_isLevelNumber
    {limit : Nat} {key : String} {value : List UInt8}
    (hfield : (event.fields limit).get? key = some value)
    (h : event.IsLevelNumber key) :
    ∃ index, value = Text.utf8 (Text.ofNat index) := by
  cases event with
  | levelDispatch graphId index nodes parallel =>
      obtain rfl : key = "level" := h
      obtain ⟨text, hmem, rfl⟩ := mem_of_get?_ofTexts hfield
      have htext : text = Text.ofNat index := by simpa using hmem
      exact ⟨index, congrArg Text.utf8 htext⟩
  | _ => exact absurd h not_false

/-- No number is written like a severity. -/
theorem ofNat_ne_name
    (index : Nat)
    (level : Level) :
    Text.ofNat index ≠ level.name := by
  intro h
  have hletters : level.name.toList.all Char.isDigit = false := by
    cases level <;> rfl
  have hlists := congrArg String.toList h
  rw [Text.ofNat, String.toList_ofList] at hlists
  rw [← hlists, List.all_eq_false] at hletters
  obtain ⟨c, hc, hletter⟩ := hletters
  exact hletter ((Json.isDigits_decimal index).isDigit c hc)

/-! ## Both kinds of lines -/

/-- Every record tells the time and the severity. -/
theorem get?_record_added
    (config : Config)
    (timestamp : String)
    (event : Event) :
    (record config timestamp event).get? "timestamp" =
      some (Text.utf8 timestamp) ∧
    (record config timestamp event).get? "level" =
      some (Text.utf8 event.level.name) ∧
    (record config timestamp event).get? "message" =
      some (Text.utf8 event.message) := by
  simp [record, KeyMap.get?_insert]

/-- Under other names, a record holds the fields of the event. -/
theorem get?_record_of_not_reserved
    {key : String}
    (h : key ∉ reserved) :
    (record config timestamp event).get? key =
      (event.fields config.previewLimit).get? key := by
  have hnames : "timestamp" ≠ key ∧ "level" ≠ key ∧ "message" ≠ key := by
    simpa [reserved, eq_comm] using h
  rw [record, KeyMap.get?_insert, KeyMap.get?_insert, KeyMap.get?_insert, if_neg hnames.2.2,
    if_neg hnames.2.1, if_neg hnames.1]

/-- **A record keeps a field unless it is the number of a dispatched level.** -/
theorem get?_record_iff
    {key : String} {value : List UInt8}
    (hfield : (event.fields config.previewLimit).get? key = some value) :
    (record config timestamp event).get? key = some value ↔
      ¬ event.IsLevelNumber key := by
  by_cases hkey : key ∈ reserved
  · -- The severity stands in the place of the number, and is not written like one.
    have hnumber := isLevelNumber_of_reserved hfield hkey
    obtain ⟨index, rfl⟩ := digits_of_isLevelNumber hfield hnumber
    have hlevel := (get?_record_added config timestamp event).2.1
    obtain rfl := eq_level_of_isLevelNumber hnumber
    rw [hlevel, Option.some.injEq]
    refine iff_of_false (fun hsame => ?_) (not_not_intro hnumber)
    exact ofNat_ne_name index event.level (Text.utf8_injective hsame).symm
  · rw [get?_record_of_not_reserved hkey]
    refine iff_of_true hfield fun hnumber => ?_
    rw [eq_level_of_isLevelNumber hnumber] at hkey
    exact hkey (by decide)

/-- Every item stands in the line as it is. -/
theorem infix_separated
    (separator : List UInt8)
    {item : List UInt8} :
    ∀ {items : List (List UInt8)}, item ∈ items → item <:+: separated separator items
  | [], h => absurd h List.not_mem_nil
  | [only], h => by
      rw [List.mem_singleton.1 h]
      exact List.infix_rfl
  | first :: second :: rest, h => by
      change item <:+: first ++ separator ++ separated separator (second :: rest)
      rcases List.mem_cons.1 h with rfl | h
      · exact ⟨[], separator ++ separated separator (second :: rest), by simp⟩
      · exact (infix_separated separator h).trans (List.suffix_append _ _).isInfix

/-- A plain line shows every field. -/
theorem plainField_infix_line
    (hplain : config.json = false)
    {key : String} {value : List UInt8}
    (hfield : (event.fields config.previewLimit).get? key = some value) :
    plainField (key, value) <:+: config.line timestamp event := by
  have hmem : (key, value) ∈ (event.fields config.previewLimit).entries :=
    (KeyMap.mem_entries_iff _ _ _).2 hfield
  have hsome : (event.fields config.previewLimit).entries.isEmpty = false :=
    List.isEmpty_eq_false_iff.2 (List.ne_nil_of_mem hmem)
  have hshown := infix_separated (ascii [',', ' '])
    (List.mem_map_of_mem (f := plainField) hmem)
  rw [Config.line, if_neg (by simp [hplain]), plainLine, hsome, if_neg Bool.false_ne_true]
  refine hshown.trans ⟨Text.utf8 (timestamp ++ " [" ++ event.level.name ++ "] " ++
    event.message) ++
    ascii [' ', '{'], [125], ?_⟩
  simp

/-- **A JSON line keeps every field of its event but the number of a dispatched level.**
What is read from the line has the time, the severity and the message under their names.
It has a field of the event with its value, which the plain line shows, exactly if this
is not the number of a dispatched level. -/
theorem field_kept_iff
    (timestamp : String)
    {events : List Event}
    (hmem : event ∈ events)
    (hadmits : config.admits event = true)
    (hjson : config.json = true) :
    ∃ line ∈ config.lines timestamp events,
      ∃ read,
        readLine line = some read ∧
        Holds read "timestamp" (Text.utf8 timestamp) ∧
        Holds read "level" (Text.utf8 event.level.name) ∧
        Holds read "message" (Text.utf8 event.message) ∧
        ∀ key value,
          (event.fields config.previewLimit).get? key = some value →
          (Holds read key value ↔ ¬ event.IsLevelNumber key) ∧
          plainField (key, value) <:+: { config with json := false }.line
            timestamp event := by
  obtain ⟨htime, hlevel, hmessage⟩ := get?_record_added config timestamp event
  refine ⟨config.line timestamp event,
    List.mem_map_of_mem (List.mem_filter.2 ⟨hmem, hadmits⟩), _,
    ?_, (holds_iff _ _ _).2 htime, (holds_iff _ _ _).2 hlevel, (holds_iff _ _ _).2
      hmessage, ?_⟩
  · rw [line_of_json hjson]
    exact readLine_jsonObject _
  · intro key value hfield
    have hplain : { config with json := false }.json = false := rfl
    exact ⟨(holds_iff _ _ _).trans (get?_record_iff hfield),
      plainField_infix_line hplain hfield⟩

/-- Everything is written. -/
def verbose : Config where
  minLevel := .debug

/-- Two nodes are dispatched as the level of number three. -/
def dispatch : Event :=
  .levelDispatch "g" 3 ["p1", "p2"] true

theorem field_kept_iff_dispatch :
    dispatch ∈ [dispatch] ∧
    verbose.admits dispatch = true ∧
    verbose.json = true ∧
    ∃ line ∈ verbose.lines "now" [dispatch],
      ∃ read, readLine line = some read ∧ Holds read "nodes" (Text.utf8 "p1,p2") := by
  have hmem : dispatch ∈ [dispatch] := List.mem_cons_self
  have hadmits : verbose.admits dispatch = true := by decide
  have hfield :
      (dispatch.fields verbose.previewLimit).get? "nodes" =
        some (Text.utf8 "p1,p2") := by
    decide
  obtain ⟨line, hline, read, hread, -, -, -, hkept⟩ := field_kept_iff "now" hmem hadmits rfl
  refine ⟨hmem, hadmits, rfl, line, hline, read, hread, (hkept "nodes" _ hfield).1.2 ?_⟩
  exact fun hnumber => absurd (eq_level_of_isLevelNumber hnumber) (by decide)

/-- The number of the level is lost: the severity stands in its place, though the plain
line shows the number. -/
theorem level_number_lost :
    verbose.admits dispatch = true ∧
    verbose.json = true ∧
    (dispatch.fields verbose.previewLimit).get? "level" = some (Text.utf8 "3") ∧
    plainField ("level", Text.utf8 "3") <:+: { verbose with json := false }.line
      "now" dispatch ∧
    ∃ read,
      readLine (verbose.line "now" dispatch) = some read ∧
      Holds read "level" (Text.utf8 "DEBUG") ∧
      ¬ Holds read "level" (Text.utf8 "3") := by
  have hfield :
      (dispatch.fields verbose.previewLimit).get? "level" = some (Text.utf8 "3") := by
    decide
  have hlevel := (get?_record_added verbose "now" dispatch).2.1
  refine ⟨by decide, rfl, hfield, plainField_infix_line rfl hfield, _, readLine_jsonObject _,
    (holds_iff _ _ _).2 hlevel, fun hholds => ?_⟩
  have hnumber := (holds_iff _ _ _).1 hholds
  exact absurd (hlevel.symm.trans hnumber) (by decide)

end Log

end PhaseFlow
