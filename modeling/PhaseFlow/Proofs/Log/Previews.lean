import PhaseFlow.Proofs.Log.Encoding
import PhaseFlow.Proofs.Log.Records
import PhaseFlow.Proofs.Text.Cutting

/-!
# Lines of previews

A preview is cut after a number of bytes. All that stands around it on the line is a
text, and escaping its bytes breaks no character and mends none, so the line is a text
if and only if what is left of the preview is one (`isWhole_jsonObject`): the cut must
not go through a character. Otherwise a strict reader of JSON refuses the line. From a
line that is a text it gets the beginning of the data, and the mark of a preview that
was cut.

Main statement: `preview_line_readable_iff`.
-/

namespace PhaseFlow

namespace Log

open Text (IsWhole SplitsCharacter isWhole_append_ascii isWhole_append_cons isWhole_utf8)

/-! ## Whole lines -/

theorem all_escapeByte_ofNat :
    ∀ n,
      n < 128 →
      (escapeByte (UInt8.ofNat n)).all (fun escaped => escaped.toNat < 128) =
        true := by
  decide

/-- The escape of an ASCII byte is ASCII. -/
theorem lt_of_mem_escapeByte
    {byte escaped : UInt8}
    (hbyte : byte.toNat < 128)
    (h : escaped ∈ escapeByte byte) :
    escaped.toNat < 128 := by
  have hall := all_escapeByte_ofNat byte.toNat hbyte
  rw [UInt8.ofNat_toNat] at hall
  exact of_decide_eq_true (List.all_eq_true.1 hall escaped h)

theorem escapeByte_ne_nil (byte : UInt8) : escapeByte byte ≠ [] := by
  unfold escapeByte
  split_ifs <;> simp [ascii]

/-- **Escaping breaks no character and mends none**, whatever bytes stand before. -/
theorem isWhole_append_flatMap_escapeByte
    (front bytes : List UInt8) :
    IsWhole (front ++ bytes.flatMap escapeByte) ↔ IsWhole (front ++ bytes) := by
  induction bytes generalizing front with
  | nil => rfl
  | cons byte bytes ih =>
      rw [List.flatMap_cons]
      by_cases hbyte : byte.toNat < 128
      · -- An ASCII byte and its escape both separate what stands on their sides.
        have hrest := ih []
        rw [List.nil_append, List.nil_append] at hrest
        have hescape : ∀ escaped ∈ escapeByte byte, escaped.toNat < 128 := fun _ =>
          lt_of_mem_escapeByte hbyte
        cases hbytes : escapeByte byte with
        | nil => exact absurd hbytes (escapeByte_ne_nil byte)
        | cons first others =>
            rw [hbytes] at hescape
            obtain ⟨hfirst, hothers⟩ := List.forall_mem_cons.1 hescape
            rw [List.cons_append, isWhole_append_cons hfirst, isWhole_append_ascii
              hothers, hrest, isWhole_append_cons hbyte]
      · rw [escapeByte_of_le (Nat.not_lt.1 hbyte), List.singleton_append,
          List.append_cons, ih,
          ← List.append_cons]

theorem isWhole_quoted
    {bytes : List UInt8} :
    IsWhole (quoted bytes) ↔ IsWhole bytes := by
  have hquote : ∀ byte ∈ ([34] : List UInt8), byte.toNat < 128 := by simp
  have hescaped := isWhole_append_flatMap_escapeByte [34] bytes
  rw [List.singleton_append, List.singleton_append] at hescaped
  rw [quoted, isWhole_append_cons (by decide), hescaped, ← List.singleton_append,
    isWhole_append_ascii hquote]
  exact and_iff_left ⟨[], rfl⟩

theorem isWhole_jsonField
    {entry : String × List UInt8} :
    IsWhole (jsonField entry) ↔ IsWhole entry.2 := by
  rw [jsonField, isWhole_append_cons (by decide), isWhole_quoted, isWhole_quoted]
  exact and_iff_right (isWhole_utf8 entry.1)

theorem isWhole_separated :
    ∀ {items : List (List UInt8)},
      IsWhole (separated [44] items) ↔ ∀ item ∈ items, IsWhole item
  | [] => iff_of_true ⟨[], rfl⟩ (by simp)
  | [item] => by rw [separated, List.forall_mem_singleton]
  | item :: next :: items => by
      rw [separated, List.append_assoc, List.singleton_append, isWhole_append_cons
        (by decide), isWhole_separated, List.forall_mem_cons (l := next :: items)]
      exact List.cons_ne_nil next items

/-- **A line is a text if and only if the values of its fields are.** -/
theorem isWhole_jsonObject
    {fields : Fields} :
    IsWhole (jsonObject fields) ↔
      ∀ key value, fields.get? key = some value → IsWhole value := by
  have hbrace : ∀ byte ∈ ([123] : List UInt8), byte.toNat < 128 := by simp
  rw [jsonObject, List.cons_append, ← List.singleton_append, isWhole_append_ascii hbrace,
    isWhole_append_cons (by decide), isWhole_separated, and_iff_left ⟨[], rfl⟩,
      List.forall_mem_map]
  simp only [isWhole_jsonField, Prod.forall, KeyMap.mem_entries_iff]

/-! ## Reading a whole line -/

/-- The texts of whole values. -/
theorem exists_map_utf8
    {fields : Fields}
    (h : ∀ key value, fields.get? key = some value → IsWhole value) :
    ∃ texts : KeyMap String, texts.map Text.utf8 = fields := by
  refine ⟨fields.map fun bytes => (Text.ofUtf8? bytes).getD "",
    KeyMap.ext_get? fun key => ?_⟩
  rw [KeyMap.get?_map, KeyMap.get?_map, Option.map_map]
  cases hfield : fields.get? key with
  | none => rfl
  | some value =>
      obtain ⟨chars, rfl⟩ := h key value hfield
      rw [Option.map_some, Function.comp_apply, ← Text.utf8_ofList, Text.ofUtf8?_utf8,
        Option.getD_some]

/-- A strict reader gets the texts from a line of texts. -/
theorem readBytes_jsonObject_utf8
    (texts : KeyMap String) :
    Json.readBytes (ByteArray.mk (jsonObject (texts.map Text.utf8)).toArray) =
      some (.obj (texts.map Json.str).entries) := by
  have hmeant :
      (texts.entries.map fieldChars).map (Json.fieldMeant id) =
        (texts.map Json.str).entries := by
    simp [fieldChars, Json.fieldMeant, KeyMap.map, Function.comp_def]
  have horder := (texts.map Json.str).ascending
  rw [← hmeant] at horder ⊢
  rw [jsonObject_utf8, ← Text.utf8_ofList, ← Text.toUTF8_eq, Json.readBytes_toUTF8,
    Json.read,
    String.toList_ofList, Json.readChars_textObject spells_escapeChars horder]

/-- **A strict reader reads a line exactly if the values of its fields are texts**, and
gets them. -/
theorem readBytes_jsonObject_iff
    {fields : Fields} {read : Json} :
    Json.readBytes (ByteArray.mk (jsonObject fields).toArray) = some read ↔
      ∃ texts : KeyMap String,
        texts.map Text.utf8 = fields ∧ read = .obj (texts.map Json.str).entries := by
  constructor
  · intro hread
    have hbytes : (Text.ofUtf8? (jsonObject fields)).isSome = true := by
      rw [Json.readBytes_eq, Option.bind_eq_some_iff] at hread
      obtain ⟨text, htext, -⟩ := hread
      exact Option.isSome_of_eq_some htext
    obtain ⟨texts, rfl⟩ :=
      exists_map_utf8 (isWhole_jsonObject.1 (Text.isSome_ofUtf8?_iff.1 hbytes))
    rw [readBytes_jsonObject_utf8, Option.some.injEq] at hread
    exact ⟨texts, rfl, hread.symm⟩
  · rintro ⟨texts, rfl, rfl⟩
    exact readBytes_jsonObject_utf8 texts

theorem isSome_readBytes_jsonObject_iff
    {fields : Fields} :
    (Json.readBytes (ByteArray.mk (jsonObject fields).toArray)).isSome = true ↔
      IsWhole (jsonObject fields) := by
  rw [Option.isSome_iff_exists, isWhole_jsonObject]
  simp only [readBytes_jsonObject_iff]
  constructor
  · rintro ⟨_, texts, rfl, -⟩ key value hfield
    rw [KeyMap.get?_map, Option.map_eq_some_iff] at hfield
    obtain ⟨text, -, rfl⟩ := hfield
    exact isWhole_utf8 text
  · intro h
    obtain ⟨texts, htexts⟩ := exists_map_utf8 h
    exact ⟨_, texts, htexts, rfl⟩

/-- The object of some texts has a field with a text if its line has one with the bytes
of the text. -/
theorem field?_texts_iff
    (texts : KeyMap String)
    (key text : String) :
    (Json.obj (texts.map Json.str).entries).field? key = some (.str text) ↔
      (texts.map Text.utf8).get? key = some (Text.utf8 text) := by
  have hfield :
      (Json.obj (texts.map Json.str).entries).field? key =
        (texts.map Json.str).get? key :=
    rfl
  rw [hfield, KeyMap.get?_map, KeyMap.get?_map]
  cases texts.get? key with
  | none => simp
  | some found => simp [Text.utf8_injective.eq_iff]

/-! ## The record of a preview -/

/-- The values of all fields but one are texts. -/
def WholeBut (name : String) (fields : Fields) : Prop :=
  ∀ key value, fields.get? key = some value → key ≠ name → IsWhole value

theorem wholeBut_ofTexts
    (name : String)
    (entries : List (String × String)) :
    WholeBut name (Fields.ofTexts entries) := by
  intro key value hfield _
  obtain ⟨text, -, rfl⟩ := mem_of_get?_ofTexts hfield
  exact isWhole_utf8 text

theorem WholeBut.insert
    {name key : String} {fields : Fields} {value : List UInt8}
    (h : WholeBut name fields)
    (hvalue : key ≠ name → IsWhole value) :
    WholeBut name (fields.insert key value) := by
  intro other found hfield hother
  rw [KeyMap.get?_insert] at hfield
  split_ifs at hfield with hsame
  · obtain rfl := Option.some.inj hfield
    exact hvalue (hsame ▸ hother)
  · exact h other found hfield hother

variable {config : Config} {timestamp : String} {subject : Subject}
variable {label : String} {data : Json}

theorem get?_record_preview :
    (record config timestamp (.preview subject label data)).get? "preview" =
      some ((Text.utf8 data.compact).take config.previewLimit) := by
  have hname : "preview" ∉ reserved := by decide
  rw [get?_record_of_not_reserved hname, Event.fields, Event.previewFields]
  split_ifs with hcut
  · rw [KeyMap.get?_insert, if_neg (by decide), KeyMap.get?_insert_self]
  · exact KeyMap.get?_insert_self _ _ _

theorem get?_record_truncated :
    (record config timestamp (.preview subject label data)).get? "truncated" =
      if config.previewLimit < (Text.utf8 data.compact).length then
        some (Text.utf8 "true")
      else none := by
  have hname : "truncated" ∉ reserved := by decide
  rw [get?_record_of_not_reserved hname, Event.fields, Event.previewFields]
  split_ifs with hcut
  · exact KeyMap.get?_insert_self _ _ _
  · rw [KeyMap.get?_insert, if_neg (by decide)]
    refine Option.eq_none_iff_forall_not_mem.2 fun value hvalue => ?_
    obtain ⟨text, hmem, -⟩ := mem_of_get?_ofTexts hvalue
    unfold Subject.entries optional at hmem
    split_ifs at hmem <;> simp at hmem

/-- Only the preview itself may end inside a character. -/
theorem wholeBut_record :
    WholeBut "preview" (record config timestamp (.preview subject label data)) := by
  have hfields :
      WholeBut "preview"
        (Event.previewFields config.previewLimit subject label data) := by
    have hpreview : ∀ entries, WholeBut "preview" ((Fields.ofTexts entries).insert "preview"
        ((Text.utf8 data.compact).take config.previewLimit)) := fun entries =>
      (wholeBut_ofTexts "preview" entries).insert fun hne => absurd rfl hne
    rw [Event.previewFields]
    split_ifs with hcut
    · exact (hpreview _).insert fun _ => isWhole_utf8 "true"
    · exact hpreview _
  exact ((hfields.insert fun _ => isWhole_utf8 _).insert fun _ => isWhole_utf8 _).insert
    fun _ => isWhole_utf8 _

/-- **The line of a preview is a text if and only if the cut does not go through a
character.** -/
theorem isWhole_line_preview
    (hjson : config.json = true) :
    IsWhole (config.line timestamp (.preview subject label data)) ↔
      ¬ SplitsCharacter data.compact.toList config.previewLimit := by
  rw [line_of_json hjson, isWhole_jsonObject, ← Text.isWhole_take_encoded_iff]
  constructor
  · exact fun h => h "preview" _ get?_record_preview
  · intro h key value hfield
    by_cases hkey : key = "preview"
    · subst hkey
      rw [get?_record_preview] at hfield
      rw [← Option.some.inj hfield]
      exact h
    · exact wholeBut_record key value hfield hkey

/-- A value that is read from a line shows the beginning of a text of at most `limit`
bytes, and says whether this is not all of it. -/
structure ShowsBeginning (read : Json) (text : String) (limit : Nat) : Prop where
  preview :
    ∃ shown,
      read.field? "preview" = some (.str shown) ∧
      shown.toList <+: text.toList ∧
      (Text.utf8 shown).length = min limit (Text.utf8 text).length ∧
      ((Text.utf8 text).length ≤ limit → shown = text)
  truncated :
    read.field? "truncated" = some (.str "true") ↔ limit < (Text.utf8 text).length

theorem showsBeginning_of_readBytes
    (hjson : config.json = true)
    {read : Json}
    (hread :
        Json.readBytes
          (ByteArray.mk
              (config.line timestamp (.preview subject label data)).toArray) =
          some read) :
    ShowsBeginning read data.compact config.previewLimit := by
  rw [line_of_json hjson, readBytes_jsonObject_iff] at hread
  obtain ⟨texts, htexts, rfl⟩ := hread
  have hpreview : (texts.map Text.utf8).get? "preview" =
      some ((Text.utf8 data.compact).take config.previewLimit) := by
    rw [htexts]
    exact get?_record_preview
  have hshown := hpreview
  rw [KeyMap.get?_map, Option.map_eq_some_iff] at hshown
  obtain ⟨shown, -, hbytes⟩ := hshown
  constructor
  · refine ⟨shown, ?_, Text.prefix_of_encoded_eq_take hbytes, ?_, fun hfits => ?_⟩
    · rw [field?_texts_iff, hbytes]
      exact hpreview
    · rw [hbytes, List.length_take]
    · rw [List.take_of_length_le hfits] at hbytes
      exact Text.utf8_injective hbytes
  · rw [field?_texts_iff, htexts, get?_record_truncated]
    split_ifs with hlarge <;> simp [hlarge]

/-- **A preview can be read unless its cut goes through a character.** The line of a
preview is a text, and a strict reader of JSON accepts it, exactly if the cut falls
between two characters of the compact text of the data. What is read shows the beginning
of this text, and whether it was cut. -/
theorem preview_line_readable_iff
    (timestamp : String)
    {config : Config} {subject : Subject} {label : String} {data : Json}
    (hjson : config.json = true)
    (hadmits : config.admits (.preview subject label data) = true) :
    ∃ line,
      config.lines timestamp [.preview subject label data] = [line] ∧
      ((Text.ofUtf8? line).isSome = true ↔
          ¬ SplitsCharacter data.compact.toList config.previewLimit) ∧
      ((Json.readBytes (ByteArray.mk line.toArray)).isSome = true ↔
          ¬ SplitsCharacter data.compact.toList config.previewLimit) ∧
      ∀ read,
        Json.readBytes (ByteArray.mk line.toArray) = some read →
        ShowsBeginning read data.compact config.previewLimit := by
  refine ⟨config.line timestamp (.preview subject label data), ?_, ?_, ?_,
    fun read hread => ?_⟩
  · rw [Config.lines, List.filter_cons_of_pos hadmits]
    rfl
  · rw [Text.isSome_ofUtf8?_iff, isWhole_line_preview hjson]
  · rw [← isWhole_line_preview hjson, line_of_json hjson, isSome_readBytes_jsonObject_iff]
  · exact showsBeginning_of_readBytes hjson hread

/-- Two bytes of all data are written. -/
def glimpsing : Config where
  minLevel := .debug
  previews := true
  previewLimit := 2

/-- The cut falls between the letters, of which the second takes two bytes. -/
theorem preview_line_readable_iff_between :
    glimpsing.json = true ∧
    glimpsing.admits (.preview {} "output" (.str "aé")) = true ∧
    ¬ SplitsCharacter (Json.str "aé").compact.toList 2 ∧
    ∃ line,
      glimpsing.lines "now" [.preview {} "output" (.str "aé")] = [line] ∧
      ∃ read,
        Json.readBytes (ByteArray.mk line.toArray) = some read ∧
        ShowsBeginning read (Json.str "aé").compact 2 := by
  have hbetween : ¬ SplitsCharacter (Json.str "aé").compact.toList 2 := by
    rw [← Text.isWhole_take_encoded_iff]
    exact ⟨['"', 'a'], by decide⟩
  have hadmits : glimpsing.admits (.preview {} "output" (.str "aé")) = true := by decide
  obtain ⟨line, hline, -, hreadable, hshows⟩ := preview_line_readable_iff "now" rfl hadmits
  obtain ⟨read, hread⟩ := Option.isSome_iff_exists.1 (hreadable.2 hbetween)
  exact ⟨rfl, hadmits, hbetween, line, hline, read, hread, hshows read hread⟩

/-- The cut goes through the only letter: the line is no text, and a strict reader
refuses it. -/
theorem preview_line_unreadable :
    glimpsing.lines "now" [.preview {} "output" (.str "é")] =
      [glimpsing.line "now" (.preview {} "output" (.str "é"))] ∧
    Text.ofUtf8? (glimpsing.line "now" (.preview {} "output" (.str "é"))) =
      none ∧
    Json.readBytes (ByteArray.mk
        (glimpsing.line "now" (.preview {} "output" (.str "é"))).toArray) =
      none := by
  have hthrough : SplitsCharacter (Json.str "é").compact.toList 2 :=
    ⟨['"'], 'é', ['"'], by decide, by decide, by decide⟩
  have hbroken : ¬ IsWhole (glimpsing.line "now" (.preview {} "output" (.str "é"))) := by
    rw [isWhole_line_preview rfl]
    exact not_not_intro hthrough
  refine ⟨rfl, ?_, ?_⟩
  · rw [← Option.not_isSome_iff_eq_none, Text.isSome_ofUtf8?_iff]
    exact hbroken
  · rw [← Option.not_isSome_iff_eq_none, line_of_json rfl, isSome_readBytes_jsonObject_iff,
      ← line_of_json rfl]
    exact hbroken

end Log

end PhaseFlow
