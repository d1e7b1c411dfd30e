import PhaseFlow.Proofs.Log.Reading
import PhaseFlow.Proofs.Text.Encoding

/-!
# Lines of texts

A line is escaped byte by byte. If the values of its fields are texts, it is a text
itself: a character beyond ASCII is made of bytes that stand for themselves, and an
ASCII character is one byte, so escaping the bytes of a text is escaping its characters
(`flatMap_escapeByte_encoded`). A strict reader of JSON gets the fields back from this
text, and no control character stands on the line, so it is one line.

Main statement: `line_of_texts_invertible`.
-/

namespace PhaseFlow

namespace Log

/-! ## Escaped characters -/

theorem escapeByte_ofNat :
    ∀ n,
      n < 128 →
      escapeByte (UInt8.ofNat n) = Text.encoded (escapeChar (Char.ofNat n)) := by
  decide

/-- **Escaping the bytes of a character is escaping the character.** -/
theorem flatMap_escapeByte_utf8EncodeChar
    (c : Char) :
    (String.utf8EncodeChar c).flatMap escapeByte = Text.encoded (escapeChar c) := by
  by_cases hascii : c.toNat < 128
  · have hbyte := escapeByte_ofNat c.toNat hascii
    rw [Char.ofNat_toNat] at hbyte
    rw [Text.utf8EncodeChar_of_lt hascii, List.flatMap_singleton, hbyte]
  · have hbeyond : 128 ≤ c.toNat := Nat.not_lt.1 hascii
    have hself : ∀ byte ∈ String.utf8EncodeChar c, escapeByte byte = [byte] :=
      fun byte hbyte =>
      escapeByte_of_le (Text.forall_mem_utf8EncodeChar hbeyond byte hbyte)
    rw [escapeChar_of_le hbeyond, List.flatMap_congr hself, List.flatMap_singleton',
      Text.encoded_cons, Text.encoded_nil, List.append_nil]

theorem flatMap_escapeByte_encoded
    (chars : List Char) :
    (Text.encoded chars).flatMap escapeByte = Text.encoded (escapeChars chars) := by
  induction chars with
  | nil => rfl
  | cons c chars ih =>
      rw [Text.encoded_cons, List.flatMap_append, flatMap_escapeByte_utf8EncodeChar,
        ih, escapeChars, escapeChars, List.flatMap_cons, Text.encoded_append]

/-! ## Escaped fields -/

/-- The characters of a field. -/
def fieldChars (entry : String × String) : List Char × List Char :=
  (entry.1.toList, entry.2.toList)

theorem quoted_utf8
    (text : String) :
    quoted (Text.utf8 text) =
      Text.encoded ('"' :: (escapeChars text.toList ++ ['"'])) := by
  have hbytes : Text.utf8 text = Text.encoded text.toList := rfl
  rw [quoted, hbytes, flatMap_escapeByte_encoded, Text.encoded_cons, Text.encoded_append]
  rfl

theorem jsonField_utf8
    (entry : String × String) :
    jsonField (entry.1, Text.utf8 entry.2) =
      Text.encoded (Json.textField escapeChars (fieldChars entry)) := by
  have hfield : Json.textField escapeChars (fieldChars entry) =
      ('"' :: (escapeChars entry.1.toList ++ ['"'])) ++
        [':'] ++ ('"' :: (escapeChars entry.2.toList ++ ['"'])) := by
    simp [Json.textField, fieldChars]
  rw [jsonField, quoted_utf8, quoted_utf8, hfield, Text.encoded_append, Text.encoded_append,
    List.append_assoc]
  rfl

theorem separated_utf8 :
    ∀ entries : List (String × String),
      separated [44]
        (entries.map fun entry => jsonField (entry.1, Text.utf8 entry.2)) =
        Text.encoded (Json.textFields escapeChars (entries.map fieldChars))
  | [] => rfl
  | [entry] => jsonField_utf8 entry
  | entry :: next :: entries => by
      have hrest := separated_utf8 (next :: entries)
      simp only [List.map_cons, separated, Json.textFields, Text.encoded_append,
        Text.encoded_cons] at hrest ⊢
      rw [hrest, jsonField_utf8, List.append_assoc]
      rfl

/-- **The line of a map of texts is a text**: the object of its escaped characters. -/
theorem jsonObject_utf8
    (texts : KeyMap String) :
    jsonObject (texts.map Text.utf8) =
      Text.encoded (Json.textObject escapeChars (texts.entries.map fieldChars)) := by
  have hentries : (texts.map Text.utf8).entries.map jsonField =
      texts.entries.map fun entry => jsonField (entry.1, Text.utf8 entry.2) :=
    List.map_map
  rw [jsonObject, hentries, separated_utf8, Json.textObject, Text.encoded_cons,
    Text.encoded_append]
  rfl

/-! ## Control characters -/

/-- The bytes below 32 are all escaped. -/
theorem all_escapeByte
    (byte : UInt8) :
    (escapeByte byte).all (fun escaped => 32 ≤ escaped) = true := by
  have hdigit : ∀ d, d < 16 → 32 ≤ UInt8.ofNat (Text.hexDigit d).toNat := by decide
  unfold escapeByte
  split_ifs with _ _ _ _ _ hcontrol
  · rfl
  · rfl
  · rfl
  · rfl
  · rfl
  · have hbyte : byte.toNat < 32 := hcontrol
    have hhigh := hdigit (byte.toNat / 16) (by omega)
    have hlow := hdigit (byte.toNat % 16) (by omega)
    simp [ascii, hhigh, hlow]
  · simpa using UInt8.not_lt.1 hcontrol

theorem le_of_mem_escapeByte
    {byte escaped : UInt8}
    (h : escaped ∈ escapeByte byte) :
    32 ≤ escaped :=
  of_decide_eq_true (List.all_eq_true.1 (all_escapeByte byte) escaped h)

theorem le_of_mem_quoted
    {bytes : List UInt8} {byte : UInt8}
    (h : byte ∈ quoted bytes) :
    32 ≤ byte := by
  simp only [quoted, List.cons_append, List.mem_cons, List.mem_append,
    List.mem_flatMap, List.not_mem_nil, or_false] at h
  obtain rfl | ⟨_, _, hescaped⟩ | rfl := h
  · decide
  · exact le_of_mem_escapeByte hescaped
  · decide

theorem mem_separated
    {separator : List UInt8} {byte : UInt8} :
    ∀ {items : List (List UInt8)},
      byte ∈ separated separator items →
      byte ∈ separator ∨ ∃ item ∈ items, byte ∈ item
  | [], h => absurd h List.not_mem_nil
  | [item], h => .inr ⟨item, List.mem_singleton_self item, h⟩
  | item :: next :: items, h => by
      rw [separated, List.mem_append, List.mem_append] at h
      · obtain (hitem | hseparator) | hrest := h
        · exact .inr ⟨item, List.mem_cons_self, hitem⟩
        · exact .inl hseparator
        · obtain hseparator | ⟨other, hother, hbyte⟩ := mem_separated hrest
          · exact .inl hseparator
          · exact .inr ⟨other, List.mem_cons_of_mem _ hother, hbyte⟩
      · exact List.cons_ne_nil next items

/-- **No control character stands on a line**, whatever bytes its fields hold. -/
theorem le_of_mem_jsonObject
    {fields : Fields} {byte : UInt8}
    (h : byte ∈ jsonObject fields) :
    32 ≤ byte := by
  simp only [jsonObject, List.cons_append, List.mem_cons, List.mem_append, List.not_mem_nil,
    or_false] at h
  obtain rfl | hfields | rfl := h
  · decide
  · obtain hcomma | ⟨_, hfield, hbyte⟩ := mem_separated hfields
    · rw [List.mem_singleton.1 hcomma]
      decide
    · obtain ⟨entry, -, rfl⟩ := List.mem_map.1 hfield
      rw [jsonField, List.mem_append, List.mem_cons] at hbyte
      obtain hkey | rfl | hvalue := hbyte
      · exact le_of_mem_quoted hkey
      · decide
      · exact le_of_mem_quoted hvalue
  · decide

/-- **A JSON line can be inverted.** For every map of texts, no byte of the line is a
control character, and a strict reader of JSON gets exactly the object with the same
keys and texts from it. -/
theorem line_of_texts_invertible
    (texts : KeyMap String) :
    (∀ byte ∈ jsonObject (texts.map Text.utf8), 32 ≤ byte) ∧
    Json.readBytes (ByteArray.mk (jsonObject (texts.map Text.utf8)).toArray) =
      some (Json.ofMap texts .str) := by
  refine ⟨fun _ => le_of_mem_jsonObject, ?_⟩
  have hmeant : (texts.entries.map fieldChars).map (Json.fieldMeant id) =
      texts.entries.map fun entry => (entry.1, Json.str entry.2) := by
    rw [List.map_map]
    refine List.map_congr_left fun entry _ => ?_
    simp [fieldChars, Json.fieldMeant]
  have horder :
      Entries.Ascending
        ((texts.entries.map fieldChars).map (Json.fieldMeant id)) := by
    rw [hmeant]
    exact texts.ascending.map _
  rw [jsonObject_utf8, ← Text.utf8_ofList, ← Text.toUTF8_eq, Json.readBytes_toUTF8,
    Json.read,
    String.toList_ofList, Json.readChars_textObject spells_escapeChars horder, hmeant]
  rfl

end Log

end PhaseFlow
