import PhaseFlow.Log.Line
import PhaseFlow.Proofs.Json.TextObject
import PhaseFlow.Proofs.Text.ByteOrder

/-!
# Reading back a JSON line

The values on a line are byte strings, and a preview may end inside a character, so a
line need not be a text. Its syntax is ASCII, however: a reader of JSON makes out the
fields if every byte is shown to it as the character of the same number (`byteText`).
Different byte strings stay different in this view, and their order stays
(`byteText_lt`), so the fields that are read are the fields that were written.

Main statement: `readLine_jsonObject`.
-/

namespace PhaseFlow

namespace Log

/-! ## Bytes as characters -/

/-- The characters of a byte string, one for each byte. -/
def byteChars (bytes : List UInt8) : List Char :=
  bytes.map Char.ofUInt8

/-- A byte string, every byte being shown as the character of its number. -/
def byteText (bytes : List UInt8) : String :=
  String.ofList (byteChars bytes)

/-- The JSON value that a line writes. -/
def readLine (line : List UInt8) : Option Json :=
  Json.readChars (byteChars line)

/-- A field as it is read. -/
def fieldRead (entry : String × List UInt8) : String × Json :=
  (byteText (Text.utf8 entry.1), .str (byteText entry.2))

theorem ofUInt8_injective : Function.Injective Char.ofUInt8 := fun _ _ h =>
  UInt8.toNat_inj.1 (congrArg Char.toNat h)

theorem byteText_injective : Function.Injective byteText := fun _ _ h =>
  ofUInt8_injective.list_map (String.ofList_injective h)

/-- Reading bytes as characters keeps their order. -/
theorem byteText_lt {a b : List UInt8} (h : a < b) : byteText a < byteText b := by
  rw [String.lt_iff, byteText, byteText, String.toList_ofList, String.toList_ofList]
  refine List.lex_lt.1 ?_
  induction h with
  | nil => exact List.Lex.nil
  | cons _ ih => exact List.Lex.cons ih
  | rel hlt => exact List.Lex.rel hlt

@[simp] theorem byteChars_cons
    (byte : UInt8)
    (bytes : List UInt8) :
    byteChars (byte :: bytes) = Char.ofUInt8 byte :: byteChars bytes :=
  rfl

@[simp] theorem byteChars_append
    (bytes more : List UInt8) :
    byteChars (bytes ++ more) = byteChars bytes ++ byteChars more :=
  List.map_append

/-! ## Escaped characters -/

/-- How one character stands inside a quoted text on a line. -/
def escapeChar (c : Char) : List Char :=
  if c = '"' then ['\\', '"']
  else if c = '\\' then ['\\', '\\']
  else if c = '\n' then ['\\', 'n']
  else if c = '\r' then ['\\', 'r']
  else if c = '\t' then ['\\', 't']
  else if c.toNat < 32 then
    ['\\', 'u', '0', '0', Text.hexDigit (c.toNat / 16), Text.hexDigit (c.toNat % 16)]
  else [c]

/-- The characters of a text as they stand between its quotes. -/
def escapeChars (chars : List Char) : List Char :=
  chars.flatMap escapeChar

/-- A character that is not ASCII stands for itself. -/
theorem escapeChar_of_le {c : Char} (h : 128 ≤ c.toNat) : escapeChar c = [c] := by
  have hne : ∀ ascii : Char, ascii.toNat < 128 → c ≠ ascii := by
    rintro ascii hascii rfl
    omega
  have hcontrol : ¬ c.toNat < 32 := by omega
  simp [escapeChar, hne '"' (by decide), hne '\\' (by decide), hne '\n' (by decide),
    hne '\r' (by decide), hne '\t' (by decide), hcontrol]

/-- **What is written for a character is read as that character.** -/
theorem readText_escapeChar
    (c : Char)
    (rest : List Char) :
    Json.readText (escapeChar c ++ rest) =
      (Json.readText rest).map fun p => (c :: p.1, p.2) := by
  unfold escapeChar
  split_ifs with hquote hslash hline hreturn htab hcontrol
  · exact Json.readText_short rest (by decide) (by rw [hquote]; decide)
  · exact Json.readText_short rest (by decide) (by rw [hslash]; decide)
  · exact Json.readText_short rest (by decide) (by rw [hline]; decide)
  · exact Json.readText_short rest (by decide) (by rw [hreturn]; decide)
  · exact Json.readText_short rest (by decide) (by rw [htab]; decide)
  · exact Json.readText_control rest hcontrol
  · exact Json.readText_plain rest hquote hslash hcontrol

/-- **Escaped characters are read as the characters.** -/
theorem spells_escapeChars : Json.Spells escapeChars id := by
  intro chars rest
  induction chars with
  | nil => rfl
  | cons c chars ih =>
      rw [escapeChars, List.flatMap_cons, List.append_assoc, readText_escapeChar,
        ← escapeChars, ih]
      rfl

/-! ## Quoted byte strings -/

/-- A byte that is not ASCII stands for itself. -/
theorem escapeByte_of_le
    {byte : UInt8}
    (h : 128 ≤ byte.toNat) :
    escapeByte byte = [byte] := by
  have hne : ∀ ascii : UInt8, ascii.toNat < 128 → byte ≠ ascii := by
    rintro ascii hascii rfl
    omega
  have hcontrol : ¬ byte < 32 :=
    fun hlt => absurd (UInt8.lt_iff_toNat_lt.1 hlt) (by simp; omega)
  simp [escapeByte, hne 34 (by decide), hne 92 (by decide), hne 10 (by decide),
    hne 13 (by decide), hne 9 (by decide), hcontrol]

/-- By cases over all ASCII bytes, a byte is escaped like the character it stands
for. -/
theorem byteChars_escapeByte_ofNat :
    ∀ n,
      n < 128 →
      byteChars (escapeByte (UInt8.ofNat n)) =
        escapeChar (Char.ofUInt8 (UInt8.ofNat n)) := by
  decide

theorem byteChars_escapeByte
    (byte : UInt8) :
    byteChars (escapeByte byte) = escapeChar (Char.ofUInt8 byte) := by
  by_cases hascii : byte.toNat < 128
  · have hbyte := byteChars_escapeByte_ofNat byte.toNat hascii
    rw [UInt8.ofNat_toNat] at hbyte
    exact hbyte
  · have hbeyond : 128 ≤ (Char.ofUInt8 byte).toNat := Nat.not_lt.1 hascii
    rw [escapeByte_of_le hbeyond, escapeChar_of_le hbeyond]
    rfl

theorem byteChars_flatMap_escapeByte
    (bytes : List UInt8) :
    byteChars (bytes.flatMap escapeByte) = escapeChars (byteChars bytes) := by
  induction bytes with
  | nil => rfl
  | cons byte bytes ih =>
      rw [List.flatMap_cons, byteChars_append, byteChars_escapeByte, ih]
      rfl

/-- Bytes are quoted like the text they stand for. -/
theorem byteChars_quoted
    (bytes : List UInt8) :
    byteChars (quoted bytes) = '"' :: (escapeChars (byteChars bytes) ++ ['"']) := by
  simp only [quoted, List.cons_append, byteChars_cons, byteChars_append,
    byteChars_flatMap_escapeByte]
  rfl

/-! ## Fields -/

/-- The bytes of a field as characters. -/
def fieldBytes (entry : String × List UInt8) : List Char × List Char :=
  (byteChars (Text.utf8 entry.1), byteChars entry.2)

theorem byteChars_jsonField
    (entry : String × List UInt8) :
    byteChars (jsonField entry) = Json.textField escapeChars (fieldBytes entry) := by
  rw [jsonField, byteChars_append, byteChars_cons, byteChars_quoted, byteChars_quoted,
    Json.textField, List.cons_append, List.append_assoc]
  rfl

theorem byteChars_separated :
    ∀ entries : List (String × List UInt8),
      byteChars (separated [44] (entries.map jsonField)) =
        Json.textFields escapeChars (entries.map fieldBytes)
  | [] => rfl
  | [entry] => byteChars_jsonField entry
  | entry :: next :: entries => by
      have hrest := byteChars_separated (next :: entries)
      simp only [List.map_cons, separated, Json.textFields, byteChars_append] at hrest ⊢
      rw [hrest, byteChars_jsonField, List.append_assoc]
      rfl

/-- A line is written like an object of texts. -/
theorem byteChars_jsonObject
    (fields : Fields) :
    byteChars (jsonObject fields) =
      Json.textObject escapeChars (fields.entries.map fieldBytes) := by
  simp only [jsonObject, List.cons_append, byteChars_cons, byteChars_append,
    byteChars_separated]
  rfl

/-- The fields of a map are read in ascending order, too. -/
theorem ascending_map_fieldRead
    (fields : Fields) :
    Entries.Ascending (fields.entries.map fieldRead) := by
  refine List.pairwise_map.2 (fields.ascending.imp ?_)
  intro a b hlt
  exact byteText_lt (Text.utf8_lt_utf8 hlt)

/-- **A JSON line is read as an object with its fields**, each with its own value. -/
theorem readLine_jsonObject
    (fields : Fields) :
    readLine (jsonObject fields) = some (.obj (fields.entries.map fieldRead)) := by
  have hread : (fields.entries.map fieldBytes).map (Json.fieldMeant id) =
      fields.entries.map fieldRead := by
    rw [List.map_map]
    rfl
  have horder := ascending_map_fieldRead fields
  rw [← hread] at horder ⊢
  rw [readLine, byteChars_jsonObject]
  exact Json.readChars_textObject spells_escapeChars horder

end Log

end PhaseFlow
