import PhaseFlow.Proofs.Json.RoundTrip

/-!
# Objects that hold texts

An object may be written in compact form without being a value of the writer: its keys
and values are texts, and their spelling between the quotes is up to whoever writes
them. If each spelling is read as its meaning, whatever follows the closing quote, the
object is read as the object of the meanings (`readChars_textObject`).
-/

namespace PhaseFlow

namespace Json

variable {α : Type} {spelling meaning : α → List Char}

/-- One field: a key and a value in quotes. -/
def textField (spelling : α → List Char) (entry : α × α) : List Char :=
  '"' :: (spelling entry.1 ++ ('"' :: ':' :: '"' :: (spelling entry.2 ++ ['"'])))

/-- The fields, separated by commas. -/
def textFields (spelling : α → List Char) : List (α × α) → List Char
  | [] => []
  | [entry] => textField spelling entry
  | entry :: rest => textField spelling entry ++ ',' :: textFields spelling rest

/-- The object of some fields. -/
def textObject (spelling : α → List Char) (entries : List (α × α)) : List Char :=
  '{' :: (textFields spelling entries ++ ['}'])

/-- A field as it is read. -/
def fieldMeant (meaning : α → List Char) (entry : α × α) : String × Json :=
  (String.ofList (meaning entry.1), .str (String.ofList (meaning entry.2)))

theorem textField_append
    (spelling : α → List Char)
    (entry : α × α)
    (rest : List Char) :
    textField spelling entry ++ rest =
      '"' ::
        (spelling entry.1 ++
            ('"' :: ':' :: '"' :: (spelling entry.2 ++ '"' :: rest))) := by
  simp [textField]

/-- Each spelling is read as its meaning. The opening quote has been taken off. -/
def Spells (spelling meaning : α → List Char) : Prop :=
  ∀ item rest, readText (spelling item ++ '"' :: rest) = some (meaning item, rest)

theorem readValue_spelled
    (h : Spells spelling meaning)
    (fuel : Nat)
    (item : α)
    (rest : List Char) :
    readValue (fuel + 1) ('"' :: (spelling item ++ '"' :: rest)) =
      .ok (.str (String.ofList (meaning item)), rest) := by
  rw [readValue, h]
  rfl

/-- The last text field is read back. -/
theorem readFields_textField_last
    (h : Spells spelling meaning)
    (fuel : Nat)
    (entry : α × α)
    (rest : List Char) :
    readFields (fuel + 2) (textField spelling entry ++ '}' :: rest) =
      .ok ([fieldMeant meaning entry], rest) := by
  rw [textField_append, readFields, h]
  simp (disch := decide) only [skipBlanks_cons, readValue_spelled h]
  rfl

theorem readFields_textField_more
    (h : Spells spelling meaning)
    {fuel : Nat} {chars rest : List Char} {fields : List (String × Json)}
    (entry : α × α)
    (hrest : readFields (fuel + 1) chars = .ok (fields, rest)) :
    readFields (fuel + 2) (textField spelling entry ++ ',' :: chars) =
      .ok (fieldMeant meaning entry :: fields, rest) := by
  obtain ⟨tail, rfl⟩ := readFields_start hrest
  rw [textField_append, readFields, h]
  simp (disch := decide) only [skipBlanks_cons, readValue_spelled h, hrest]
  rfl

/-- All text fields are read back, if the bound on the nesting suffices. -/
theorem readFields_textFields
    (h : Spells spelling meaning)
    (rest : List Char) :
    ∀ (entries : List (α × α)) (fuel : Nat),
      entries ≠ [] →
      entries.length < fuel →
      readFields fuel (textFields spelling entries ++ '}' :: rest) =
        .ok (entries.map (fieldMeant meaning), rest)
  | [], _, hne, _ => absurd rfl hne
  | [entry], fuel + 2, _, _ => readFields_textField_last h fuel entry rest
  | entry :: next :: entries, fuel + 2, _, hfuel => by
      have hmore :=
        readFields_textFields h rest (next :: entries) (fuel + 1)
          (List.cons_ne_nil _ _)
        (Nat.lt_of_succ_lt_succ hfuel)
      rw [textFields, List.append_assoc]
      · exact readFields_textField_more h entry hmore
      · exact List.cons_ne_nil next entries

/-- A reader that is given the length of an object as its bound gets to the end of the
fields. -/
theorem length_le_length_textFields
    (spelling : α → List Char) :
    ∀ entries : List (α × α), entries.length ≤ (textFields spelling entries).length
  | [] => Nat.zero_le _
  | [entry] => by simp [textFields, textField]
  | entry :: next :: entries => by
      have hmore := length_le_length_textFields spelling (next :: entries)
      simp only [List.length_cons, textFields, List.length_append] at hmore ⊢
      omega

/-- **An object of texts is read as the object of their meanings.** -/
theorem readChars_textObject
    (h : Spells spelling meaning)
    {entries : List (α × α)}
    (horder : Entries.Ascending (entries.map (fieldMeant meaning))) :
    readChars (textObject spelling entries) =
      some (.obj (entries.map (fieldMeant meaning))) := by
  have hlength := length_le_length_textFields spelling entries
  have hread :
      readValue ((textObject spelling entries).length + 1)
        (textObject spelling entries) =
        .ok (.obj (entries.map (fieldMeant meaning)), []) := by
    by_cases hempty : entries = []
    · rw [hempty]
      rfl
    · have hblanks : ∀ b ∈ ([] : List Char), isBlank b = true := by simp
      have hfields :=
        readFields_textFields h [] entries (textObject spelling entries).length hempty
        (by simp only [textObject, List.length_cons, List.length_append]; omega)
      have hobject := readValue_fields hblanks horder hfields
      exact hobject
  have hstart :
      skipBlanks (skipMark (textObject spelling entries)) =
        textObject spelling entries :=
    rfl
  rw [readChars, parseChars, hstart, hread]
  rfl

end Json

end PhaseFlow
