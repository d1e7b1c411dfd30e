import PhaseFlow.Proofs.Json.Number
import PhaseFlow.Proofs.Json.Quoted

/-!
# Reading back a written value

Both layouts of a value are one (`laidOut`): they differ in the blanks at the start of a
line and after a colon. The reader skips these blanks, and its bound on the nesting is
the length of the text, which shrinks from a value to its parts. So a canonical value is
read back from its text, whatever the indentation (`read_text`).
-/

namespace PhaseFlow

namespace Entries

/-- A larger key goes to the end. -/
theorem insert_of_all_lt
    {α : Type} {key : String} {value : α} {entries : List (String × α)}
    (h : ∀ entry ∈ entries, entry.1 < key) :
    insert key value entries = entries ++ [(key, value)] := by
  induction entries with
  | nil => rfl
  | cons head rest ih =>
      obtain ⟨k, old⟩ := head
      have hlt : k < key := h (k, old) List.mem_cons_self
      have hnot : ¬ key < k := fun hkey => String.lt_irrefl _ (String.lt_trans hlt hkey)
      have hne : k ≠ key := by
        rintro rfl
        exact String.lt_irrefl _ hlt
      rw [insert, if_neg hnot, if_neg hne, ih fun entry hentry =>
        h entry (List.mem_cons_of_mem _ hentry),
        List.cons_append]

theorem foldl_insert_of_ascending
    {α : Type}
    (fields : List (String × α)) :
    ∀ entries : List (String × α),
      Ascending (entries ++ fields) →
      fields.foldl (fun entries field => insert field.1 field.2 entries)
        entries =
        entries ++ fields := by
  induction fields with
  | nil => simp
  | cons field rest ih =>
      intro entries horder
      have hlast : ∀ entry ∈ entries, entry.1 < field.1 := fun entry hentry =>
        (List.pairwise_append.1 horder).2.2 entry hentry field List.mem_cons_self
      rw [List.foldl_cons, insert_of_all_lt hlast, ih _ (by simpa using horder)]
      simp

end Entries

namespace Json

/-- Fields in order make an object as they are. -/
theorem object_of_ascending
    {fields : List (String × Json)}
    (h : Entries.Ascending fields) :
    object fields = obj fields := by
  rw [object, Entries.foldl_insert_of_ascending fields [] h]
  rfl

/-! ## One layout -/

section Layout

variable (line : Nat → List Char) (gap : List Char)

mutual
/-- The text of a value at a given depth, with given blanks at the start of a line and
after a colon. -/
def laidOut (depth : Nat) : Json → List Char
  | arr [] => ['[', ']']
  | arr items =>
      '[' :: line (depth + 1) ++ laidOutItems (depth + 1) items ++ line depth ++ [']']
  | obj [] => ['{', '}']
  | obj fields =>
      '{' :: line (depth + 1) ++ laidOutFields (depth + 1) fields ++ line depth ++ ['}']
  | value => value.compactChars

/-- The items of an array. -/
def laidOutItems (depth : Nat) : List Json → List Char
  | [] => []
  | [item] => laidOut depth item
  | item :: rest => laidOut depth item ++ ',' :: line depth ++ laidOutItems depth rest

/-- The fields of an object. -/
def laidOutFields (depth : Nat) : List (String × Json) → List Char
  | [] => []
  | [(key, value)] => quoted key ++ ':' :: gap ++ laidOut depth value
  | (key, value) :: rest =>
      quoted key ++ ':' :: gap ++ laidOut depth value ++ ',' :: line depth ++
        laidOutFields depth rest
end

theorem laidOut_arr
    (depth : Nat)
    (item : Json)
    (rest : List Json) :
    laidOut line gap depth (arr (item :: rest)) =
      '[' ::
        (line (depth + 1) ++
            (laidOutItems line gap (depth + 1) (item :: rest) ++
                (line depth ++ [']']))) := by
  rw [laidOut] <;> simp

theorem laidOut_obj
    (depth : Nat)
    (field : String × Json)
    (rest : List (String × Json)) :
    laidOut line gap depth (obj (field :: rest)) =
      '{' ::
        (line (depth + 1) ++
            (laidOutFields line gap (depth + 1) (field :: rest) ++
                (line depth ++ ['}']))) := by
  rw [laidOut] <;> simp

/-- Items are separated by commas, each on a line of its own. -/
theorem laidOutItems_cons
    (depth : Nat)
    (item next : Json)
    (rest : List Json) :
    laidOutItems line gap depth (item :: next :: rest) =
      laidOut line gap depth item ++
        (',' :: (line depth ++ laidOutItems line gap depth (next :: rest))) := by
  rw [laidOutItems] <;> simp

theorem laidOutFields_cons
    (depth : Nat)
    (key : String)
    (value : Json)
    (next : String × Json)
    (rest : List (String × Json)) :
    laidOutFields line gap depth ((key, value) :: next :: rest) =
      quoted key ++
        (':' ::
            (gap ++
                (laidOut line gap depth value ++
                    (',' ::
                        (line depth ++
                            laidOutFields line gap depth (next :: rest)))))) := by
  rw [laidOutFields] <;> simp

theorem laidOutFields_singleton
    (depth : Nat)
    (key : String)
    (value : Json) :
    laidOutFields line gap depth [(key, value)] =
      quoted key ++ (':' :: (gap ++ laidOut line gap depth value)) := by
  rw [laidOutFields, List.append_assoc]
  rfl

end Layout

mutual
/-- The compact layout is the one without line breaks and gaps. -/
theorem compactChars_eq :
    ∀ (value : Json) (depth : Nat),
      value.compactChars = laidOut (fun _ => []) [] depth value
  | null, _ => rfl
  | bool _, _ => rfl
  | int _, _ => rfl
  | float _, _ => rfl
  | str _, _ => rfl
  | arr [], _ => rfl
  | arr (item :: rest), depth => by
      rw [compactChars, compactItems_eq (item :: rest) (depth + 1), laidOut_arr]
      rfl
  | obj [], _ => rfl
  | obj (field :: rest), depth => by
      rw [compactChars, compactFields_eq (field :: rest) (depth + 1), laidOut_obj]
      rfl

theorem compactItems_eq :
    ∀ (items : List Json) (depth : Nat),
      compactItems items = laidOutItems (fun _ => []) [] depth items
  | [], _ => rfl
  | [item], depth => compactChars_eq item depth
  | item :: next :: rest, depth => by
      rw [laidOutItems_cons, ← compactChars_eq item depth,
        ← compactItems_eq (next :: rest) depth]
      rfl

theorem compactFields_eq :
    ∀ (fields : List (String × Json)) (depth : Nat),
      compactFields fields = laidOutFields (fun _ => []) [] depth fields
  | [], _ => rfl
  | [(key, value)], depth => by
      rw [laidOutFields_singleton, ← compactChars_eq value depth]
      rfl
  | (key, value) :: next :: rest, depth => by
      rw [laidOutFields_cons, ← compactChars_eq value depth,
        ← compactFields_eq (next :: rest) depth]
      simp [compactFields]
end

mutual
/-- The indented layout breaks lines, and leaves a gap after a colon. -/
theorem indentedChars_eq
    (step : Nat) :
    ∀ (value : Json) (depth : Nat),
      indentedChars step depth value = laidOut (newline step) [' '] depth value
  | null, _ => rfl
  | bool true, _ => rfl
  | bool false, _ => rfl
  | int _, _ => rfl
  | float _, _ => rfl
  | str _, _ => rfl
  | arr [], _ => rfl
  | arr (item :: rest), depth => by
      rw [laidOut_arr, ← indentedItems_eq step (item :: rest) (depth + 1)]
      simp [indentedChars]
  | obj [], _ => rfl
  | obj (field :: rest), depth => by
      rw [laidOut_obj, ← indentedFields_eq step (field :: rest) (depth + 1)]
      simp [indentedChars]

theorem indentedItems_eq
    (step : Nat) :
    ∀ (items : List Json) (depth : Nat),
      indentedItems step depth items = laidOutItems (newline step) [' '] depth items
  | [], _ => rfl
  | [item], depth => indentedChars_eq step item depth
  | item :: next :: rest, depth => by
      rw [laidOutItems_cons, ← indentedChars_eq step item depth,
        ← indentedItems_eq step (next :: rest) depth]
      simp [indentedItems]

theorem indentedFields_eq
    (step : Nat) :
    ∀ (fields : List (String × Json)) (depth : Nat),
      indentedFields step depth fields =
        laidOutFields (newline step) [' '] depth fields
  | [], _ => rfl
  | [(key, value)], depth => by
      rw [laidOutFields_singleton, ← indentedChars_eq step value depth]
      rfl
  | (key, value) :: next :: rest, depth => by
      rw [laidOutFields_cons, ← indentedChars_eq step value depth,
        ← indentedFields_eq step (next :: rest) depth]
      simp [indentedFields]
end

/-! ## Blanks and first characters -/

/-- A character that a value can start with. -/
def IsStart (c : Char) : Prop :=
  c ∈ ['n', 't', 'f', '"', '[', '{', '-'] ∨ c.isDigit = true

/-- A value does not start with a blank. -/
theorem IsStart.not_blank {c : Char} (h : IsStart c) : isBlank c = false := by
  cases hblank : isBlank c with
  | false => rfl
  | true =>
      have hcases : c = ' ' ∨ c = '\t' ∨ c = '\n' ∨ c = '\r' := by
        simpa [isBlank, or_assoc] using hblank
      rcases hcases with rfl | rfl | rfl | rfl <;> exact absurd h (by unfold IsStart; decide)

theorem readNumber_start
    {s : List Char} {result : Json × List Char}
    (h : readNumber s = .ok result) :
    ∃ c tail, s = c :: tail ∧ (c = '-' ∨ c.isDigit = true) := by
  cases s with
  | nil => cases h
  | cons c tail =>
      refine ⟨c, tail, rfl, ?_⟩
      by_contra hnot
      obtain ⟨hminus, hdigit⟩ := not_or.1 hnot
      have htake : takeMinus (c :: tail) = (false, c :: tail) := by
        simp [takeMinus, hminus]
      have hdigits : takeDigits (c :: tail) = ([], c :: tail) := by
        simp [takeDigits, hdigit]
      unfold readNumber at h
      simp [htake, hdigits] at h

/-- A value that is read starts as a value can. -/
theorem readValue_start
    {fuel : Nat} {s : List Char} {result : Json × List Char}
    (h : readValue fuel s = .ok result) :
    ∃ c tail, s = c :: tail ∧ IsStart c := by
  cases fuel with
  | zero => cases h
  | succ fuel =>
      unfold readValue at h
      split at h
      case h_7 =>
        obtain ⟨c, tail, rfl, hstart⟩ := readNumber_start h
        refine ⟨c, tail, rfl, ?_⟩
        rcases hstart with rfl | hdigit
        · exact Or.inl (by decide)
        · exact Or.inr hdigit
      all_goals exact ⟨_, _, rfl, Or.inl (by decide)⟩

theorem skipBlanks_cons
    {c : Char}
    (h : isBlank c = false)
    (tail : List Char) :
    skipBlanks (c :: tail) = c :: tail :=
  List.dropWhile_cons_of_neg (by simp [h])

/-- Blanks are skipped up to the first character that is none. -/
theorem skipBlanks_append
    {blanks tail : List Char} {c : Char}
    (hblanks : ∀ b ∈ blanks, isBlank b = true)
    (hc : isBlank c = false) :
    skipBlanks (blanks ++ c :: tail) = c :: tail := by
  rw [skipBlanks, List.dropWhile_append_of_pos hblanks]
  exact skipBlanks_cons hc tail

/-- Blanks before a value are skipped. -/
theorem skipBlanks_value
    {fuel : Nat} {blanks s : List Char} {result : Json × List Char}
    (hblanks : ∀ b ∈ blanks, isBlank b = true)
    (h : readValue fuel s = .ok result) :
    skipBlanks (blanks ++ s) = s := by
  obtain ⟨c, tail, rfl, hstart⟩ := readValue_start h
  exact skipBlanks_append hblanks hstart.not_blank

/-- What is read as a number is read as a value. -/
theorem readValue_of_readNumber
    {fuel : Nat} {s : List Char} {result : Json × List Char}
    (h : readNumber s = .ok result) :
    readValue (fuel + 1) s = .ok result := by
  obtain ⟨c, tail, rfl, hstart⟩ := readNumber_start h
  have hne : c ∉ ['n', 't', 'f', '"', '[', '{'] := by
    rcases hstart with rfl | hdigit
    · decide
    · intro hmem
      have hall :
          (['n', 't', 'f', '"', '[', '{'].all fun d => !d.isDigit) = true := by
        decide
      have hnot := List.all_eq_true.1 hall c hmem
      rw [hdigit] at hnot
      cases hnot
  simp only [List.mem_cons, List.not_mem_nil, or_false, not_or] at hne
  obtain ⟨hn, ht, hf, hquote, hbracket, hbrace⟩ := hne
  rw [readValue]
  · exact h
  all_goals
    intros
    simp_all

theorem endsNumber_cons
    {c : Char}
    (tail : List Char)
    (hc : c ∈ [',', ']', '}']) :
    EndsNumber (c :: tail) := by
  intro d hd
  obtain rfl : c = d := by simpa using hd
  simp only [List.mem_cons, List.not_mem_nil, or_false] at hc
  rcases hc with rfl | rfl | rfl <;> decide

/-- Blanks, brackets and commas end a number. -/
theorem endsNumber_append
    {blanks tail : List Char} {c : Char}
    (hblanks : ∀ b ∈ blanks, isBlank b = true)
    (hc : c ∈ [',', ']', '}']) :
    EndsNumber (blanks ++ c :: tail) := by
  cases blanks with
  | nil => exact endsNumber_cons tail hc
  | cons b more =>
      intro d hd
      obtain rfl : b = d := by simpa using hd
      have hcases : b = ' ' ∨ b = '\t' ∨ b = '\n' ∨ b = '\r' := by
        simpa [isBlank, or_assoc] using hblanks b List.mem_cons_self
      rcases hcases with rfl | rfl | rfl | rfl <;> decide

/-! ## Reading a layout -/

theorem quoted_append
    (key : String)
    (tail : List Char) :
    quoted key ++ tail = '"' :: (key.toList.flatMap escapeChar ++ '"' :: tail) := by
  simp [quoted]

theorem readItems_start
    {fuel : Nat} {s : List Char} {result : List Json × List Char}
    (h : readItems fuel s = .ok result) :
    ∃ c tail, s = c :: tail ∧ IsStart c := by
  cases fuel with
  | zero => cases h
  | succ fuel =>
      unfold readItems at h
      split at h
      · cases h
      · next hvalue => exact readValue_start hvalue

theorem readFields_start
    {fuel : Nat} {s : List Char} {result : List (String × Json) × List Char}
    (h : readFields fuel s = .ok result) :
    ∃ tail, s = '"' :: tail := by
  cases fuel with
  | zero => cases h
  | succ fuel =>
      unfold readFields at h
      split at h
      · exact ⟨_, rfl⟩
      · cases h

section Steps

variable {fuel : Nat} {blanks s tail : List Char}

theorem readValue_items
    {items : List Json}
    (hblanks : ∀ b ∈ blanks, isBlank b = true)
    (h : readItems fuel s = .ok (items, tail)) :
    readValue (fuel + 1) ('[' :: (blanks ++ s)) = .ok (arr items, tail) := by
  obtain ⟨c, more, rfl, hstart⟩ := readItems_start h
  have hskip : skipBlanks (blanks ++ c :: more) = c :: more :=
    skipBlanks_append hblanks hstart.not_blank
  have hne : c ≠ ']' := by
    rintro rfl
    exact absurd hstart (by unfold IsStart; decide)
  rw [readValue, hskip]
  split
  · next heq => exact absurd (List.cons.inj heq).1 hne
  · rw [h]
    rfl

theorem readValue_fields
    {fields : List (String × Json)}
    (hblanks : ∀ b ∈ blanks, isBlank b = true)
    (horder : Entries.Ascending fields)
    (h : readFields fuel s = .ok (fields, tail)) :
    readValue (fuel + 1) ('{' :: (blanks ++ s)) = .ok (obj fields, tail) := by
  obtain ⟨more, rfl⟩ := readFields_start h
  have hskip : skipBlanks (blanks ++ '"' :: more) = '"' :: more :=
    skipBlanks_append hblanks (by decide)
  rw [readValue, hskip]
  split
  · next heq => exact absurd (List.cons.inj heq).1 (by decide)
  · rw [h, Except.map, object_of_ascending horder]

/-- The last item is followed by a bracket. -/
theorem readItems_last
    {item : Json}
    (hblanks : ∀ b ∈ blanks, isBlank b = true)
    (h : readValue fuel s = .ok (item, blanks ++ ']' :: tail)) :
    readItems (fuel + 1) s = .ok ([item], tail) := by
  have hskip : skipBlanks (blanks ++ ']' :: tail) = ']' :: tail :=
    skipBlanks_append hblanks (by decide)
  rw [readItems, h]
  simp only [hskip]

/-- Every other item is followed by a comma and more items. -/
theorem readItems_more
    {item : Json} {rest : List Json} {more : List Char}
    (hblanks : ∀ b ∈ blanks, isBlank b = true)
    (h : readValue fuel s = .ok (item, ',' :: (blanks ++ more)))
    (hrest : readItems fuel more = .ok (rest, tail)) :
    readItems (fuel + 1) s = .ok (item :: rest, tail) := by
  obtain ⟨c, chars, rfl, hstart⟩ := readItems_start hrest
  have hskip : skipBlanks (blanks ++ c :: chars) = c :: chars :=
    skipBlanks_append hblanks hstart.not_blank
  rw [readItems, h]
  simp (disch := decide) only [skipBlanks_cons, hskip, hrest, Except.map]

variable {gap : List Char} {value : Json}

/-- The last field is followed by a brace. -/
theorem readFields_last
    (key : String)
    (hgap : ∀ b ∈ gap, isBlank b = true)
    (hblanks : ∀ b ∈ blanks, isBlank b = true)
    (h : readValue fuel s = .ok (value, blanks ++ '}' :: tail)) :
    readFields (fuel + 1) (quoted key ++ (':' :: (gap ++ s))) =
      .ok ([(key, value)], tail) := by
  have hskip : skipBlanks (blanks ++ '}' :: tail) = '}' :: tail :=
    skipBlanks_append hblanks (by decide)
  rw [quoted_append, readFields, readText_quoted]
  simp (disch := decide) only [skipBlanks_cons, skipBlanks_value hgap h, h, hskip,
    String.ofList_toList]

theorem readFields_more
    (key : String)
    {rest : List (String × Json)} {more : List Char}
    (hgap : ∀ b ∈ gap, isBlank b = true)
    (hblanks : ∀ b ∈ blanks, isBlank b = true)
    (h : readValue fuel s = .ok (value, ',' :: (blanks ++ more)))
    (hrest : readFields fuel more = .ok (rest, tail)) :
    readFields (fuel + 1) (quoted key ++ (':' :: (gap ++ s))) =
      .ok ((key, value) :: rest, tail) := by
  obtain ⟨chars, rfl⟩ := readFields_start hrest
  have hskip : skipBlanks (blanks ++ '"' :: chars) = '"' :: chars :=
    skipBlanks_append hblanks (by decide)
  rw [quoted_append, readFields, readText_quoted]
  simp (disch := decide) only [skipBlanks_cons, skipBlanks_value hgap h, h, hskip, hrest,
    String.ofList_toList, Except.map]

end Steps

section Reading

variable {line : Nat → List Char} {gap : List Char}

mutual
/-- **A canonical value is read back**, if the bound on the nesting exceeds the length
of its text. -/
theorem readValue_laidOut
    (hline : ∀ depth, ∀ b ∈ line depth, isBlank b = true)
    (hgap : ∀ b ∈ gap, isBlank b = true) :
    ∀ (value : Json) (depth fuel : Nat) (tail : List Char),
      value.IsCanonical →
      (laidOut line gap depth value).length < fuel →
      EndsNumber tail →
      readValue fuel (laidOut line gap depth value ++ tail) = .ok (value, tail)
  | _, _, 0, _, _, hfuel, _ => absurd hfuel (Nat.not_lt_zero _)
  | null, _, fuel + 1, tail, _, _, _ => rfl
  | bool true, _, fuel + 1, tail, _, _, _ => rfl
  | bool false, _, fuel + 1, tail, _, _, _ => rfl
  | int n, _, fuel + 1, tail, hvalue, _, htail =>
      readValue_of_readNumber (readNumber_signedDecimal hvalue htail)
  | float x, _, fuel + 1, tail, hvalue, _, htail =>
      readValue_of_readNumber (readNumber_floatText hvalue htail)
  | str s, _, fuel + 1, tail, _, _, _ => by
      show readValue (fuel + 1) (quoted s ++ tail) = _
      rw [quoted_append, readValue, readText_quoted, required, Except.map,
        String.ofList_toList]
  | arr [], _, fuel + 1, tail, _, _, _ => rfl
  | arr (item :: rest), depth, fuel + 1, tail, hvalue, hfuel, _ => by
      rw [laidOut_arr] at hfuel ⊢
      simp only [List.length_cons, List.length_append, List.length_nil] at hfuel
      have hitems :=
        readItems_laidOut hline hgap (item :: rest) (depth + 1) fuel (line depth) tail
        (List.cons_ne_nil _ _) hvalue (by omega) (hline depth)
      have hread := readValue_items (hline (depth + 1)) hitems
      simpa using hread
  | obj [], _, fuel + 1, tail, _, _, _ => rfl
  | obj (field :: rest), depth, fuel + 1, tail, hvalue, hfuel, _ => by
      rw [laidOut_obj] at hfuel ⊢
      simp only [List.length_cons, List.length_append, List.length_nil] at hfuel
      have hfields :=
        readFields_laidOut hline hgap (field :: rest) (depth + 1) fuel (line depth)
          tail
        (List.cons_ne_nil _ _) hvalue.2 (by omega) (hline depth)
      have hread := readValue_fields (hline (depth + 1)) hvalue.1 hfields
      simpa using hread

/-- The items of an array are read back, if the bound on the nesting suffices. -/
theorem readItems_laidOut
    (hline : ∀ depth, ∀ b ∈ line depth, isBlank b = true)
    (hgap : ∀ b ∈ gap, isBlank b = true) :
    ∀ (items : List Json) (depth fuel : Nat) (blanks tail : List Char),
      items ≠ [] →
      AllCanonical items →
      (laidOutItems line gap depth items).length + 1 < fuel →
      (∀ b ∈ blanks, isBlank b = true) →
      readItems fuel (laidOutItems line gap depth items ++ (blanks ++ ']' :: tail)) =
        .ok (items, tail)
  | _, _, 0, _, _, _, _, hfuel, _ => absurd hfuel (Nat.not_lt_zero _)
  | [], _, _ + 1, _, _, hne, _, _, _ => absurd rfl hne
  | [item], depth, fuel + 1, blanks, tail, _, hitems, hfuel, hblanks =>
      readItems_last hblanks (readValue_laidOut hline hgap item depth fuel _ hitems.1
        (Nat.lt_of_succ_lt_succ hfuel) (endsNumber_append hblanks (by decide)))
  | item :: next :: rest, depth, fuel + 1, blanks, tail, _, hitems, hfuel, hblanks => by
      rw [laidOutItems_cons] at hfuel ⊢
      simp only [List.length_cons, List.length_append] at hfuel
      have hrest := readItems_laidOut hline hgap (next :: rest) depth fuel blanks tail
        (List.cons_ne_nil _ _) hitems.2 (by omega) hblanks
      have hitem := readValue_laidOut hline hgap item depth fuel (',' :: (line depth ++
        (laidOutItems line gap depth (next :: rest) ++ (blanks ++ ']' :: tail))))
          hitems.1 (by omega)
        (endsNumber_cons _ (by decide))
      have hread := readItems_more (hline depth) hitem hrest
      simpa using hread

/-- The fields of an object are read back, if the bound on the nesting suffices. -/
theorem readFields_laidOut
    (hline : ∀ depth, ∀ b ∈ line depth, isBlank b = true)
    (hgap : ∀ b ∈ gap, isBlank b = true) :
    ∀ (fields : List (String × Json)) (depth fuel : Nat) (blanks tail : List Char),
      fields ≠ [] →
      FieldsCanonical fields →
      (laidOutFields line gap depth fields).length + 1 < fuel →
      (∀ b ∈ blanks, isBlank b = true) →
      readFields fuel
        (laidOutFields line gap depth fields ++ (blanks ++ '}' :: tail)) =
        .ok (fields, tail)
  | _, _, 0, _, _, _, _, hfuel, _ => absurd hfuel (Nat.not_lt_zero _)
  | [], _, _ + 1, _, _, hne, _, _, _ => absurd rfl hne
  | [(key, value)], depth, fuel + 1, blanks, tail, _, hfields, hfuel, hblanks => by
      rw [laidOutFields_singleton] at hfuel ⊢
      simp only [List.length_cons, List.length_append] at hfuel
      have hvalue :=
        readValue_laidOut hline hgap value depth fuel (blanks ++ '}' :: tail)
          hfields.1
        (by omega) (endsNumber_append hblanks (by decide))
      have hread := readFields_last key hgap hblanks hvalue
      simpa using hread
  | (key, value) :: next :: rest, depth, fuel + 1, blanks, tail, _, hfields, hfuel,
      hblanks => by
      rw [laidOutFields_cons] at hfuel ⊢
      simp only [List.length_cons, List.length_append] at hfuel
      have hrest := readFields_laidOut hline hgap (next :: rest) depth fuel blanks tail
        (List.cons_ne_nil _ _) hfields.2 (by omega) hblanks
      have hvalue := readValue_laidOut hline hgap value depth fuel (',' :: (line depth ++
        (laidOutFields line gap depth (next :: rest) ++ (blanks ++ '}' :: tail)))) hfields.1
        (by omega) (endsNumber_cons _ (by decide))
      have hread := readFields_more key hgap (hline depth) hvalue hrest
      simpa using hread
end

end Reading

theorem skipMark_of_start
    {s : List Char} {c : Char} {tail : List Char}
    (hs : s = c :: tail)
    (h : IsStart c) :
    skipMark s = s := by
  have hmark : c.toNat ≠ 0xFEFF := by
    intro heq
    have hc : c = Char.ofNat 0xFEFF := by
      rw [← heq, Char.ofNat_toNat]
    rw [hc] at h
    exact absurd h (by unfold IsStart; decide)
  rw [hs, skipMark, if_neg hmark]

theorem endsNumber_of_blanks
    {blanks : List Char}
    (hblanks : ∀ b ∈ blanks, isBlank b = true) :
    EndsNumber blanks := by
  intro d hd
  have hcases : d = ' ' ∨ d = '\t' ∨ d = '\n' ∨ d = '\r' := by
    simpa [isBlank, or_assoc] using hblanks d (List.mem_of_mem_head? hd)
  rcases hcases with rfl | rfl | rfl | rfl <;> decide

/-- **A canonical value is read back from its text**, whatever the indentation and the
blanks behind it. -/
theorem parseChars_text
    {value : Json}
    (h : value.IsCanonical)
    (indentation : Int)
    {blanks : List Char}
    (hblanks : ∀ b ∈ blanks, isBlank b = true)
    {ends : List Char → Bool}
    (hends : ends [] = true) :
    parseChars ends ((value.text indentation).toList ++ blanks) = .ok value := by
  have hlayout : ∃ line gap, (∀ depth : Nat, ∀ b ∈ line depth, isBlank b = true) ∧
      (∀ b ∈ gap, isBlank b = true) ∧ (value.text indentation).toList = laidOut line
        gap 0 value := by
    unfold text
    split_ifs with hsign
    · refine ⟨fun _ => [], [], by simp, by simp, ?_⟩
      rw [compact, String.toList_ofList, compactChars_eq value 0]
    · refine ⟨newline indentation.toNat, [' '], ?_, by simp [isBlank], ?_⟩
      · intro depth b hb
        rcases List.mem_cons.1 hb with rfl | hb
        · decide
        · rw [List.eq_of_mem_replicate hb]
          decide
      · rw [indented, String.toList_ofList, indentedChars_eq]
  obtain ⟨line, gap, hline, hgap, htext⟩ := hlayout
  have hread := readValue_laidOut hline hgap value 0
    ((laidOut line gap 0 value ++ blanks).length + 1) blanks h
    (by rw [List.length_append]; omega) (endsNumber_of_blanks hblanks)
  obtain ⟨c, tail, hs, hstart⟩ := readValue_start hread
  have hskip :
      skipBlanks (laidOut line gap 0 value ++ blanks) =
        laidOut line gap 0 value ++ blanks :=
    skipBlanks_value (fun _ hb => absurd hb List.not_mem_nil) hread
  have hnone : skipBlanks blanks = [] := by
    rw [← List.append_nil blanks]
    exact List.dropWhile_append_of_pos hblanks
  unfold parseChars
  rw [htext, skipMark_of_start hs hstart, hskip, hread]
  simp only [hnone, hends, if_true]

/-- A canonical value is read back from the bytes of its text, whether or not a NUL
character would end them. -/
theorem parse_text
    {value : Json}
    (h : value.IsCanonical)
    (indentation : Int)
    {nulEnds : Bool} :
    parse nulEnds (value.text indentation).toUTF8 = .ok value := by
  rw [parse_toUTF8, ← List.append_nil (value.text indentation).toList]
  exact parseChars_text h indentation (fun b hb => absurd hb List.not_mem_nil) rfl

/-- A canonical value is read back from its text with a line end behind it. -/
theorem parse_text_newline
    {value : Json}
    (h : value.IsCanonical)
    (indentation : Int)
    {nulEnds : Bool} :
    parse nulEnds (value.text indentation ++ "\n").toUTF8 = .ok value := by
  rw [parse_toUTF8, String.toList_append]
  exact parseChars_text h indentation
    (fun b hb => by rw [List.mem_singleton.1 hb]; decide) rfl

end Json

end PhaseFlow
