import PhaseFlow.Json.Reader
import PhaseFlow.Proofs.Answer
import PhaseFlow.Proofs.KeyMap
import PhaseFlow.Proofs.Number.Rounding

/-!
# Values that are read are canonical

The reader builds objects by insertion and numbers by rounding, so a value that was read
has its fields in order and its numbers in range, whatever the text looked like.

Main statement: `isCanonical_of_parse`.
-/

namespace PhaseFlow

namespace Json

/-! ## Canonical objects -/

/-- An array is canonical if its items are. -/
theorem allCanonical_iff
    {items : List Json} :
    AllCanonical items ↔ ∀ item ∈ items, item.IsCanonical := by
  induction items with
  | nil => simp [AllCanonical]
  | cons item rest ih => simp [AllCanonical, ih]

theorem fieldsCanonical_iff
    {fields : List (String × Json)} :
    FieldsCanonical fields ↔ ∀ field ∈ fields, field.2.IsCanonical := by
  induction fields with
  | nil => simp [FieldsCanonical]
  | cons field rest ih =>
      obtain ⟨key, value⟩ := field
      simp [FieldsCanonical, ih]

/-- **Canonical values under any keys make a canonical object.** -/
theorem isCanonical_object
    {fields : List (String × Json)}
    (h : ∀ field ∈ fields, field.2.IsCanonical) :
    (object fields).IsCanonical := by
  refine ⟨Entries.Ascending.foldl_insert fields [] List.Pairwise.nil,
    fieldsCanonical_iff.2 ?_⟩
  intro entry hentry
  rcases Entries.mem_of_mem_foldl_insert hentry with hmem | hmem
  · exact h entry hmem
  · exact absurd hmem List.not_mem_nil

/-- A field of a canonical value is canonical. -/
theorem IsCanonical.field?
    {value found : Json} {key : String}
    (h : value.IsCanonical)
    (hfound : value.field? key = some found) :
    found.IsCanonical := by
  cases value with
  | obj fields => exact fieldsCanonical_iff.1 h.2 _ (Entries.mem_of_find?_eq_some hfound)
  | _ => cases hfound

/-! ## What the reader builds -/

/-- The numbers that can be read are canonical: an integer that is too large is read as
a binary64 number. -/
theorem isCanonical_numberOf
    {negative : Bool} {whole : List Char} {fraction : Option (List Char)}
    {exponent : Option Int} {value : Json}
    (h : numberOf negative whole fraction exponent = .ok value) :
    value.IsCanonical := by
  unfold numberOf at h
  dsimp only at h
  generalize
    (if negative = true then -(digitsValue whole : Int) else digitsValue whole) =
    number at h
  split at h
  · next hfits =>
      cases h
      simp only [Bool.and_eq_true, decide_eq_true_eq] at hfits
      exact ⟨hfits.1.2, hfits.2⟩
  · split at h
    · next hx =>
        cases h
        exact Binary64.isNormal_ofDecimal hx
    · cases h

theorem isCanonical_readNumber
    {s rest : List Char} {value : Json}
    (h : readNumber s = .ok (value, rest)) :
    value.IsCanonical := by
  unfold readNumber at h
  dsimp only at h
  split at h
  · cases h
  · cases h
  · obtain ⟨⟨fraction, afterFraction⟩, -, h⟩ := Answer.bind_eq_ok_iff.1 h
    obtain ⟨⟨exponent, afterExponent⟩, -, h⟩ := Answer.bind_eq_ok_iff.1 h
    obtain ⟨number, hnumber, h⟩ := Answer.bind_eq_ok_iff.1 h
    cases h
    exact isCanonical_numberOf hnumber

/-- What the readers answer, whatever the bound on the nesting. -/
structure ReadsCanonical (fuel : Nat) : Prop where
  value : ∀ {s value rest}, readValue fuel s = .ok (value, rest) → value.IsCanonical
  items :
    ∀ {s items rest},
      readItems fuel s = .ok (items, rest) → ∀ item ∈ items, item.IsCanonical
  fields : ∀ {s fields rest}, readFields fuel s = .ok (fields, rest) →
    ∀ field ∈ fields, field.2.IsCanonical

theorem ReadsCanonical.readValue
    {fuel : Nat}
    (h : ReadsCanonical fuel)
    {s rest : List Char} {value : Json}
    (hread : readValue (fuel + 1) s = .ok (value, rest)) :
    value.IsCanonical := by
  unfold Json.readValue at hread
  split at hread
  · cases hread
    trivial
  · cases hread
    trivial
  · cases hread
    trivial
  · obtain ⟨text, -, heq⟩ := Answer.map_eq_ok_iff.1 hread
    cases heq
    trivial
  · split at hread
    · cases hread
      trivial
    · obtain ⟨⟨items, after⟩, hitems, heq⟩ := Answer.map_eq_ok_iff.1 hread
      cases heq
      exact allCanonical_iff.2 (h.items hitems)
  · split at hread
    · cases hread
      exact ⟨List.Pairwise.nil, trivial⟩
    · obtain ⟨⟨fields, after⟩, hfields, heq⟩ := Answer.map_eq_ok_iff.1 hread
      cases heq
      exact isCanonical_object (h.fields hfields)
  · exact isCanonical_readNumber hread

theorem ReadsCanonical.readItems
    {fuel : Nat}
    (h : ReadsCanonical fuel)
    {s rest : List Char} {items : List Json}
    (hread : readItems (fuel + 1) s = .ok (items, rest)) :
    ∀ item ∈ items, item.IsCanonical := by
  unfold Json.readItems at hread
  split at hread
  · cases hread
  · next first after hfirst =>
      split at hread
      · cases hread
        exact List.forall_mem_singleton.2 (h.value hfirst)
      · obtain ⟨⟨others, final⟩, hothers, heq⟩ := Answer.map_eq_ok_iff.1 hread
        cases heq
        exact List.forall_mem_cons.2 ⟨h.value hfirst, h.items hothers⟩
      · cases hread

theorem ReadsCanonical.readFields
    {fuel : Nat}
    (h : ReadsCanonical fuel)
    {s rest : List Char} {fields : List (String × Json)}
    (hread : readFields (fuel + 1) s = .ok (fields, rest)) :
    ∀ field ∈ fields, field.2.IsCanonical := by
  unfold Json.readFields at hread
  split at hread
  · split at hread
    · cases hread
    · split at hread
      · split at hread
        · cases hread
        · next found after hfound =>
            split at hread
            · cases hread
              exact List.forall_mem_singleton.2 (h.value hfound)
            · obtain ⟨⟨others, final⟩, hothers, heq⟩ := Answer.map_eq_ok_iff.1 hread
              cases heq
              exact List.forall_mem_cons.2 ⟨h.value hfound, h.fields hothers⟩
            · cases hread
      · cases hread
  · cases hread

/-- By induction on the bound on the nesting, all readers answer canonical values. -/
theorem readsCanonical (fuel : Nat) : ReadsCanonical fuel := by
  induction fuel with
  | zero => exact ⟨fun h => (by cases h), fun h => (by cases h), fun h => (by cases h)⟩
  | succ fuel ih => exact ⟨ih.readValue, ih.readItems, ih.readFields⟩

theorem isCanonical_of_parseChars
    {ends : List Char → Bool} {s : List Char} {value : Json}
    (h : parseChars ends s = .ok value) :
    value.IsCanonical := by
  unfold parseChars at h
  split at h
  · cases h
  · next found rest hfound =>
      split at h
      · cases h
        exact (readsCanonical _).value hfound
      · cases h

/-- **Whatever bytes are read, the value is canonical.** -/
theorem isCanonical_of_parse
    {nulEnds : Bool} {bytes : ByteArray} {value : Json}
    (h : parse nulEnds bytes = .ok value) :
    value.IsCanonical := by
  unfold parse at h
  split at h
  · exact isCanonical_of_parseChars h
  · exact isCanonical_of_parseChars h

end Json

end PhaseFlow
