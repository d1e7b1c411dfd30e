import Mathlib.Data.List.TakeWhile
import PhaseFlow.Definition.Environment
import PhaseFlow.Proofs.Text.Encoding

/-!
# Replacing references in one pass

References are replaced in place, so that the places of a text move while it is
searched. What comes out is nevertheless told by one scan of the text as it was given
(`Scan`). The scan cuts the text into pieces, which are copied bytes and variables, and
it does not know the values. The invariant of the search is that the text is finished
before the place where the search goes on, and is as it was given from this place on
(`replaceFrom_eq`). So a value is never searched, whatever it contains.

Main statement: `references_replaced_in_one_pass`.
-/

namespace PhaseFlow

namespace Environment

variable {lookUp : List UInt8 → Option (List UInt8)}

/-! ## References -/

/-- An ASCII letter, a digit or an underscore. -/
def IsNameByte (byte : UInt8) : Prop :=
  (Char.ofUInt8 byte).isAlphanum = true ∨ Char.ofUInt8 byte = '_'

/-- What follows a dollar sign starts with a reference: a name in braces, or a name up
to a byte that cannot stand in a name. -/
inductive Reference : List UInt8 → List UInt8 → List UInt8 → Prop where
  | braced
      {name after : List UInt8}
      (hne : name ≠ [])
      (hname : ∀ byte ∈ name, IsNameByte byte) :
      Reference (123 :: (name ++ 125 :: after)) name after
  | bare
      {name after : List UInt8}
      (hne : name ≠ [])
      (hname : ∀ byte ∈ name, IsNameByte byte)
      (hend : ∀ byte ∈ after.head?, ¬ IsNameByte byte) :
      Reference (name ++ after) name after

theorem isNameByte_iff
    {byte : UInt8} :
    isNameByte byte = true ↔ IsNameByte byte := by
  have hcode : (Char.ofUInt8 byte).val.toNat = byte.toNat := rfl
  have halphanum : (Char.ofUInt8 byte).isAlphanum =
      (decide ('A'.val ≤ (Char.ofUInt8 byte).val ∧ (Char.ofUInt8 byte).val ≤ 'Z'.val) ||
        ('a'.val ≤ (Char.ofUInt8 byte).val && (Char.ofUInt8 byte).val ≤ 'z'.val) ||
        ('0'.val ≤ (Char.ofUInt8 byte).val && (Char.ofUInt8 byte).val ≤ '9'.val)) := rfl
  have hunderscore : Char.ofUInt8 byte = '_' ↔ byte.toNat = 95 := by
    rw [← Char.toNat_inj]
    exact Iff.rfl
  simp only [isNameByte, IsNameByte, hunderscore, halphanum, UInt32.le_iff_toNat_le, hcode,
    UInt8.le_iff_toNat_le, ← UInt8.toNat_inj, Bool.or_eq_true, Bool.and_eq_true,
      decide_eq_true_eq,
    UInt8.reduceToNat, Char.reduceVal, UInt32.reduceToNat]
  omega

theorem IsNameByte.lt
    {byte : UInt8}
    (h : IsNameByte byte) :
    byte.toNat < 128 := by
  have hname := isNameByte_iff.2 h
  simp only [isNameByte, UInt8.le_iff_toNat_le, ← UInt8.toNat_inj, Bool.or_eq_true,
    Bool.and_eq_true, decide_eq_true_eq, UInt8.reduceToNat] at hname
  omega

theorem takeWhile_name
    {name after : List UInt8}
    (hname : ∀ byte ∈ name, IsNameByte byte)
    (hend : ∀ byte ∈ after.head?, ¬ IsNameByte byte) :
    (name ++ after).takeWhile isNameByte = name := by
  have hnone : after.takeWhile isNameByte = [] := by
    cases after with
    | nil => rfl
    | cons byte after =>
        exact List.takeWhile_cons_of_neg (mt isNameByte_iff.1 (hend byte rfl))
  rw [List.takeWhile_append_of_pos fun byte hbyte => isNameByte_iff.2
    (hname byte hbyte), hnone, List.append_nil]

/-- The longest name at the start of a text, which may be empty, and what follows it. -/
theorem exists_name
    (s : List UInt8) :
    ∃ name after,
      s = name ++ after ∧
      (∀ byte ∈ name, IsNameByte byte) ∧
      ∀ byte ∈ after.head?, ¬ IsNameByte byte := by
  refine ⟨s.takeWhile isNameByte, s.dropWhile isNameByte,
    List.takeWhile_append_dropWhile.symm,
    fun _ hbyte => isNameByte_iff.1 (List.mem_takeWhile_imp hbyte), ?_⟩
  intro byte hbyte hname
  have hhead := List.head?_dropWhile_not isNameByte s
  rw [Option.mem_def.1 hbyte] at hhead
  simp [isNameByte_iff.2 hname] at hhead

/-- A reference is recognised with its width. -/
theorem reference?_of_reference
    {s name after : List UInt8}
    (h : Reference s name after) :
    ∃ width, reference? s = some (name, width) ∧ s.drop width = after := by
  cases h with
  | braced hne hname =>
      have hspan : (name ++ 125 :: after).takeWhile isNameByte = name :=
        takeWhile_name hname (by rintro byte ⟨⟩; exact mt isNameByte_iff.2 (by decide))
      refine ⟨name.length + 2, ?_, ?_⟩
      · simp [reference?, hspan, hne]
      · simp
  | bare hne hname hend =>
      have hbrace : (name ++ after).head? ≠ some 123 := by
        obtain ⟨byte, more, rfl⟩ := List.exists_cons_of_ne_nil hne
        intro heq
        cases heq
        exact mt isNameByte_iff.2 (by decide) (hname 123 List.mem_cons_self)
      refine ⟨name.length, ?_, List.drop_left⟩
      rw [reference?, if_neg hbrace, takeWhile_name hname hend, if_pos hne]

theorem reference_of_reference?
    {s name : List UInt8} {width : Nat}
    (h : reference? s = some (name, width)) :
    Reference s name (s.drop width) := by
  simp only [reference?] at h
  split_ifs at h with hbrace hclosed hne
  · obtain ⟨inner, rfl⟩ := List.head?_eq_some_iff.1 hbrace
    obtain ⟨found, after, rfl, hname, hend⟩ := exists_name inner
    rw [List.tail_cons, takeWhile_name hname hend] at h hclosed
    cases h
    rw [List.getElem?_cons_succ, List.getElem?_append_right (Nat.le_refl _), Nat.sub_self,
      ← List.head?_eq_getElem?] at hclosed
    obtain ⟨more, rfl⟩ := List.head?_eq_some_iff.1 hclosed.2
    have hdrop : (123 :: (name ++ 125 :: more)).drop (name.length + 2) = more := by simp
    rw [hdrop]
    exact .braced hclosed.1 hname
  · obtain ⟨found, after, rfl, hname, hend⟩ := exists_name s
    rw [takeWhile_name hname hend] at h hne
    cases h
    rw [List.drop_left]
    exact .bare hne hname hend

/-- **A reference is found if and only if there is one.** -/
theorem reference?_eq_none_iff
    {s : List UInt8} :
    reference? s = none ↔ ∀ name after, ¬ Reference s name after := by
  constructor
  · intro h name after hreference
    obtain ⟨width, hfound, -⟩ := reference?_of_reference hreference
    cases h.symm.trans hfound
  · intro h
    cases hfound : reference? s with
    | none => rfl
    | some found => exact absurd (reference_of_reference? hfound) (h found.1 _)

/-- A text starts with one reference at most. -/
theorem Reference.unique
    {s name after name' after' : List UInt8}
    (h : Reference s name after)
    (h' : Reference s name' after') :
    name = name' ∧ after = after' := by
  obtain ⟨width, hfound, rfl⟩ := reference?_of_reference h
  obtain ⟨width', hfound', rfl⟩ := reference?_of_reference h'
  cases hfound.symm.trans hfound'
  exact ⟨rfl, rfl⟩

/-- A reference is made of ASCII characters. -/
theorem Reference.exists_ascii
    {s name after : List UInt8}
    (h : Reference s name after) :
    ∃ ascii, (∀ byte ∈ ascii, byte.toNat < 128) ∧ s = ascii ++ after := by
  cases h with
  | braced hne hname =>
      refine ⟨123 :: (name ++ [125]), ?_, by simp⟩
      simp only [List.forall_mem_cons, List.forall_mem_append]
      exact ⟨by decide, fun byte hbyte => (hname byte hbyte).lt, by simp⟩
  | bare hne hname hend => exact ⟨name, fun byte hbyte => (hname byte hbyte).lt, rfl⟩

/-! ## The scan -/

/-- A piece of a text: a byte that is copied, or a reference to a variable. -/
inductive Piece where
  | copied (byte : UInt8)
  | value (name : List UInt8)

/-- What is written for a piece. -/
def Piece.written (lookUp : List UInt8 → Option (List UInt8)) : Piece → List UInt8
  | copied byte => [byte]
  | value name => (lookUp name).getD []

/-- The pieces of a text, from left to right. A reference is skipped as a whole; a
dollar sign without a reference is copied, and the very next byte follows. -/
inductive Scan : List UInt8 → List Piece → Prop where
  | done : Scan [] []
  | reference
      {rest name after : List UInt8} {pieces : List Piece}
      (href : Reference rest name after)
      (hafter : Scan after pieces) :
      Scan (36 :: rest) (.value name :: pieces)
  | dollar
      {rest : List UInt8} {pieces : List Piece}
      (hnone : ∀ name after, ¬ Reference rest name after)
      (hrest : Scan rest pieces) :
      Scan (36 :: rest) (.copied 36 :: pieces)
  | other
      {byte : UInt8} {rest : List UInt8} {pieces : List Piece}
      (hbyte : byte ≠ 36)
      (hrest : Scan rest pieces) :
      Scan (byte :: rest) (.copied byte :: pieces)

/-- A text is scanned in one way only. -/
theorem Scan.unique
    {s : List UInt8} {pieces others : List Piece}
    (h : Scan s pieces)
    (hothers : Scan s others) :
    pieces = others := by
  induction h generalizing others with
  | done =>
      cases hothers
      rfl
  | reference href _ ih =>
      cases hothers with
      | reference href' hafter' =>
          obtain ⟨rfl, rfl⟩ := href.unique href'
          rw [ih hafter']
      | dollar hnone _ => exact absurd href (hnone _ _)
      | other hbyte _ => exact absurd rfl hbyte
  | dollar hnone _ ih =>
      cases hothers with
      | reference href _ => exact absurd href (hnone _ _)
      | dollar _ hrest' => rw [ih hrest']
      | other hbyte _ => exact absurd rfl hbyte
  | other hbyte _ ih =>
      cases hothers with
      | reference _ _ => exact absurd rfl hbyte
      | dollar _ _ => exact absurd rfl hbyte
      | other _ hrest' => rw [ih hrest']

theorem exists_scan (s : List UInt8) : ∃ pieces, Scan s pieces :=
  match s with
  | [] => ⟨[], .done⟩
  | byte :: rest => by
      by_cases hdollar : byte = 36
      · subst hdollar
        cases hfound : reference? rest with
        | none =>
            obtain ⟨pieces, hrest⟩ := exists_scan rest
            exact ⟨_, .dollar (reference?_eq_none_iff.1 hfound) hrest⟩
        | some found =>
            obtain ⟨pieces, hafter⟩ := exists_scan (rest.drop found.2)
            exact ⟨_, .reference (reference_of_reference? hfound) hafter⟩
      · obtain ⟨pieces, hrest⟩ := exists_scan rest
        exact ⟨_, .other hdollar hrest⟩
termination_by s.length
decreasing_by
  all_goals
    simp only [List.length_cons, List.length_drop]
    omega

/-- Bytes before the first dollar sign are copied. -/
theorem Scan.exists_of_append
    {before s : List UInt8} {pieces : List Piece}
    (hbefore : ∀ byte ∈ before, byte ≠ 36)
    (h : Scan (before ++ s) pieces) :
    ∃ rest, pieces = before.map .copied ++ rest ∧ Scan s rest := by
  induction before generalizing pieces with
  | nil => exact ⟨pieces, rfl, h⟩
  | cons byte before ih =>
      obtain ⟨hbyte, hbefore⟩ := List.forall_mem_cons.1 hbefore
      cases h with
      | reference _ _ => exact absurd rfl hbyte
      | dollar _ _ => exact absurd rfl hbyte
      | other _ hrest =>
          obtain ⟨rest, rfl, hs⟩ := ih hbefore hrest
          exact ⟨rest, rfl, hs⟩

theorem flatMap_written_copied
    (lookUp : List UInt8 → Option (List UInt8))
    (bytes : List UInt8) :
    (bytes.map .copied).flatMap (Piece.written lookUp) = bytes := by
  rw [List.flatMap_map]
  exact List.flatMap_singleton' bytes

/-! ## The search -/

theorem nextDollar?_nil
    (finished : List UInt8) :
    nextDollar? finished finished.length = none := by
  rw [nextDollar?, List.drop_length]
  rfl

theorem nextDollar?_dollar
    (finished rest : List UInt8) :
    nextDollar? (finished ++ 36 :: rest) finished.length = some finished.length := by
  rw [nextDollar?, List.drop_left, List.findIdx?_cons]
  rfl

theorem nextDollar?_other
    {byte : UInt8}
    (hbyte : byte ≠ 36)
    (finished rest : List UInt8) :
    nextDollar? (finished ++ byte :: rest) finished.length =
      nextDollar? (finished ++ byte :: rest) (finished.length + 1) := by
  have hnext : (finished ++ byte :: rest).drop (finished.length + 1) = rest := by simp
  rw [nextDollar?, nextDollar?, hnext, List.drop_left, List.findIdx?_cons,
    if_neg (by simpa using hbyte), Option.map_map]
  congr 1
  funext index
  simp only [Function.comp_apply]
  omega

/-- Only the next dollar sign matters. -/
theorem replaceFrom_congr
    {text : List UInt8} {pos pos' : Nat}
    (h : nextDollar? text pos = nextDollar? text pos') :
    replaceFrom lookUp text pos = replaceFrom lookUp text pos' := by
  rw [replaceFrom.eq_def lookUp text pos, replaceFrom.eq_def lookUp text pos', h]

/-- **The invariant of the search**: the text is finished before a place, and the scan
of what stands from this place on tells what is still written. -/
theorem replaceFrom_eq
    {rest : List UInt8} {pieces : List Piece}
    (h : Scan rest pieces)
    (finished : List UInt8) :
    replaceFrom lookUp (finished ++ rest) finished.length =
      finished ++ pieces.flatMap (Piece.written lookUp) := by
  induction h generalizing finished with
  | done =>
      rw [List.append_nil, replaceFrom, nextDollar?_nil]
      exact (List.append_nil _).symm
  | @reference rest name after pieces href _ ih =>
      obtain ⟨width, hfound, rfl⟩ := reference?_of_reference href
      have hafter : (finished ++ 36 :: rest).drop (finished.length + 1) = rest := by simp
      have hdone := ih (finished ++ (lookUp name).getD [])
      rw [replaceFrom, nextDollar?_dollar]
      simp only [hafter, hfound]
      have hbehind :
          (finished ++ 36 :: rest).drop (finished.length + 1 + width) =
            rest.drop width := by
        rw [← List.drop_drop, hafter]
      rw [List.length_append] at hdone
      rw [hbehind, List.take_left, hdone, List.append_assoc]
      rfl
  | @dollar rest pieces hnone _ ih =>
      have hafter : (finished ++ 36 :: rest).drop (finished.length + 1) = rest := by simp
      have hdone := ih (finished ++ [36])
      rw [replaceFrom, nextDollar?_dollar]
      simp only [hafter, reference?_eq_none_iff.2 hnone]
      rw [List.append_assoc, List.append_assoc, List.length_append] at hdone
      exact hdone
  | @other byte rest pieces hbyte _ ih =>
      have hdone := ih (finished ++ [byte])
      rw [List.append_assoc, List.append_assoc, List.length_append] at hdone
      exact (replaceFrom_congr (nextDollar?_other hbyte finished rest)).trans hdone

/-- The loop writes the pieces of the text one after the other. -/
theorem replaceReferences_eq
    {text : List UInt8} {pieces : List Piece}
    (h : Scan text pieces) :
    replaceReferences lookUp text = pieces.flatMap (Piece.written lookUp) :=
  replaceFrom_eq h []

/-! ## Texts -/

theorem forall_ne_dollar
    {c : Char}
    (h : c ≠ '$') :
    ∀ byte ∈ String.utf8EncodeChar c, byte ≠ 36 := by
  by_cases hc : c.toNat < 128
  · rw [Text.utf8EncodeChar_of_lt hc, List.forall_mem_singleton]
    intro heq
    have hcode : c.toNat = 36 := by
      have hbyte := congrArg UInt8.toNat heq
      rw [UInt8.toNat_ofNat', Nat.mod_eq_of_lt (by omega)] at hbyte
      exact hbyte
    exact h (by rw [← Char.ofNat_toNat c, hcode])
  · rintro byte hbyte rfl
    have hbeyond := Text.forall_mem_utf8EncodeChar (Nat.not_lt.1 hc) 36 hbyte
    exact absurd hbeyond (by decide)

/-- Where values are texts, a text becomes a text: a reference is made of whole
characters. -/
theorem Scan.exists_encoded
    (hvalues : ∀ name, ∃ chars, (lookUp name).getD [] = Text.encoded chars)
    {chars : List Char} {pieces : List Piece}
    (h : Scan (Text.encoded chars) pieces) :
    ∃ written, pieces.flatMap (Piece.written lookUp) = Text.encoded written :=
  match chars with
  | [] => by
      cases h
      exact ⟨[], rfl⟩
  | c :: rest => by
      rw [Text.encoded_cons] at h
      by_cases hdollar : c = '$'
      · subst hdollar
        cases h with
        | reference href hafter =>
            obtain ⟨ascii, hascii, hrest⟩ := href.exists_ascii
            obtain ⟨front, back, rfl, rfl⟩ := Text.exists_of_encoded_eq_append hascii hrest
            obtain ⟨value, hvalue⟩ := hvalues _
            obtain ⟨written, hwritten⟩ := hafter.exists_encoded hvalues
            exact ⟨value ++ written, by
              rw [List.flatMap_cons, Piece.written, hvalue, hwritten, Text.encoded_append]⟩
        | dollar _ hrest =>
            obtain ⟨written, hwritten⟩ := hrest.exists_encoded hvalues
            exact ⟨'$' :: written, by rw [List.flatMap_cons, hwritten]; rfl⟩
        | other hbyte _ => exact absurd rfl hbyte
      · obtain ⟨others, rfl, hrest⟩ := h.exists_of_append (forall_ne_dollar hdollar)
        obtain ⟨written, hwritten⟩ := hrest.exists_encoded hvalues
        exact ⟨c :: written, by
          rw [List.flatMap_append, flatMap_written_copied, hwritten, Text.encoded_cons]⟩
termination_by chars.length

theorem utf8_expand
    (environment : Environment)
    (text : String) :
    Text.utf8 (environment.expand text) =
      replaceReferences environment.lookUp (Text.utf8 text) := by
  have hvalues :
      ∀ name, ∃ chars, (environment.lookUp name).getD [] = Text.encoded chars := by
    intro name
    unfold lookUp
    cases environment.get? (nameText name) with
    | none => exact ⟨[], rfl⟩
    | some value => exact ⟨value.toList, rfl⟩
  obtain ⟨pieces, hscan⟩ := exists_scan (Text.utf8 text)
  obtain ⟨written, hwritten⟩ := Scan.exists_encoded hvalues hscan
  rw [expand, replaceReferences_eq hscan, hwritten, ← Text.utf8_ofList, Text.ofUtf8?_utf8]
  rfl

/-- **Expansion is one pass over the text as it was given.** Every byte string has
exactly one scan. Whatever the values of the variables are, its pieces tell what comes
out, and what comes out for a text is a text. -/
theorem references_replaced_in_one_pass :
    (∀ text : List UInt8,
        ∃ pieces,
          (∀ others, Scan text others ↔ others = pieces) ∧
          ∀ lookUp,
            replaceReferences lookUp text =
              pieces.flatMap (Piece.written lookUp)) ∧
    ∀ (environment : Environment) (text : String),
      Text.utf8 (environment.expand text) =
        replaceReferences environment.lookUp (Text.utf8 text) := by
  refine ⟨?_, utf8_expand⟩
  intro text
  obtain ⟨pieces, hscan⟩ := exists_scan text
  refine ⟨pieces, ?_, fun lookUp => replaceReferences_eq hscan⟩
  intro others
  constructor
  · exact fun hothers => hothers.unique hscan
  · rintro rfl
    exact hscan

end Environment

end PhaseFlow
