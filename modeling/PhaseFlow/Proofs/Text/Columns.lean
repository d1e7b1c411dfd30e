import Mathlib.Data.Nat.Digits.Defs
import PhaseFlow.Proofs.Json.Number
import PhaseFlow.Proofs.Text.ByteOrder
import PhaseFlow.Proofs.Text.Encoding

/-!
# Numbers in columns

A number that is filled up with zeros to a width takes exactly this width if it has no
more digits, and two such numbers are ordered like their texts (`diverges_padded`). A
row of numbers in columns of fixed widths, each with a mark behind it, is ordered by the
first number that is different (`diverges_row`). All rows of the same columns look alike
up to the digits (`map_blanked_row`).
-/

namespace PhaseFlow

namespace Text

/-- The digits of a number, filled up with zeros. -/
abbrev padded (width n : Nat) : List Char :=
  padLeft width '0' (decimal n)

/-! ## One number -/

theorem length_padded
    {width n : Nat}
    (hwidth : 0 < width)
    (hn : n < 10 ^ width) :
    (padded width n).length = width := by
  have hle : (decimal n).length ≤ width := Nat.toDigits_length 10 n width hwidth hn
  rw [padded, padLeft, List.length_append, List.length_replicate]
  exact Nat.sub_add_cancel hle

theorem toNat_of_isDigit
    {c : Char}
    (h : c.isDigit = true) :
    48 ≤ c.toNat ∧ c.toNat ≤ 57 := by
  simpa [Char.isDigit, UInt32.le_iff_toNat_le] using h

theorem digitsValue_cons
    (c : Char)
    (rest : List Char) :
    Json.digitsValue (c :: rest) =
      (c.toNat - 48) * 10 ^ rest.length + Json.digitsValue rest := by
  have hone : Json.digitsValue [c] = c.toNat - 48 := by simp [Json.digitsValue]
  rw [← List.singleton_append, Json.digitsValue_append, hone]

theorem digitsValue_lt :
    ∀ {digits : List Char},
      (∀ c ∈ digits, c.isDigit = true) → Json.digitsValue digits < 10 ^ digits.length
  | [], _ => Nat.one_pos
  | c :: rest, h => by
      have hrest := digitsValue_lt fun d hd => h d (List.mem_cons_of_mem c hd)
      have hdigit := (toNat_of_isDigit (h c List.mem_cons_self)).2
      calc Json.digitsValue (c :: rest)
          = (c.toNat - 48) * 10 ^ rest.length + Json.digitsValue rest :=
            digitsValue_cons c rest
        _ < (c.toNat - 48) * 10 ^ rest.length + 10 ^ rest.length :=
          Nat.add_lt_add_left hrest _
        _ = (c.toNat - 48 + 1) * 10 ^ rest.length := (Nat.succ_mul _ _).symm
        _ ≤ 10 * 10 ^ rest.length := Nat.mul_le_mul_right _ (by omega)
        _ = 10 ^ (c :: rest).length := by rw [List.length_cons, Nat.pow_succ, Nat.mul_comm]

/-- **Runs of digits of the same length are ordered like their values.** -/
theorem diverges_digits :
    ∀ {left right : List Char},
      (∀ c ∈ left, c.isDigit = true) →
      (∀ c ∈ right, c.isDigit = true) →
      left.length = right.length →
      Json.digitsValue left < Json.digitsValue right →
      Diverges left right
  | [], [], _, _, _, hlt => absurd hlt (lt_irrefl _)
  | c :: rest, d :: rest', hleft, hright, hlength, hlt => by
      have hrest := fun x hx => hleft x (List.mem_cons_of_mem c hx)
      have hrest' := fun x hx => hright x (List.mem_cons_of_mem d hx)
      have hsame : rest.length = rest'.length := Nat.succ.inj hlength
      have hc := (toNat_of_isDigit (hleft c List.mem_cons_self)).1
      have hd := (toNat_of_isDigit (hright d List.mem_cons_self)).1
      have hbound := digitsValue_lt hrest'
      rw [digitsValue_cons, digitsValue_cons, hsame] at hlt
      -- A larger first digit is not made up for by all the digits after it.
      have hle : c.toNat ≤ d.toNat := by
        by_contra hgt
        have hdigits : d.toNat - 48 + 1 ≤ c.toNat - 48 := by omega
        have hmul := Nat.mul_le_mul_right (10 ^ rest'.length) hdigits
        rw [Nat.succ_mul] at hmul
        omega
      rcases hle.lt_or_eq with hfirst | heq
      · exact Diverges.head (show c < d from hfirst) rest rest'
      · obtain rfl : c = d := Char.ext (UInt32.toNat_inj.1 heq)
        exact (diverges_digits hrest hrest' hsame (Nat.lt_of_add_lt_add_left hlt)).cons c

/-- **Padded numbers that fit are ordered like their texts.** -/
theorem diverges_padded
    {width m n : Nat}
    (hwidth : 0 < width)
    (h : m < n)
    (hn : n < 10 ^ width) :
    Diverges (padded width m) (padded width n) := by
  refine diverges_digits (Json.isDigits_padLeft width m).isDigit
    (Json.isDigits_padLeft width n).isDigit ?_ ?_
  · rw [length_padded hwidth (h.trans hn), length_padded hwidth hn]
  · rw [Json.digitsValue_padLeft, Json.digitsValue_padLeft]
    exact h

/-! ## Rows -/

/-- A row of numbers. A column has a width and a mark that stands behind it. -/
def row : List (Nat × List Char) → List Nat → List Char
  | (width, mark) :: columns, n :: rest => padded width n ++ mark ++ row columns rest
  | _, _ => []

/-- The numbers take no more digits than their columns have. -/
def Fits (columns : List (Nat × List Char)) (numbers : List Nat) : Prop :=
  List.Forall₂ (fun column n => 0 < column.1 ∧ n < 10 ^ column.1) columns numbers

/-- **Rows of the same columns are ordered like their numbers.** -/
theorem diverges_row
    {columns : List (Nat × List Char)} {numbers others : List Nat}
    (hfits : Fits columns numbers)
    (hothers : Fits columns others)
    (h : Diverges numbers others) :
    Diverges (row columns numbers) (row columns others) := by
  induction hfits generalizing others with
  | nil =>
      cases hothers
      obtain ⟨common, first, second, rest, rest', hnil, -⟩ := h
      cases common <;> cases hnil
  | @cons column n columns rest hn _ ih =>
      obtain ⟨width, mark⟩ := column
      cases hothers with
      | @cons _ m _ rest' hm hrest' =>
          show Diverges (padded width n ++ mark ++ row columns rest)
            (padded width m ++ mark ++ row columns rest')
          rcases diverges_cons_iff.1 h with hlt | ⟨rfl, hrest⟩
          · rw [List.append_assoc, List.append_assoc]
            exact (diverges_padded hn.1 hlt hm.2).append _ _
          · exact (ih hrest' hrest).append_left _

/-! ## The look of a row -/

/-- A character without what a digit says. -/
def blanked (c : Char) : Char :=
  if c.isDigit then '0' else c

theorem map_blanked_digits
    {digits : List Char}
    (h : ∀ c ∈ digits, c.isDigit = true) :
    digits.map blanked = List.replicate digits.length '0' := by
  refine List.eq_replicate_iff.2 ⟨List.length_map _, ?_⟩
  intro c hc
  obtain ⟨d, hd, rfl⟩ := List.mem_map.1 hc
  exact if_pos (h d hd)

/-- **All rows of the same columns look alike.** -/
theorem map_blanked_row
    {columns : List (Nat × List Char)} {numbers : List Nat}
    (h : Fits columns numbers) :
    (row columns numbers).map blanked =
      columns.flatMap fun column =>
        List.replicate column.1 '0' ++ column.2.map blanked := by
  induction h with
  | nil => rfl
  | @cons column n columns rest hn _ ih =>
      obtain ⟨width, mark⟩ := column
      show (padded width n ++ mark ++ row columns rest).map blanked = _
      rw [List.map_append, List.map_append, ih, List.flatMap_cons,
        map_blanked_digits (Json.isDigits_padLeft width n).isDigit, length_padded hn.1 hn.2]

/-- What looks like an ASCII text has one byte for each character. -/
theorem length_encoded_of_blanked
    {chars pattern : List Char}
    (hpattern : ∀ c ∈ pattern, c.toNat < 128)
    (h : chars.map blanked = pattern) :
    (encoded chars).length = pattern.length := by
  subst h
  induction chars with
  | nil => rfl
  | cons c rest ih =>
      have hc : c.toNat < 128 := by
        have hblanked := hpattern (blanked c) List.mem_cons_self
        unfold blanked at hblanked
        split at hblanked
        · next hdigit => exact Nat.lt_of_le_of_lt (toNat_of_isDigit hdigit).2 (by decide)
        · exact hblanked
      have hrest := ih fun d hd => hpattern d (List.mem_cons_of_mem _ hd)
      rw [encoded_cons, List.length_append, utf8EncodeChar_of_lt hc, hrest,
        List.length_singleton, List.map_cons, List.length_cons, Nat.add_comm]

end Text

end PhaseFlow
