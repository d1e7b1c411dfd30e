import Mathlib.Data.List.Lex
import Mathlib.Order.Basic
import Mathlib.Tactic.SplitIfs
import PhaseFlow.Text

/-!
# Texts in the order of their bytes

Maps keep their keys in the order of texts, which compares characters. Outside, keys are
sequences of bytes and are compared byte by byte. Both orders are the same: of two
characters, the smaller one is encoded with a smaller byte where the encodings differ
first (`diverges_utf8EncodeChar`), so the same is true of texts (`utf8_lt_utf8_iff`).
-/

namespace PhaseFlow

/-- Neither list goes on where the other ends: they differ at a place that both have,
and there the first one is smaller. -/
def Diverges {α : Type} [LT α] (left right : List α) : Prop :=
  ∃ common first second rest rest', left = common ++ first :: rest ∧
    right = common ++ second :: rest' ∧ first < second

theorem Diverges.head
    {α : Type} [LT α] {first second : α}
    (h : first < second)
    (rest rest' : List α) :
    Diverges (first :: rest) (second :: rest') :=
  ⟨[], first, second, rest, rest', rfl, rfl, h⟩

theorem Diverges.cons
    {α : Type} [LT α] {left right : List α}
    (h : Diverges left right)
    (item : α) :
    Diverges (item :: left) (item :: right) := by
  obtain ⟨common, first, second, rest, rest', rfl, rfl, hlt⟩ := h
  exact ⟨item :: common, first, second, rest, rest', rfl, rfl, hlt⟩

theorem Diverges.append
    {α : Type} [LT α] {left right : List α}
    (h : Diverges left right)
    (more more' : List α) :
    Diverges (left ++ more) (right ++ more') := by
  obtain ⟨common, first, second, rest, rest', rfl, rfl, hlt⟩ := h
  exact ⟨common, first, second, rest ++ more, rest' ++ more', by simp, by simp, hlt⟩

/-- Lists that diverge are in the lexicographic order. -/
theorem Diverges.lt
    {α : Type} [LT α] {left right : List α}
    (h : Diverges left right) :
    left < right := by
  obtain ⟨common, first, second, rest, rest', rfl, rfl, hlt⟩ := h
  induction common with
  | nil => exact List.Lex.rel hlt
  | cons item common ih => exact List.Lex.cons ih

/-- Lists that begin with two items in order, and diverge after them if these are the
same. -/
theorem Diverges.of_le
    {α : Type} [PartialOrder α] {first second : α} {rest rest' : List α}
    (hle : first ≤ second)
    (hrest : first = second → Diverges rest rest') :
    Diverges (first :: rest) (second :: rest') := by
  rcases hle.lt_or_eq with hlt | rfl
  · exact Diverges.head hlt rest rest'
  · exact (hrest rfl).cons first

/-- Two lists diverge at their heads, or their heads agree and their rests diverge. -/
theorem diverges_cons_iff
    {α : Type} [LT α] {first second : α} {rest rest' : List α} :
    Diverges (first :: rest) (second :: rest') ↔
      first < second ∨ first = second ∧ Diverges rest rest' := by
  constructor
  · rintro ⟨common, left, right, more, more', hleft, hright, hlt⟩
    cases common with
    | nil =>
        cases hleft
        cases hright
        exact Or.inl hlt
    | cons item common =>
        cases hleft
        cases hright
        exact Or.inr ⟨rfl, common, left, right, more, more', rfl, rfl, hlt⟩
  · rintro (hlt | ⟨rfl, h⟩)
    · exact Diverges.head hlt rest rest'
    · exact h.cons first

theorem Diverges.append_left
    {α : Type} [LT α] {left right : List α}
    (h : Diverges left right)
    (before : List α) :
    Diverges (before ++ left) (before ++ right) := by
  induction before with
  | nil => exact h
  | cons item before ih => exact ih.cons item

/-- Bytes below 256 diverge as the numbers do that they hold. -/
theorem Diverges.ofNat
    {m n : Nat} {rest rest' : List UInt8}
    (hle : m ≤ n)
    (hn : n < 256)
    (hrest : m = n → Diverges rest rest') :
    Diverges (UInt8.ofNat m :: rest) (UInt8.ofNat n :: rest') := by
  rcases Nat.lt_or_eq_of_le hle with hlt | rfl
  · refine Diverges.head ?_ rest rest'
    rw [UInt8.lt_iff_toNat_lt, UInt8.toNat_ofNat', UInt8.toNat_ofNat']
    omega
  · exact (hrest rfl).cons _

namespace Text

/-! ## Characters

After its first byte, an encoding holds six binary digits of the character in each
byte. -/

theorem diverges_one
    {v w : Nat}
    (h : v % 64 < w % 64) :
    Diverges [UInt8.ofNat (v % 64 + 128)] [UInt8.ofNat (w % 64 + 128)] :=
  Diverges.ofNat (by omega) (by omega) fun heq => by omega

/-- Two continuation bytes hold twelve bits, the higher six first. -/
theorem diverges_two
    {v w : Nat}
    (h : v % 4096 < w % 4096) :
    Diverges [UInt8.ofNat (v / 64 % 64 + 128), UInt8.ofNat (v % 64 + 128)]
      [UInt8.ofNat (w / 64 % 64 + 128), UInt8.ofNat (w % 64 + 128)] :=
  Diverges.ofNat (by omega) (by omega) fun heq => diverges_one (by omega)

theorem diverges_three
    {v w : Nat}
    (h : v % 262144 < w % 262144) :
    Diverges [UInt8.ofNat (v / 4096 % 64 + 128), UInt8.ofNat (v / 64 % 64 + 128),
      UInt8.ofNat (v % 64 + 128)] [UInt8.ofNat (w / 4096 % 64 + 128),
      UInt8.ofNat (w / 64 % 64 + 128), UInt8.ofNat (w % 64 + 128)] :=
  Diverges.ofNat (by omega) (by omega) fun heq => diverges_two (by omega)

/-- **The encodings of two characters differ like the characters.** -/
theorem diverges_utf8EncodeChar
    {c d : Char}
    (h : c < d) :
    Diverges (String.utf8EncodeChar c) (String.utf8EncodeChar d) := by
  have hlt : c.val.toNat < d.val.toNat := h
  have hd : d.val.toNat < 0x110000 := by
    have hvalid :
        d.val.toNat < 0xd800 ∨ 0xdfff < d.val.toNat ∧ d.val.toNat < 0x110000 :=
      d.valid
    omega
  unfold String.utf8EncodeChar
  dsimp only
  generalize c.val.toNat = v at hlt
  generalize d.val.toNat = w at hlt hd
  -- A longer encoding starts with a larger byte, and encodings of one length are
  -- compared by digits.
  split_ifs <;> first
    | omega
    | exact Diverges.ofNat (by omega) (by omega) fun heq => by omega
    | exact Diverges.ofNat (by omega) (by omega) fun heq => diverges_one (by omega)
    | exact Diverges.ofNat (by omega) (by omega) fun heq => diverges_two (by omega)
    | exact Diverges.ofNat (by omega) (by omega) fun heq => diverges_three (by omega)

/-! ## Texts -/

/-- The first character in which two texts differ decides, and so do its bytes. -/
theorem utf8_lt_utf8 {a b : String} (h : a < b) : utf8 a < utf8 b := by
  have hchars : List.Lex (· < ·) a.toList b.toList := List.lex_lt.2 (String.lt_iff.1 h)
  unfold utf8
  generalize a.toList = left at hchars
  generalize b.toList = right at hchars
  induction hchars with
  | nil =>
      obtain ⟨byte, more, hmore⟩ := List.exists_cons_of_ne_nil String.utf8EncodeChar_ne_nil
      rw [List.flatMap_cons, hmore]
      exact List.Lex.nil
  | cons _ ih =>
      rw [List.flatMap_cons, List.flatMap_cons]
      exact List.Lex.append_left _ ih _
  | rel hlt =>
      rw [List.flatMap_cons, List.flatMap_cons]
      exact ((diverges_utf8EncodeChar hlt).append _ _).lt

theorem utf8_injective : Function.Injective utf8 := by
  intro a b h
  have hle : ∀ {c d : String}, utf8 c = utf8 d → c ≤ d := by
    intro c d heq
    refine String.not_lt.1 fun hlt => ?_
    have hbytes := utf8_lt_utf8 hlt
    rw [heq] at hbytes
    exact List.lt_irrefl _ hbytes
  exact String.le_antisymm (hle h) (hle h.symm)

/-- **Texts are ordered like their bytes.** -/
theorem utf8_lt_utf8_iff {a b : String} : utf8 a < utf8 b ↔ a < b := by
  refine ⟨?_, utf8_lt_utf8⟩
  intro h
  by_cases hlt : a < b
  · exact hlt
  · by_cases heq : b = a
    · subst heq
      exact absurd h (List.lt_irrefl _)
    · have hgt : b < a := by
        by_cases hgt : b < a
        · exact hgt
        · exact absurd (String.le_antisymm (String.not_lt.1 hlt) (String.not_lt.1 hgt)) heq
      exact absurd h (List.lt_asymm (utf8_lt_utf8 hgt))

/-- The texts stand in strictly ascending order of their bytes. -/
def Ascending (texts : List String) : Prop :=
  texts.Pairwise fun a b => utf8 a < utf8 b

end Text

end PhaseFlow
