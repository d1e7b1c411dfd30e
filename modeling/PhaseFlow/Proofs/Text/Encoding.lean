import Mathlib.Tactic.SplitIfs
import PhaseFlow.Text

/-!
# Texts as bytes

An ASCII character is its own byte, and the bytes of any other character lie beyond
ASCII. So a format with an ASCII syntax reads the same in the bytes of a text as in its
characters.
-/

namespace PhaseFlow

namespace Text

/-- The bytes of some characters. -/
def encoded (chars : List Char) : List UInt8 :=
  chars.flatMap String.utf8EncodeChar

@[simp] theorem encoded_nil : encoded [] = [] :=
  rfl

theorem encoded_cons
    (c : Char)
    (chars : List Char) :
    encoded (c :: chars) = String.utf8EncodeChar c ++ encoded chars :=
  rfl

@[simp] theorem encoded_append
    (chars more : List Char) :
    encoded (chars ++ more) = encoded chars ++ encoded more :=
  List.flatMap_append

/-- The bytes of a text are those of its characters. -/
theorem utf8_ofList
    (chars : List Char) :
    utf8 (String.ofList chars) = encoded chars := by
  rw [utf8, String.toList_ofList]
  rfl

/-- An ASCII character is its own byte. -/
theorem utf8EncodeChar_of_lt
    {c : Char}
    (h : c.toNat < 128) :
    String.utf8EncodeChar c = [UInt8.ofNat c.toNat] := by
  have hle : c.val.toNat ≤ 127 := Nat.le_of_lt_succ h
  unfold String.utf8EncodeChar
  exact if_pos hle

/-- Every byte of a character that is not ASCII lies beyond ASCII. -/
theorem forall_mem_utf8EncodeChar
    {c : Char}
    (h : 128 ≤ c.toNat) :
    ∀ byte ∈ String.utf8EncodeChar c, 128 ≤ byte.toNat := by
  have hlt : ¬ c.val.toNat ≤ 127 := Nat.not_le.2 h
  unfold String.utf8EncodeChar
  dsimp only
  generalize c.val.toNat = v at hlt
  split_ifs <;>
    simp only [List.forall_mem_cons, List.not_mem_nil, false_imp_iff, implies_true, and_true,
      UInt8.toNat_ofNat'] <;>
    omega

/-- Bytes at the start of some characters that are ASCII are whole characters: what
follows them is made of whole characters, too. -/
theorem exists_of_encoded_eq_append
    {ascii more : List UInt8}
    (hascii : ∀ byte ∈ ascii, byte.toNat < 128) :
    ∀ {chars : List Char},
      encoded chars = ascii ++ more →
      ∃ front back, chars = front ++ back ∧ encoded back = more := by
  induction ascii with
  | nil => exact fun {chars} h => ⟨[], chars, rfl, h⟩
  | cons byte ascii ih =>
      obtain ⟨hbyte, hascii⟩ := List.forall_mem_cons.1 hascii
      rintro (_ | ⟨c, chars⟩) h
      · cases h
      · rw [encoded_cons] at h
        by_cases hc : c.toNat < 128
        · rw [utf8EncodeChar_of_lt hc, List.singleton_append, List.cons_append] at h
          obtain ⟨front, back, rfl, hback⟩ := ih hascii (List.tail_eq_of_cons_eq h)
          exact ⟨c :: front, back, rfl, hback⟩
        · have hbeyond := forall_mem_utf8EncodeChar (Nat.not_lt.1 hc)
          cases hbytes : String.utf8EncodeChar c with
          | nil => exact absurd hbytes String.utf8EncodeChar_ne_nil
          | cons first others =>
              rw [hbytes, List.cons_append, List.cons_append] at h
              have hfirst := hbeyond first (by rw [hbytes]; exact List.mem_cons_self)
              rw [List.head_eq_of_cons_eq h] at hfirst
              omega

theorem toUTF8_eq
    (text : String) :
    text.toUTF8 = ByteArray.mk (utf8 text).toArray := by
  rw [String.toUTF8_eq_toByteArray, ← String.utf8Encode_toList]
  exact ByteArray.ext List.data_toByteArray

/-- A text is read back from its bytes. -/
@[simp] theorem ofUtf8?_utf8
    (text : String) :
    ofUtf8? (utf8 text) = some text := by
  have htext : String.fromUTF8? text.toUTF8 = some text := dif_pos text.isValidUTF8
  rw [ofUtf8?, ← toUTF8_eq, htext]

end Text

end PhaseFlow
