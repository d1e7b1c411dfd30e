import Mathlib.Data.List.Infix
import PhaseFlow.Proofs.Text.Encoding

/-!
# Cutting a text at a byte

The bytes before a cut are a text if the cut falls between two characters, and only
then. Around an ASCII byte bytes fall apart: they are a text if those before it and
those after it are (`isWhole_append_cons`).

Main statement: `isWhole_take_encoded_iff`.
-/

namespace PhaseFlow

namespace Text

/-- The bytes are made of whole characters. -/
def IsWhole (bytes : List UInt8) : Prop :=
  ∃ chars, encoded chars = bytes

/-- The cut after `size` bytes goes through a character. -/
def SplitsCharacter (chars : List Char) (size : Nat) : Prop :=
  ∃ front c back, chars = front ++ c :: back ∧
    (encoded front).length < size ∧ size < (encoded front).length +
      (String.utf8EncodeChar c).length

/-! ## Whole characters -/

theorem isWhole_encoded (chars : List Char) : IsWhole (encoded chars) :=
  ⟨chars, rfl⟩

theorem isWhole_utf8EncodeChar (c : Char) : IsWhole (String.utf8EncodeChar c) :=
  ⟨[c], by rw [encoded_cons, encoded_nil, List.append_nil]⟩

theorem isWhole_utf8 (text : String) : IsWhole (utf8 text) :=
  isWhole_encoded text.toList

theorem IsWhole.append
    {bytes more : List UInt8}
    (h : IsWhole bytes)
    (hmore : IsWhole more) :
    IsWhole (bytes ++ more) := by
  obtain ⟨chars, rfl⟩ := h
  obtain ⟨others, rfl⟩ := hmore
  exact ⟨chars ++ others, encoded_append chars others⟩

theorem isWhole_of_ascii :
    ∀ {ascii : List UInt8}, (∀ byte ∈ ascii, byte.toNat < 128) → IsWhole ascii
  | [], _ => isWhole_encoded []
  | byte :: ascii, h => by
      obtain ⟨hbyte, hascii⟩ := List.forall_mem_cons.1 h
      have hchar : (Char.ofUInt8 byte).toNat < 128 := hbyte
      have hself : encoded [Char.ofUInt8 byte] = [byte] := by
        rw [encoded_cons, utf8EncodeChar_of_lt hchar]
        exact congrArg (· :: []) UInt8.ofNat_toNat
      rw [← List.singleton_append, ← hself]
      exact (isWhole_encoded _).append (isWhole_of_ascii hascii)

/-- **Characters at the start of a text are found again in it.** -/
theorem prefix_of_encoded_append
    {front chars : List Char} {more : List UInt8}
    (h : encoded front ++ more = encoded chars) :
    front <+: chars := by
  refine List.isPrefix_of_utf8Encode_append_eq_utf8Encode more.toByteArray ?_
  rw [List.utf8Encode, List.utf8Encode, ← List.toByteArray_append]
  exact congrArg List.toByteArray h

/-- A character with an ASCII byte has no other. -/
theorem utf8EncodeChar_of_mem
    {c : Char} {byte : UInt8}
    (hbyte : byte.toNat < 128)
    (h : byte ∈ String.utf8EncodeChar c) :
    String.utf8EncodeChar c = [byte] := by
  have hlt : c.toNat < 128 := by
    by_contra hbeyond
    have hle := forall_mem_utf8EncodeChar (Nat.not_lt.1 hbeyond) byte h
    omega
  rw [utf8EncodeChar_of_lt hlt] at h ⊢
  rw [List.mem_singleton.1 h]

theorem isWhole_append_ascii
    {ascii more : List UInt8}
    (hascii : ∀ byte ∈ ascii, byte.toNat < 128) :
    IsWhole (ascii ++ more) ↔ IsWhole more := by
  refine ⟨?_, (isWhole_of_ascii hascii).append⟩
  rintro ⟨chars, hchars⟩
  obtain ⟨_, back, -, hback⟩ := exists_of_encoded_eq_append hascii hchars
  exact ⟨back, hback⟩

/-- **An ASCII byte is no part of another character**: what stands before it and what
stands after it are texts each. -/
theorem isWhole_append_cons
    {byte : UInt8}
    (hbyte : byte.toNat < 128)
    {bytes more : List UInt8} :
    IsWhole (bytes ++ byte :: more) ↔ IsWhole bytes ∧ IsWhole more := by
  have hascii : ∀ b ∈ [byte], b.toNat < 128 := by simpa using hbyte
  have hcons : IsWhole (byte :: more) ↔ IsWhole more := isWhole_append_ascii hascii
  refine ⟨?_, fun h => h.1.append (hcons.2 h.2)⟩
  rintro ⟨chars, hchars⟩
  -- Character by character, until the byte is reached.
  induction chars generalizing bytes with
  | nil => simp at hchars
  | cons c chars ih =>
      rw [encoded_cons, List.append_eq_append_iff] at hchars
      obtain ⟨rest, rfl, hrest⟩ | ⟨rest, hc, hrest⟩ := hchars
      · obtain ⟨hbytes, hmore⟩ := ih hrest
        exact ⟨(isWhole_utf8EncodeChar c).append hbytes, hmore⟩
      · cases rest with
        | nil =>
            rw [List.append_nil] at hc
            rw [← hc]
            exact ⟨isWhole_utf8EncodeChar c, hcons.1 ⟨chars, hrest.symm⟩⟩
        | cons first rest =>
            obtain ⟨rfl, rfl⟩ := List.cons_eq_cons.1 hrest
            have hmem : byte ∈ String.utf8EncodeChar c := by simp [hc]
            rw [utf8EncodeChar_of_mem hbyte hmem] at hc
            obtain ⟨rfl, hend⟩ | ⟨-, hend⟩ := List.append_eq_singleton_iff.1 hc.symm
            · rw [(List.cons_eq_cons.1 hend).2]
              exact ⟨isWhole_encoded [], chars, rfl⟩
            · cases hend

/-- **The bytes that are read as a text are those of whole characters.** -/
theorem isSome_ofUtf8?_iff
    {bytes : List UInt8} :
    (ofUtf8? bytes).isSome = true ↔ IsWhole bytes := by
  constructor
  · intro h
    rw [ofUtf8?, String.fromUTF8?] at h
    split_ifs at h with hvalid
    · obtain ⟨chars, hchars⟩ := hvalid
      have hdata := congrArg (fun array => array.data.toList) hchars
      refine ⟨chars, ?_⟩
      simpa [List.utf8Encode, encoded] using hdata.symm
    · cases h
  · rintro ⟨chars, rfl⟩
    rw [← utf8_ofList, ofUtf8?_utf8]
    rfl

/-! ## Cuts -/

theorem isWhole_or_splitsCharacter
    (chars : List Char)
    (size : Nat) :
    IsWhole ((encoded chars).take size) ∨ SplitsCharacter chars size := by
  induction chars generalizing size with
  | nil => exact .inl ⟨[], List.take_nil.symm⟩
  | cons c chars ih =>
      by_cases hinside : size < (String.utf8EncodeChar c).length
      · by_cases hzero : size = 0
        · exact .inl ⟨[], by rw [hzero, List.take_zero, encoded_nil]⟩
        · refine .inr ⟨[], c, chars, rfl, ?_, ?_⟩ <;>
            simp only [encoded_nil, List.length_nil] <;> omega
      · obtain hwhole | ⟨front, d, back, rfl, hlt, hgt⟩ :=
          ih (size - (String.utf8EncodeChar c).length)
        · refine .inl ?_
          rw [encoded_cons, List.take_append, List.take_of_length_le (Nat.not_lt.1 hinside)]
          exact (isWhole_utf8EncodeChar c).append hwhole
        · refine .inr ⟨c :: front, d, back, rfl, ?_, ?_⟩ <;>
            rw [encoded_cons, List.length_append] <;> omega

/-- What is read before a cut begins the text. -/
theorem prefix_of_encoded_eq_take
    {shown chars : List Char} {size : Nat}
    (h : encoded shown = (encoded chars).take size) :
    shown <+: chars := by
  have hall : encoded shown ++ (encoded chars).drop size = encoded chars := by
    rw [h, List.take_append_drop]
  exact prefix_of_encoded_append hall

/-- **The bytes before a cut are a text if and only if the cut does not go through a
character.** -/
theorem isWhole_take_encoded_iff
    (chars : List Char)
    (size : Nat) :
    IsWhole ((encoded chars).take size) ↔ ¬ SplitsCharacter chars size := by
  refine ⟨?_, (isWhole_or_splitsCharacter chars size).resolve_right⟩
  rintro ⟨shown, hshown⟩ ⟨front, c, back, rfl, hlt, hgt⟩
  -- The characters before the cut and the character it goes through both begin the text.
  have hbefore : shown <+: front ++ c :: back := prefix_of_encoded_eq_take hshown
  have hthrough : front ++ [c] <+: front ++ c :: back := ⟨back, by simp⟩
  have hlength := congrArg List.length hshown
  simp only [List.length_take, encoded_append, encoded_cons, List.length_append] at hlength
  obtain hle | ⟨more, rfl⟩ := List.prefix_or_prefix_of_prefix hbefore hthrough
  · obtain rfl | ⟨more, rfl⟩ := List.prefix_concat_iff.1 hle
    · simp only [encoded_append, encoded_cons, encoded_nil, List.length_append,
        List.length_nil] at hlength
      omega
    · simp only [encoded_append, List.length_append] at hlt hgt hlength
      omega
  · simp only [encoded_append, encoded_cons, encoded_nil, List.length_append,
      List.length_nil] at hlength
    omega

end Text

end PhaseFlow
