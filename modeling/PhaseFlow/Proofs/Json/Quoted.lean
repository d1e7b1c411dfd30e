import Mathlib.Tactic.SplitIfs
import PhaseFlow.Json.Reader
import PhaseFlow.Json.Writer

/-!
# Quoted texts

Escaping and reading go character by character: what `escapeChar` writes for a character
is read as that character (`readText_escapeChar`), so a quoted text is read as the text
(`readText_quoted`).
-/

namespace PhaseFlow

namespace Json

theorem hexValue?_hexDigit :
    ∀ n, n < 16 → hexValue? (Text.hexDigit n) = some n := by
  decide

/-- The four digits of an escaped control character are its code. -/
theorem hexQuad?_control
    {n : Nat}
    (h : n < 32) :
    hexQuad? '0' '0' (Text.hexDigit (n / 16)) (Text.hexDigit (n % 16)) = some n := by
  have hzero : hexValue? '0' = some 0 := by decide
  have hhigh := hexValue?_hexDigit (n / 16) (by omega)
  have hlow := hexValue?_hexDigit (n % 16) (by omega)
  simp only [hexQuad?, hzero, hhigh, hlow, Option.bind_eq_bind, Option.bind_some,
    Option.some.injEq]
  omega

/-- A character that stands for itself. -/
theorem readText_plain
    {c : Char}
    (rest : List Char)
    (hquote : c ≠ '"')
    (hslash : c ≠ '\\')
    (hcontrol : ¬ c.toNat < 32) :
    readText (c :: rest) = (readText rest).map fun p => (c :: p.1, p.2) := by
  rw [readText]
  · simp [hslash, hcontrol]
  · intro heq
    exact hquote heq
  · intro _ _ _ _ _ heq
    exact absurd heq hslash
  · intro _ _ heq
    exact absurd heq hslash

/-- A one-letter escape. -/
theorem readText_short
    {letter plain : Char}
    (rest : List Char)
    (hletter : letter ≠ 'u')
    (hplain : shortEscape? letter = some plain) :
    readText ('\\' :: letter :: rest) =
      (readText rest).map fun p => (plain :: p.1, p.2) := by
  rw [readText]
  · simp [hplain]
  · intro _ _ _ _ _ heq
    exact absurd heq hletter

/-- An escaped control character. -/
theorem readText_control
    {c : Char}
    (rest : List Char)
    (hcontrol : c.toNat < 32) :
    readText ('\\' :: 'u' :: '0' :: '0' :: Text.hexDigit (c.toNat / 16) ::
        Text.hexDigit (c.toNat % 16) :: rest) =
      (readText rest).map fun p => (c :: p.1, p.2) := by
  have hhigh : isHighSurrogate c.toNat = false := by
    simp [isHighSurrogate]
    omega
  have hlow : isLowSurrogate c.toNat = false := by
    simp [isLowSurrogate]
    omega
  rw [readText, hexQuad?_control hcontrol]
  simp [hhigh, hlow, Char.ofNat_toNat]

/-- **What is written for a character is read as that character.** -/
theorem readText_escapeChar
    (c : Char)
    (rest : List Char) :
    readText (escapeChar c ++ rest) =
      (readText rest).map fun p => (c :: p.1, p.2) := by
  unfold escapeChar
  split_ifs with hquote hslash hback hfeed hline hreturn htab hcontrol
  · exact readText_short rest (by decide) (by rw [hquote]; decide)
  · exact readText_short rest (by decide) (by rw [hslash]; decide)
  · exact readText_short rest (by decide) (by rw [hback]; decide)
  · exact readText_short rest (by decide) (by rw [hfeed]; decide)
  · exact readText_short rest (by decide) (by rw [hline]; decide)
  · exact readText_short rest (by decide) (by rw [hreturn]; decide)
  · exact readText_short rest (by decide) (by rw [htab]; decide)
  · exact readText_control rest hcontrol
  · exact readText_plain rest hquote hslash hcontrol

/-- **A quoted text is read as the text.** The opening quote has been taken off. -/
theorem readText_quoted
    (text rest : List Char) :
    readText (text.flatMap escapeChar ++ '"' :: rest) = some (text, rest) := by
  induction text with
  | nil => simp [readText]
  | cons c text ih =>
      rw [List.flatMap_cons, List.append_assoc, readText_escapeChar, ih]
      rfl

end Json

end PhaseFlow
