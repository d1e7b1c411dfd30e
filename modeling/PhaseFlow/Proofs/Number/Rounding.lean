import Mathlib.Data.Nat.Log
import Mathlib.Tactic.Linarith
import Mathlib.Tactic.Ring
import PhaseFlow.Number.Shortest

/-!
# Which quotients round to a number

The interval of a number (`Binary64.interval`) holds the quotients that round to it:
`ofRatio_of_roundsTo`. Inside a binade this is the rounding of whole mantissas
(`roundHalfEven_eq`). Below a power of two the quotient lies in the binade below, and
its mantissa is carried into the next one.

Whatever the quotient, the number it rounds to is in normal form (`isNormal_ofRatio`,
`isNormal_ofDecimal`).
-/

namespace PhaseFlow

/-- A quotient within a half of a whole number is rounded to it; exactly a half away,
the whole number has to be even. -/
theorem roundHalfEven_eq
    {num den whole : Nat}
    (hden : 0 < den)
    (hlow : 2 * whole * den ≤ 2 * num + den)
    (hhigh : 2 * num ≤ (2 * whole + 1) * den)
    (hodd :
        whole % 2 = 1 →
        2 * whole * den < 2 * num + den ∧ 2 * num < (2 * whole + 1) * den) :
    roundHalfEven num den = whole := by
  have hsplit : den * (num / den) + num % den = num := Nat.div_add_mod num den
  have hrest : num % den < den := Nat.mod_lt num hden
  unfold roundHalfEven
  generalize num / den = below at hsplit ⊢
  generalize num % den = rest at hsplit hrest ⊢
  subst hsplit
  have hle : whole ≤ below + 1 := by
    by_contra hlt
    nlinarith
  have hge : below ≤ whole := by
    by_contra hlt
    nlinarith
  dsimp only
  obtain rfl | rfl : whole = below ∨ whole = below + 1 := by omega
  · have hhalf : 2 * rest ≤ den := by nlinarith
    have hstrict : whole % 2 = 1 → 2 * rest < den := by
      intro h
      have := (hodd h).2
      nlinarith
    split_ifs <;> omega
  · have hhalf : den ≤ 2 * rest := by nlinarith
    have hstrict : (below + 1) % 2 = 1 → den < 2 * rest := by
      intro h
      have := (hodd h).1
      nlinarith
    split_ifs <;> omega

/-- Rounding goes to one of the two whole numbers next to a quotient. -/
theorem roundHalfEven_mem
    (num den : Nat) :
    num / den ≤ roundHalfEven num den ∧ roundHalfEven num den ≤ num / den + 1 := by
  unfold roundHalfEven
  dsimp only
  split_ifs <;> omega

namespace Binary64

/-- A quotient lies in the interval of a number. -/
def RoundsTo (x : Binary64) (num den : Nat) : Prop :=
  if x.interval.closed = true then
    x.interval.low * den ≤ 4 * (num * stepsPerOne) ∧ 4 * (num * stepsPerOne) ≤
      x.interval.high * den
  else
    x.interval.low * den < 4 * (num * stepsPerOne) ∧ 4 * (num * stepsPerOne) <
      x.interval.high * den

theorem ofRatio_eq
    (negative : Bool)
    {num den shift : Nat} {found : Nat × Nat}
    (hshift : shiftFor (num * stepsPerOne / den) = shift)
    (hfound :
        carry (roundHalfEven (num * stepsPerOne) (den * Nat.pow 2 shift)) shift =
          found)
    (hrange : found.2 ≤ maxShift) :
    ofRatio negative num den = some ⟨negative, found.1, found.2⟩ := by
  unfold ofRatio
  dsimp only
  rw [hshift, hfound, if_pos hrange]

theorem shiftFor_eq
    {whole shift : Nat}
    (hlow : shift = 0 ∨ 2 ^ (52 + shift) ≤ whole)
    (hhigh : whole < 2 ^ (53 + shift)) :
    shiftFor whole = shift := by
  unfold shiftFor
  split_ifs with hzero
  · rcases hlow with h | h
    · omega
    · have := Nat.two_pow_pos (52 + shift)
      omega
  · have hlog : Nat.log2 whole < 53 + shift := (Nat.log2_lt hzero).2 hhigh
    rcases hlow with h | h
    · omega
    · have := (Nat.le_log2 hzero).2 h
      omega

/-- A quotient that lies in the interval of a number and, unless the number is
subnormal, not below its binade. -/
theorem ofRatio_of_inside
    {x : Binary64}
    (hx : x.IsNormal)
    {num den : Nat}
    (hden : 0 < den)
    (hbinade : x.shift = 0 ∨ 2 ^ 52 * 2 ^ x.shift * den ≤ num * stepsPerOne)
    (hlow :
        2 * x.mantissa * (den * 2 ^ x.shift) ≤
          2 * (num * stepsPerOne) + den * 2 ^ x.shift)
    (hhigh : 2 * (num * stepsPerOne) ≤ (2 * x.mantissa + 1) * (den * 2 ^ x.shift))
    (hodd :
        x.mantissa % 2 = 1 →
        2 * x.mantissa * (den * 2 ^ x.shift) <
          2 * (num * stepsPerOne) + den * 2 ^ x.shift ∧
        2 * (num * stepsPerOne) < (2 * x.mantissa + 1) * (den * 2 ^ x.shift)) :
    ofRatio x.negative num den = some x := by
  obtain ⟨hmantissa, hrange, -⟩ := hx
  have hfits : x.mantissa < 2 ^ 53 := hmantissa
  have hunit : 0 < den * 2 ^ x.shift := Nat.mul_pos hden (Nat.two_pow_pos x.shift)
  have hshift : shiftFor (num * stepsPerOne / den) = x.shift := by
    refine shiftFor_eq ?_ ?_
    · refine hbinade.imp id fun h => ?_
      rw [Nat.le_div_iff_mul_le hden, Nat.pow_add]
      exact h
    · rw [Nat.div_lt_iff_lt_mul hden, Nat.pow_add, Nat.mul_assoc, Nat.mul_comm _ den]
      have hfactor := Nat.mul_le_mul_right (den * 2 ^ x.shift)
        (show 2 * x.mantissa + 1 ≤ 2 * 2 ^ 53 - 1 by omega)
      have hbound := hhigh.trans hfactor
      generalize num * stepsPerOne = scaled at hbound ⊢
      omega
  have hrounded : roundHalfEven (num * stepsPerOne) (den * Nat.pow 2 x.shift) = x.mantissa :=
    roundHalfEven_eq hunit hlow hhigh hodd
  have hcarry : carry x.mantissa x.shift = (x.mantissa, x.shift) :=
    if_neg (Nat.ne_of_lt hmantissa)
  rw [ofRatio_eq x.negative hshift (by rw [hrounded, hcarry]) hrange]

/-- A quotient in the interval of a power of two, but below it. -/
theorem ofRatio_of_below
    {x : Binary64}
    (hrange : x.shift ≤ maxShift)
    {num den shift : Nat}
    (hden : 0 < den)
    (hmantissa : x.mantissa = Nat.pow 2 52)
    (hshift : x.shift = shift + 1)
    (hlow : (2 ^ 54 - 1) * (den * 2 ^ shift) ≤ 2 * (num * stepsPerOne))
    (hhigh : num * stepsPerOne < 2 ^ 53 * (den * 2 ^ shift)) :
    ofRatio x.negative num den = some x := by
  have hunit : 0 < den * 2 ^ shift := Nat.mul_pos hden (Nat.two_pow_pos shift)
  have hbits : shiftFor (num * stepsPerOne / den) = shift := by
    refine shiftFor_eq (Or.inr ?_) ?_
    · rw [Nat.le_div_iff_mul_le hden, Nat.pow_add, Nat.mul_assoc, Nat.mul_comm _ den]
      generalize num * stepsPerOne = scaled at hlow ⊢
      omega
    · rw [Nat.div_lt_iff_lt_mul hden, Nat.pow_add, Nat.mul_assoc, Nat.mul_comm _ den]
      exact hhigh
  have hrounded :
      roundHalfEven (num * stepsPerOne) (den * Nat.pow 2 shift) = Nat.pow 2 53 := by
    have hpower : Nat.pow 2 shift = 2 ^ shift := rfl
    rw [hpower]
    generalize num * stepsPerOne = scaled at hlow hhigh ⊢
    generalize den * 2 ^ shift = unit at hlow hhigh hunit ⊢
    refine roundHalfEven_eq hunit ?_ ?_ fun h => absurd h (by decide)
    · show 2 * 2 ^ 53 * unit ≤ _
      omega
    · show _ ≤ (2 * 2 ^ 53 + 1) * unit
      omega
  have hcarry : carry (Nat.pow 2 53) shift = (Nat.pow 2 52, shift + 1) := if_pos rfl
  rw [ofRatio_eq x.negative hbits (by rw [hrounded, hcarry])
    (by rw [← hshift]; exact hrange), ← hmantissa, ← hshift]

/-- How far the interval of a number reaches down, where `unit` is a quarter of twice
the spacing. -/
def reachBelow (x : Binary64) (unit : Nat) : Nat :=
  if x.mantissa = Nat.pow 2 52 ∧ 0 < x.shift then unit else 2 * unit

theorem interval_low
    (x : Binary64) :
    x.interval.low = 4 * x.mantissa * 2 ^ x.shift - x.reachBelow (2 ^ x.shift) :=
  rfl

theorem interval_high
    (x : Binary64) :
    x.interval.high = 4 * x.mantissa * 2 ^ x.shift + 2 * 2 ^ x.shift :=
  rfl

theorem reachBelow_mul
    (x : Binary64)
    (unit den : Nat) :
    x.reachBelow unit * den = x.reachBelow (den * unit) := by
  unfold reachBelow
  split_ifs <;> ring

theorem reachBelow_le
    (x : Binary64)
    (unit : Nat) :
    x.reachBelow unit ≤ 2 * unit := by
  unfold reachBelow
  split_ifs <;> omega

/-- What it means to lie in the interval of a number. -/
theorem RoundsTo.bounds
    {x : Binary64} {num den : Nat}
    (hpos : 0 < x.mantissa)
    (h : x.RoundsTo num den) :
    4 * (x.mantissa * (den * 2 ^ x.shift)) ≤
      4 * (num * stepsPerOne) + x.reachBelow (den * 2 ^ x.shift) ∧
    4 * (num * stepsPerOne) ≤
      4 * (x.mantissa * (den * 2 ^ x.shift)) + 2 * (den * 2 ^ x.shift) ∧
    (x.mantissa % 2 = 1 →
      4 * (x.mantissa * (den * 2 ^ x.shift)) <
        4 * (num * stepsPerOne) + x.reachBelow (den * 2 ^ x.shift) ∧
      4 * (num * stepsPerOne) <
        4 * (x.mantissa * (den * 2 ^ x.shift)) + 2 * (den * 2 ^ x.shift)) := by
  have hclosed : x.interval.closed = decide (x.mantissa % 2 = 0) := rfl
  have hhigh : x.interval.high * den =
      4 * (x.mantissa * (den * 2 ^ x.shift)) + 2 * (den * 2 ^ x.shift) := by
    rw [interval_high]
    ring
  have hvalue :
      4 * x.mantissa * 2 ^ x.shift * den =
        4 * (x.mantissa * (den * 2 ^ x.shift)) := by
    ring
  have hlow : x.interval.low * den =
      4 * (x.mantissa * (den * 2 ^ x.shift)) - x.reachBelow (den * 2 ^ x.shift) := by
    rw [interval_low, Nat.sub_mul, hvalue, reachBelow_mul]
  have hfits : den * 2 ^ x.shift ≤ x.mantissa * (den * 2 ^ x.shift) :=
    Nat.le_mul_of_pos_left _ hpos
  have hreach := x.reachBelow_le (den * 2 ^ x.shift)
  unfold RoundsTo at h
  rw [hclosed, hlow, hhigh] at h
  generalize num * stepsPerOne = scaled at h ⊢
  by_cases heven : x.mantissa % 2 = 0
  · simp only [heven, decide_true, if_true] at h
    exact ⟨by omega, h.2, fun hodd => by omega⟩
  · simp only [heven, decide_false, Bool.false_eq_true, if_false] at h
    exact ⟨by omega, by omega, fun _ => ⟨by omega, h.2⟩⟩

/-- **The quotients in the interval of a number round to it.** -/
theorem ofRatio_of_roundsTo
    {x : Binary64}
    (hx : x.IsNormal)
    (hpos : 0 < x.mantissa)
    {num den : Nat}
    (hden : 0 < den)
    (h : x.RoundsTo num den) :
    ofRatio x.negative num den = some x := by
  obtain ⟨hlow, hhigh, hodd⟩ := h.bounds hpos
  have hdouble :
      2 * x.mantissa * (den * 2 ^ x.shift) =
        2 * (x.mantissa * (den * 2 ^ x.shift)) := by
    ring
  have hreach := x.reachBelow_le (den * 2 ^ x.shift)
  by_cases hbinade : x.shift = 0 ∨ 2 ^ 52 * 2 ^ x.shift * den ≤ num * stepsPerOne
  · -- The bound below is half a spacing at most, so this is the rounding of mantissas.
    refine ofRatio_of_inside hx hden hbinade ?_ ?_ ?_
    · rw [hdouble]
      omega
    · rw [Nat.add_mul, hdouble]
      omega
    · intro h
      obtain ⟨hstrictLow, hstrictHigh⟩ := hodd h
      rw [Nat.add_mul, hdouble]
      omega
  · rw [not_or, Nat.not_le] at hbinade
    obtain ⟨hshift, hbelow⟩ := hbinade
    obtain ⟨shift, hsucc⟩ := Nat.exists_eq_succ_of_ne_zero hshift
    have hunit : den * 2 ^ x.shift = 2 * (den * 2 ^ shift) := by
      rw [hsucc, Nat.pow_succ]
      ring
    have hspan : 2 ^ 52 * 2 ^ x.shift * den = 2 ^ 52 * (den * 2 ^ x.shift) := by ring
    rw [hspan] at hbelow
    have hbit : Nat.pow 2 52 ≤ x.mantissa := hx.2.2.resolve_left hshift
    -- Only the interval of a power of two reaches into the binade below it.
    have hpower : x.mantissa = Nat.pow 2 52 := by
      by_contra hne
      have hfactor := Nat.mul_le_mul_right (den * 2 ^ x.shift)
        (show 2 ^ 52 + 1 ≤ x.mantissa from Nat.lt_of_le_of_ne hbit (Ne.symm hne))
      omega
    have hreachEq : x.reachBelow (den * 2 ^ x.shift) = den * 2 ^ x.shift :=
      if_pos ⟨hpower, Nat.pos_of_ne_zero hshift⟩
    have hmantissa : x.mantissa = 2 ^ 52 := hpower
    rw [hreachEq, hmantissa, hunit] at hlow
    rw [hunit] at hbelow
    refine ofRatio_of_below hx.2.1 hden hpower hsucc ?_ ?_
    · omega
    · omega

/-! ## What rounding answers -/

/-- The number of doublings brings a whole number down to 53 bits. -/
theorem lt_pow_shiftFor (whole : Nat) : whole < 2 ^ (53 + shiftFor whole) := by
  unfold shiftFor
  split_ifs with hzero
  · rw [hzero]
    exact Nat.two_pow_pos _
  · exact Nat.lt_of_lt_of_le Nat.lt_log2_self (Nat.pow_le_pow_right (by decide) (by omega))

/-- No doubling is wasted. -/
theorem pow_shiftFor_le
    {whole : Nat}
    (h : shiftFor whole ≠ 0) :
    2 ^ (52 + shiftFor whole) ≤ whole := by
  unfold shiftFor at h ⊢
  split_ifs at h ⊢ with hzero
  · omega
  · exact (Nat.pow_le_pow_right (by decide) (by omega)).trans (Nat.log2_self_le hzero)

/-- Carrying a mantissa of at most 53 bits gives a normal form. -/
theorem isNormal_carry
    (negative : Bool)
    {rounded shift : Nat}
    (hhigh : rounded ≤ Nat.pow 2 53)
    (hlow : shift = 0 ∨ Nat.pow 2 52 ≤ rounded)
    (hrange : (carry rounded shift).2 ≤ maxShift) :
    IsNormal ⟨negative, (carry rounded shift).1, (carry rounded shift).2⟩ := by
  unfold carry at *
  split
  · next heq =>
      rw [if_pos heq] at hrange
      exact ⟨show Nat.pow 2 52 < Nat.pow 2 53 by decide, hrange, .inr (Nat.le_refl _)⟩
  · next hne =>
      rw [if_neg hne] at hrange
      exact ⟨Nat.lt_of_le_of_ne hhigh hne, hrange, hlow⟩

/-- **What a quotient is rounded to is in normal form.** -/
theorem isNormal_ofRatio
    {negative : Bool} {num den : Nat} {x : Binary64}
    (h : ofRatio negative num den = some x) :
    x.IsNormal := by
  unfold ofRatio at h
  dsimp only at h
  split at h
  · next hrange =>
      cases h
      have hdiv :
          num * stepsPerOne /
            (den * Nat.pow 2 (shiftFor (num * stepsPerOne / den))) =
            num * stepsPerOne / den / 2 ^ shiftFor (num * stepsPerOne / den) :=
        (Nat.div_div_eq_div_mul _ _ _).symm
      obtain ⟨hlow, hhigh⟩ := roundHalfEven_mem (num * stepsPerOne)
        (den * Nat.pow 2 (shiftFor (num * stepsPerOne / den)))
      rw [hdiv] at hlow hhigh
      have hlt := lt_pow_shiftFor (num * stepsPerOne / den)
      have hle := @pow_shiftFor_le (num * stepsPerOne / den)
      generalize num * stepsPerOne / den = whole at *
      refine isNormal_carry negative ?_ ?_ hrange
      · have hbelow : whole / 2 ^ shiftFor whole < 2 ^ 53 := by
          rwa [Nat.div_lt_iff_lt_mul (Nat.two_pow_pos _), ← Nat.pow_add]
        exact hhigh.trans hbelow
      · by_cases hzero : shiftFor whole = 0
        · exact .inl hzero
        · refine .inr (Nat.le_trans ?_ hlow)
          rw [Nat.le_div_iff_mul_le (Nat.two_pow_pos _)]
          have hpow := hle hzero
          rwa [Nat.pow_add] at hpow
  · cases h

theorem isNormal_zero (negative : Bool) : IsNormal ⟨negative, 0, 0⟩ :=
  ⟨Nat.two_pow_pos 53, Nat.zero_le _, .inl rfl⟩

theorem isNormal_ofDecimal
    {negative : Bool} {digits : Nat} {exponent : Int} {x : Binary64}
    (h : ofDecimal negative digits exponent = some x) :
    x.IsNormal := by
  unfold ofDecimal at h
  dsimp only at h
  split_ifs at h
  · cases h
    exact isNormal_zero negative
  · cases h
    exact isNormal_zero negative
  · exact isNormal_ofRatio h
  · exact isNormal_ofRatio h

end Binary64

end PhaseFlow
