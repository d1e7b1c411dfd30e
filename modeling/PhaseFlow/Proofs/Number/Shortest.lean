import PhaseFlow.Proofs.Number.Rounding

/-!
# The shortest digits read back

`Binary64.shortest` looks for a member of the interval of a number on coarser and
coarser grids, and stops at seventeen digits. On that grid the spacing is less than the
width of half an interval (`onGrid_seventeen`), so the search succeeds, and what it
finds rounds to the number (`shortest_readsAs`).

A decimal number is a whole number and an exponent; `ReadsAs` says that it rounds to a
number, and `ofDecimal_of_readsAs` that the reader then finds this number.
-/

namespace PhaseFlow

namespace Binary64

/-! ## Decimal numbers in the interval -/

/-- The quotient `digits * 10 ^ exponent` lies in the interval of a number. -/
def ReadsAs (x : Binary64) (digits : Nat) (exponent : Int) : Prop :=
  x.RoundsTo (digits * 10 ^ exponent.toNat) (10 ^ (-exponent).toNat)

theorem RoundsTo.of_cross
    {x : Binary64} {num den num' den' : Nat}
    (hden : 0 < den)
    (hden' : 0 < den')
    (hcross : num * den' = num' * den)
    (h : x.RoundsTo num den) :
    x.RoundsTo num' den' := by
  have hscale : ∀ bound, (bound * den ≤ 4 * (num * stepsPerOne) ↔
        bound * den' ≤ 4 * (num' * stepsPerOne)) ∧
      (4 * (num * stepsPerOne) ≤ bound * den ↔ 4 * (num' * stepsPerOne) ≤ bound * den') := by
    intro bound
    have hleft : 4 * (num * stepsPerOne) * den' = 4 * (num' * stepsPerOne) * den := by
      calc 4 * (num * stepsPerOne) * den' = 4 * stepsPerOne * (num * den') := by ring
        _ = 4 * stepsPerOne * (num' * den) := by rw [hcross]
        _ = 4 * (num' * stepsPerOne) * den := by ring
    constructor
    · rw [← Nat.mul_le_mul_right_iff hden', hleft, Nat.mul_right_comm,
        Nat.mul_le_mul_right_iff hden]
    · rw [← Nat.mul_le_mul_right_iff hden', hleft, Nat.mul_right_comm bound,
        Nat.mul_le_mul_right_iff hden]
  unfold RoundsTo at h ⊢
  split_ifs at h ⊢
  · exact ⟨(hscale _).1.1 h.1, (hscale _).2.1 h.2⟩
  · rw [← Nat.not_le, ← Nat.not_le] at h ⊢
    exact ⟨fun hle => h.1 ((hscale _).2.2 hle), fun hle => h.2 ((hscale _).1.2 hle)⟩

theorem ten_pow_pos (n : Nat) : 0 < 10 ^ n :=
  Nat.pow_pos (by decide)

/-- Zeros at the end may be moved into the exponent. -/
theorem readsAs_mul_pow
    {x : Binary64} {digits zeros : Nat} {exponent : Int} :
    x.ReadsAs (digits * 10 ^ zeros) exponent ↔
      x.ReadsAs digits (exponent + zeros) := by
  have hexponents : zeros + exponent.toNat + (-(exponent + zeros)).toNat =
      (exponent + zeros).toNat + (-exponent).toNat := by omega
  have hcross :
      digits * 10 ^ zeros * 10 ^ exponent.toNat * 10 ^
        (-(exponent + zeros)).toNat =
        digits * 10 ^ (exponent + zeros).toNat * 10 ^ (-exponent).toNat := by
    rw [Nat.mul_assoc, Nat.mul_assoc, Nat.mul_assoc, ← Nat.pow_add, ← Nat.pow_add,
      ← Nat.pow_add, ← Nat.add_assoc, hexponents]
  constructor
  · exact RoundsTo.of_cross (ten_pow_pos _) (ten_pow_pos _) hcross
  · exact RoundsTo.of_cross (ten_pow_pos _) (ten_pow_pos _) hcross.symm

/-! ## Digit counts -/

theorem lt_pow_digitCount (n : Nat) : n < 10 ^ digitCount n :=
  (Nat.length_toDigits_le_iff (by decide) Nat.length_toDigits_pos).1 (Nat.le_refl _)

theorem digitCount_pos (n : Nat) : 0 < digitCount n :=
  Nat.length_toDigits_pos

theorem pow_digitCount_le
    {n : Nat}
    (h : 0 < n) :
    10 ^ (digitCount n - 1) ≤ n := by
  cases hcount : digitCount n - 1 with
  | zero =>
      rw [Nat.pow_zero]
      exact h
  | succ count =>
      have hnot : ¬ (Nat.toDigits 10 n).length ≤ count + 1 := by
        have : digitCount n = count + 2 := by omega
        unfold digitCount at this
        omega
      rw [Nat.length_toDigits_le_iff (by decide) (by omega)] at hnot
      omega

theorem digitCount_mul_ten
    {n : Nat}
    (h : 0 < n) :
    digitCount (n * 10) = digitCount n + 1 := by
  have hdiv : n * 10 / 10 = n := Nat.mul_div_cancel n (by decide)
  unfold digitCount
  rw [Nat.toDigits_of_base_le (by decide) (by omega), hdiv]
  simp

/-- What is dropped are zeros. -/
theorem dropTrailingZeros_spec :
    ∀ (fuel n : Nat),
      0 < n →
      ∃ zeros,
        n = dropTrailingZeros fuel n * 10 ^ zeros ∧
        digitCount n = digitCount (dropTrailingZeros fuel n) + zeros ∧
        0 < dropTrailingZeros fuel n
  | 0, n, h => ⟨0, by simp [dropTrailingZeros], rfl, h⟩
  | fuel + 1, n, h => by
      unfold dropTrailingZeros
      split_ifs with hzero
      · obtain ⟨zeros, hvalue, hcount, hpos⟩ :=
          dropTrailingZeros_spec fuel (n / 10) (by omega)
        have hten : n = n / 10 * 10 := by omega
        refine ⟨zeros + 1, ?_, ?_, hpos⟩
        · rw [Nat.pow_succ, ← Nat.mul_assoc, ← hvalue]
          exact hten
        · rw [hten, digitCount_mul_ten (by omega), ← hten, hcount, Nat.add_assoc]
      · exact ⟨0, by simp, rfl, h⟩

/-- The number is at least the power of ten below its point. -/
theorem pow_pointOf_le
    {num den : Nat}
    (hnum : 0 < num)
    (hden : 0 < den) :
    den * 10 ^ (pointOf num den - 1).toNat ≤
      num * 10 ^ (1 - pointOf num den).toNat := by
  unfold pointOf
  split_ifs with hle
  · have hquotient : 0 < num / den := Nat.div_pos hle hden
    have hpow := pow_digitCount_le hquotient
    have hpos := digitCount_pos (num / den)
    have hup :
        ((digitCount (num / den) : Int) - 1).toNat = digitCount (num / den) - 1 := by
      omega
    have hdown : (1 - (digitCount (num / den) : Int)).toNat = 0 := by omega
    rw [hup, hdown, Nat.pow_zero, Nat.mul_one]
    calc den * 10 ^ (digitCount (num / den) - 1) ≤ den * (num / den) :=
      Nat.mul_le_mul_left den hpow
      _ ≤ num := Nat.mul_div_le num den
  · have hlt := lt_pow_digitCount ((den - 1) / num)
    have hpos := digitCount_pos ((den - 1) / num)
    generalize digitCount ((den - 1) / num) = count at hlt hpos ⊢
    have hup : (-((count : Int) - 1) - 1).toNat = 0 := by omega
    have hdown : (1 - -((count : Int) - 1)).toNat = count := by omega
    rw [hup, hdown, Nat.pow_zero, Nat.mul_one]
    have hbound := (Nat.div_lt_iff_lt_mul hnum).1 hlt
    rw [Nat.mul_comm num]
    omega

/-! ## The search -/

/-- What the search finds on a grid is in the interval. -/
theorem holds_of_onGrid
    {range : Interval} {point : Int} {count found : Nat}
    (h : onGrid range point count = some found) :
    range.holds (4 * stepsPerOne * Nat.pow 10 (point - count).toNat)
      (Nat.pow 10 (count - point).toNat) found =
      true := by
  unfold onGrid at h
  generalize 4 * stepsPerOne * Nat.pow 10 (point - count).toNat = unit at h ⊢
  generalize Nat.pow 10 (count - point).toNat = factor at h ⊢
  dsimp only at h
  generalize range.value * factor / unit = below at h
  split at h
  · next hbelow habove => split_ifs at h <;> cases h <;> assumption
  · next hbelow _ =>
      cases h
      exact hbelow
  · next _ habove =>
      cases h
      exact habove
  · cases h

/-- A grid with a neighbour of the number in the interval is good enough. -/
theorem exists_onGrid
    {range : Interval} {point : Int} {count below : Nat}
    (hbelow :
        range.value * Nat.pow 10 (count - point).toNat /
          (4 * stepsPerOne * Nat.pow 10 (point - count).toNat) =
          below)
    (h :
        range.holds (4 * stepsPerOne * Nat.pow 10 (point - count).toNat)
          (Nat.pow 10 (count - point).toNat) below =
          true ∨
        range.holds (4 * stepsPerOne * Nat.pow 10 (point - count).toNat)
          (Nat.pow 10 (count - point).toNat) (below + 1) =
          true) :
    ∃ found, onGrid range point count = some found := by
  unfold onGrid
  generalize 4 * stepsPerOne * Nat.pow 10 (point - count).toNat = unit at hbelow h ⊢
  generalize Nat.pow 10 (count - point).toNat = factor at hbelow h ⊢
  dsimp only
  rw [hbelow]
  split
  · split_ifs <;> exact ⟨_, rfl⟩
  · exact ⟨_, rfl⟩
  · exact ⟨_, rfl⟩
  · next hno hnone =>
      rw [hno, hnone] at h
      simp at h

/-- The search stops on the first grid that meets the interval. -/
theorem shortestFrom_spec
    {range : Interval} {point : Int}
    (more : Nat) :
    ∀ count,
      (∃ found, onGrid range point (count + more) = some found) →
      ∃ last found : Nat,
        shortestFrom range point more count = ⟨found, point - last⟩ ∧
        onGrid range point last = some found := by
  induction more with
  | zero =>
      rintro count ⟨found, hfound⟩
      rw [Nat.add_zero] at hfound
      refine ⟨count, found, ?_, hfound⟩
      rw [shortestFrom, hfound, Option.getD_some]
  | succ more ih =>
      intro count h
      cases hgrid : onGrid range point count with
      | some found => exact ⟨count, found, by rw [shortestFrom, hgrid], hgrid⟩
      | none =>
          rw [shortestFrom, hgrid]
          refine ih (count + 1) ?_
          rwa [Nat.add_assoc, Nat.add_comm 1]

theorem holds_of_lt
    {range : Interval} {unit factor count : Nat}
    (hlow : range.low * factor < count * unit)
    (hhigh : count * unit < range.high * factor) :
    range.holds unit factor count = true := by
  unfold Interval.holds
  split_ifs
  · simp [hlow.le, hhigh.le]
  · simp [hlow, hhigh]

/-- On a grid whose spacing is less than twice the shorter half of the interval, one of
the two neighbours of the number is in the interval. -/
theorem holds_neighbour
    {range : Interval} {unit factor reach : Nat}
    (hunit : 0 < unit)
    (hwidth : unit < 2 * reach)
    (hlow : range.low * factor + reach = range.value * factor)
    (hhigh : range.value * factor + reach ≤ range.high * factor) :
    range.holds unit factor (range.value * factor / unit) = true ∨
    range.holds unit factor (range.value * factor / unit + 1) = true := by
  have hsplit : range.value * factor / unit * unit + range.value * factor % unit =
      range.value * factor := Nat.div_add_mod' _ unit
  have hrest : range.value * factor % unit < unit := Nat.mod_lt _ hunit
  have hnext : (range.value * factor / unit + 1) * unit =
      range.value * factor / unit * unit + unit := Nat.succ_mul _ unit
  by_cases hnear : range.value * factor % unit < reach
  · exact Or.inl (holds_of_lt (by omega) (by omega))
  · exact Or.inr (holds_of_lt (by omega) (by omega))

theorem readsAs_of_holds
    {x : Binary64} {point : Int} {count found : Nat}
    (h :
        x.interval.holds (4 * stepsPerOne * Nat.pow 10 (point - count).toNat)
          (Nat.pow 10 (count - point).toNat) found =
          true) :
    x.ReadsAs found (point - count) := by
  have hscaled : 4 * (found * 10 ^ (point - count).toNat * stepsPerOne) =
      found * (4 * stepsPerOne * Nat.pow 10 (point - count).toNat) := by
    rw [Nat.pow_eq]
    ring
  have hfactor : (-(point - count : Int)).toNat = (count - point).toNat := by omega
  unfold Interval.holds at h
  unfold ReadsAs RoundsTo
  rw [hscaled, hfactor]
  split_ifs at h ⊢ <;> simpa using h

/-- The spacing of the grid of seventeen digits is less than twice the shorter half of
the interval: `2 ^ 54` is less than twice `10 ^ 16`. -/
theorem unit_seventeen_lt
    {x : Binary64}
    (hx : x.IsNormal)
    (hpos : 0 < x.mantissa)
    {point : Int}
    (hpoint : stepsPerOne * 10 ^ (point - 1).toNat ≤ x.steps * 10 ^ (1 - point).toNat) :
    4 * stepsPerOne * 10 ^ (point - 17).toNat <
      2 * (x.reachBelow (2 ^ x.shift) * 10 ^ (17 - point).toNat) := by
  have hexponents : 16 + (point - 17).toNat + (1 - point).toNat =
      (point - 1).toNat + (17 - point).toNat := by omega
  have hgrid : 10 ^ 16 * (stepsPerOne * 10 ^ (point - 17).toNat) ≤
      x.steps * 10 ^ (17 - point).toNat := by
    refine Nat.le_of_mul_le_mul_right ?_ (ten_pow_pos (1 - point).toNat)
    calc 10 ^ 16 * (stepsPerOne * 10 ^ (point - 17).toNat) * 10 ^ (1 - point).toNat
        = stepsPerOne * 10 ^ (16 + (point - 17).toNat + (1 - point).toNat) := by
          rw [Nat.pow_add, Nat.pow_add]
          ring
      _ = stepsPerOne * 10 ^ (point - 1).toNat * 10 ^ (17 - point).toNat := by
          rw [hexponents, Nat.pow_add, Nat.mul_assoc]
      _ ≤ x.steps * 10 ^ (1 - point).toNat * 10 ^ (17 - point).toNat :=
          Nat.mul_le_mul_right _ hpoint
      _ = x.steps * 10 ^ (17 - point).toNat * 10 ^ (1 - point).toNat :=
        Nat.mul_right_comm _ _ _
  have hsteps : x.steps * 10 ^ (17 - point).toNat =
      x.mantissa * (2 ^ x.shift * 10 ^ (17 - point).toNat) := Nat.mul_assoc _ _ _
  have hspacing : 0 < 2 ^ x.shift * 10 ^ (17 - point).toNat :=
    Nat.mul_pos (Nat.two_pow_pos _) (ten_pow_pos _)
  have hmantissa : x.mantissa < 2 ^ 53 := hx.1
  rw [hsteps] at hgrid
  rw [Nat.mul_assoc 4]
  unfold reachBelow
  generalize stepsPerOne * 10 ^ (point - 17).toNat = grid at hgrid ⊢
  split_ifs with hpower
  · have hbit : x.mantissa = 2 ^ 52 := hpower.1
    rw [hbit] at hgrid
    omega
  · have hfactor := Nat.mul_le_mul_right (2 ^ x.shift * 10 ^ (17 - point).toNat)
      (show x.mantissa ≤ 2 ^ 53 - 1 by omega)
    rw [Nat.mul_assoc 2]
    omega

theorem stepsPerOne_pos : 0 < stepsPerOne := by
  decide +kernel

/-- **With seventeen digits the search succeeds.** -/
theorem onGrid_seventeen
    {x : Binary64}
    (hx : x.IsNormal)
    (hpos : 0 < x.mantissa) :
    ∃ found, onGrid x.interval (pointOf x.steps stepsPerOne) 17 = some found := by
  have hsteps : 0 < x.steps := Nat.mul_pos hpos (Nat.two_pow_pos _)
  have hwidth := unit_seventeen_lt hx hpos (pow_pointOf_le hsteps stepsPerOne_pos)
  generalize pointOf x.steps stepsPerOne = point at hwidth ⊢
  have hreach := x.reachBelow_le (2 ^ x.shift)
  have hvalue : x.interval.value = 4 * x.mantissa * 2 ^ x.shift := rfl
  have hfits : 2 * 2 ^ x.shift ≤ 4 * x.mantissa * 2 ^ x.shift :=
    Nat.mul_le_mul_right _ (by omega)
  refine exists_onGrid rfl (holds_neighbour ?_ hwidth ?_ ?_)
  · exact Nat.mul_pos (Nat.mul_pos (by decide) stepsPerOne_pos) (ten_pow_pos _)
  · rw [interval_low, hvalue, Nat.pow_eq]
    exact (Nat.add_mul _ _ _).symm.trans (by rw [Nat.sub_add_cancel (hreach.trans hfits)])
  · rw [interval_high, hvalue, Nat.pow_eq]
    exact (Nat.add_mul _ _ _).symm.trans_le
      (Nat.mul_le_mul_right _ (Nat.add_le_add_left hreach _))

/-- A member of the interval is not zero. -/
theorem ReadsAs.pos
    {x : Binary64} {digits : Nat} {exponent : Int}
    (hpos : 0 < x.mantissa)
    (h : x.ReadsAs digits exponent) :
    0 < digits := by
  have hunit : 0 < 10 ^ (-exponent).toNat * 2 ^ x.shift :=
    Nat.mul_pos (ten_pow_pos _) (Nat.two_pow_pos _)
  have hreach := x.reachBelow_le (10 ^ (-exponent).toNat * 2 ^ x.shift)
  have hfits := Nat.le_mul_of_pos_left (10 ^ (-exponent).toNat * 2 ^ x.shift) hpos
  have hlow := (RoundsTo.bounds hpos h).1
  rcases Nat.eq_zero_or_pos digits with rfl | hdigits
  · rw [Nat.zero_mul, Nat.zero_mul] at hlow
    omega
  · exact hdigits

/-- **The shortest digits of a number lie in its interval.** -/
theorem shortest_readsAs
    {x : Binary64}
    (hx : x.IsNormal)
    (hpos : 0 < x.mantissa) :
    x.ReadsAs x.shortest.digits
      (x.shortest.point - digitCount x.shortest.digits) := by
  obtain ⟨last, found, hsearch, hgrid⟩ :=
    shortestFrom_spec 16 1 (onGrid_seventeen hx hpos)
  have hreads := readsAs_of_holds (holds_of_onGrid hgrid)
  obtain ⟨zeros, hvalue, hcount, -⟩ := dropTrailingZeros_spec 20 found (hreads.pos hpos)
  have hshortest : x.shortest = ⟨dropTrailingZeros 20 found,
      pointOf x.steps stepsPerOne - last + digitCount found⟩ := by
    unfold shortest
    dsimp only
    rw [hsearch]
  rw [hvalue, readsAs_mul_pow] at hreads
  rw [hshortest, hcount]
  generalize pointOf x.steps stepsPerOne = point at hreads ⊢
  generalize dropTrailingZeros 20 found = digits at hreads ⊢
  have hexponent : point - last + (digitCount digits + zeros : Nat) - digitCount digits =
      point - last + zeros := by
    push_cast
    ring
  rw [hexponent]
  exact hreads

/-! ## Reading a decimal number -/

theorem largest_lt_range :
    2 ^ 55 * 2 ^ maxShift < 4 * (10 ^ 310 * stepsPerOne) := by
  decide +kernel

theorem range_lt_smallest : 2 * stepsPerOne < 10 ^ 331 := by
  decide +kernel

/-- Members of the interval are below the range in which the reader finds infinity. -/
theorem ReadsAs.places_le
    {x : Binary64}
    (hx : x.IsNormal)
    {digits : Nat} {exponent : Int}
    (hpos : 0 < x.mantissa)
    (h : x.ReadsAs digits exponent) :
    (digitCount digits : Int) + exponent ≤ 310 := by
  by_contra hlarge
  have hpow := pow_digitCount_le (h.pos hpos)
  have hhigh := (RoundsTo.bounds hpos h).2.1
  have hmantissa : x.mantissa < 2 ^ 53 := hx.1
  have hshift : 2 ^ x.shift ≤ 2 ^ maxShift := Nat.pow_le_pow_right (by decide) hx.2.1
  have hexponents :
      310 + (-exponent).toNat ≤ digitCount digits - 1 + exponent.toNat := by
    omega
  have hlower : 10 ^ 310 * 10 ^ (-exponent).toNat ≤ digits * 10 ^ exponent.toNat := by
    calc 10 ^ 310 * 10 ^ (-exponent).toNat
        ≤ 10 ^ (digitCount digits - 1) * 10 ^ exponent.toNat := by
          rw [← Nat.pow_add, ← Nat.pow_add]
          exact Nat.pow_le_pow_right (by decide) hexponents
      _ ≤ digits * 10 ^ exponent.toNat := Nat.mul_le_mul_right _ hpow
  have hupper : 4 * (digits * 10 ^ exponent.toNat * stepsPerOne) ≤
      2 ^ 55 * (10 ^ (-exponent).toNat * 2 ^ x.shift) := by
    have hfactor := Nat.mul_le_mul_right (10 ^ (-exponent).toNat * 2 ^ x.shift)
      (show x.mantissa ≤ 2 ^ 53 - 1 by omega)
    generalize 10 ^ (-exponent).toNat * 2 ^ x.shift = unit at hfactor hhigh ⊢
    generalize digits * 10 ^ exponent.toNat * stepsPerOne = scaled at hhigh ⊢
    omega
  refine Nat.not_le_of_lt largest_lt_range
    (Nat.le_of_mul_le_mul_right ?_ (ten_pow_pos (-exponent).toNat))
  calc 4 * (10 ^ 310 * stepsPerOne) * 10 ^ (-exponent).toNat
      = 4 * (10 ^ 310 * 10 ^ (-exponent).toNat * stepsPerOne) := by
        rw [Nat.mul_assoc 4, Nat.mul_right_comm]
    _ ≤ 4 * (digits * 10 ^ exponent.toNat * stepsPerOne) :=
        Nat.mul_le_mul_left _ (Nat.mul_le_mul_right _ hlower)
    _ ≤ 2 ^ 55 * (10 ^ (-exponent).toNat * 2 ^ x.shift) := hupper
    _ ≤ 2 ^ 55 * (10 ^ (-exponent).toNat * 2 ^ maxShift) :=
        Nat.mul_le_mul_left _ (Nat.mul_le_mul_left _ hshift)
    _ = 2 ^ 55 * 2 ^ maxShift * 10 ^ (-exponent).toNat := by
        rw [Nat.mul_comm (10 ^ _), Nat.mul_assoc]

/-- Members of the interval are above the range in which the reader finds zero. -/
theorem ReadsAs.le_places
    {x : Binary64} {digits : Nat} {exponent : Int}
    (hpos : 0 < x.mantissa)
    (h : x.ReadsAs digits exponent) :
    -330 ≤ (digitCount digits : Int) + exponent := by
  by_contra hsmall
  have hcount := lt_pow_digitCount digits
  have hlow := (RoundsTo.bounds hpos h).1
  have hexponent : exponent.toNat = 0 := by omega
  have hexponents : digitCount digits + 331 ≤ (-exponent).toNat := by omega
  have hlower : 10 ^ (-exponent).toNat ≤ 2 * (digits * stepsPerOne) := by
    have hreach := x.reachBelow_le (10 ^ (-exponent).toNat * 2 ^ x.shift)
    have hunit : 10 ^ (-exponent).toNat ≤ 10 ^ (-exponent).toNat * 2 ^ x.shift :=
      Nat.le_mul_of_pos_right _ (Nat.two_pow_pos _)
    have hfits := Nat.le_mul_of_pos_left (10 ^ (-exponent).toNat * 2 ^ x.shift) hpos
    rw [hexponent, Nat.pow_zero, Nat.mul_one] at hlow
    omega
  refine Nat.not_le_of_lt range_lt_smallest
    (Nat.le_of_mul_le_mul_right ?_ (ten_pow_pos (digitCount digits)))
  calc 10 ^ 331 * 10 ^ digitCount digits
      = 10 ^ (digitCount digits + 331) := by rw [← Nat.pow_add, Nat.add_comm]
    _ ≤ 10 ^ (-exponent).toNat := Nat.pow_le_pow_right (by decide) hexponents
    _ ≤ 2 * (digits * stepsPerOne) := hlower
    _ ≤ 2 * (10 ^ digitCount digits * stepsPerOne) :=
        Nat.mul_le_mul_left _ (Nat.mul_le_mul_right _ hcount.le)
    _ = 2 * stepsPerOne * 10 ^ digitCount digits := by
        rw [Nat.mul_comm (10 ^ _), Nat.mul_assoc]

/-- **A decimal number in the interval of a number is read as this number.** -/
theorem ofDecimal_of_readsAs
    {x : Binary64}
    (hx : x.IsNormal)
    (hpos : 0 < x.mantissa)
    {digits : Nat} {exponent : Int}
    (h : x.ReadsAs digits exponent) :
    ofDecimal x.negative digits exponent = some x := by
  have hdigits : digits ≠ 0 := (h.pos hpos).ne'
  have hhigh : ¬ 310 < (digitCount digits : Int) + exponent := not_lt.2 (h.places_le hx hpos)
  have hlow : ¬ (digitCount digits : Int) + exponent < -330 := not_lt.2 (h.le_places hpos)
  have hratio := ofRatio_of_roundsTo hx hpos (ten_pow_pos _) h
  unfold ofDecimal
  rw [if_neg hdigits]
  unfold digitCount at hhigh hlow
  dsimp only
  rw [if_neg hhigh, if_neg hlow]
  split_ifs with hsign
  · have hden : (-exponent).toNat = 0 := by omega
    rw [hden] at hratio
    exact hratio
  · have hnum : exponent.toNat = 0 := by omega
    rw [hnum, Nat.pow_zero, Nat.mul_one] at hratio
    exact hratio

end Binary64

end PhaseFlow
