/-!
# Finite binary64 numbers

Every finite binary64 number is a whole number of smallest steps, a step being `2 ^
-1074`. A number is kept as a sign, a mantissa below `2 ^ 53` and a shift: its magnitude
is `mantissa * 2 ^ shift` steps. All arithmetic is exact arithmetic on natural numbers.

* `Binary64.ofRatio` rounds a quotient of natural numbers to the nearest number, ties to
  even.
* `Binary64.truncate` drops the fraction.
* `roundHalfEven` is the rounding they share.
-/

namespace PhaseFlow

/-- The quotient of two natural numbers rounded to the nearest whole number, a half
going to the even neighbour. -/
def roundHalfEven (num den : Nat) : Nat :=
  let below := num / den
  let rest := num % den
  if 2 * rest < den then below
  else if den < 2 * rest then below + 1
  else if below % 2 = 0 then below else below + 1

/-- A finite binary64 number: its sign, its significand as a whole number, and the
number of doublings of the smallest step. -/
structure Binary64 where
  negative : Bool
  mantissa : Nat
  shift : Nat
  deriving DecidableEq

namespace Binary64

/-- The number of steps in one. -/
def stepsPerOne : Nat :=
  Nat.pow 2 1074

/-- The largest shift of a finite number. -/
def maxShift : Nat :=
  2045

/-- Positive zero. -/
def zero : Binary64 :=
  ⟨false, 0, 0⟩

instance : Inhabited Binary64 :=
  ⟨zero⟩

/-- Normal form: the mantissa fits, the shift is in range, and it is zero unless the
leading bit is set. -/
def IsNormal (x : Binary64) : Prop :=
  x.mantissa < Nat.pow 2 53 ∧ x.shift ≤ maxShift ∧ (x.shift = 0 ∨ Nat.pow 2 52 ≤ x.mantissa)

/-- The magnitude in steps. -/
def steps (x : Binary64) : Nat :=
  x.mantissa * Nat.pow 2 x.shift

/-- Whether the value is below zero; negative zero is not. -/
def isBelowZero (x : Binary64) : Bool :=
  x.negative && x.mantissa ≠ 0

/-- A rounded mantissa and its shift; a mantissa that has grown to 54 bits is halved. -/
def carry (rounded shift : Nat) : Nat × Nat :=
  if rounded = Nat.pow 2 53 then (Nat.pow 2 52, shift + 1) else (rounded, shift)

/-- The number of doublings that leave a mantissa of 53 bits. -/
def shiftFor (whole : Nat) : Nat :=
  (if whole = 0 then 0 else Nat.log2 whole + 1) - 53

/-- The number nearest to `num / den`, ties to even; none when it is too large to be
finite. -/
def ofRatio (negative : Bool) (num den : Nat) : Option Binary64 :=
  let scaled := num * stepsPerOne
  let shift := shiftFor (scaled / den)
  let found := carry (roundHalfEven scaled (den * Nat.pow 2 shift)) shift
  if found.2 ≤ maxShift then some ⟨negative, found.1, found.2⟩ else none

/-- The number nearest to `digits * 10 ^ exponent`. The exponent is first compared with
the range of finite numbers, so that a huge one costs nothing. -/
def ofDecimal
    (negative : Bool)
    (digits : Nat)
    (exponent : Int) :
    Option Binary64 :=
  if digits = 0 then some ⟨negative, 0, 0⟩
  else
    let places : Int := (Nat.toDigits 10 digits).length
    if 310 < places + exponent then none
    else if places + exponent < -330 then some ⟨negative, 0, 0⟩
    else if 0 ≤ exponent then ofRatio negative (digits * Nat.pow 10 exponent.toNat) 1
    else ofRatio negative digits (Nat.pow 10 (-exponent).toNat)

/-- The number nearest to a natural number. -/
def ofNat (n : Nat) : Binary64 :=
  (ofRatio false n 1).getD zero

/-- The number nearest to an integer. -/
def ofInt (n : Int) : Binary64 :=
  (ofRatio (decide (n < 0)) n.natAbs 1).getD zero

/-- The whole number left when the fraction is dropped. -/
def truncate (x : Binary64) : Int :=
  let whole : Nat := x.steps / stepsPerOne
  if x.negative then -(whole : Int) else whole

@[simp] theorem truncate_zero : zero.truncate = 0 := by
  simp [truncate, zero, steps]

end Binary64

end PhaseFlow
