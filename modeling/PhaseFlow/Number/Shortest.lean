import PhaseFlow.Number.Binary64

/-!
# Decimal digits of binary64 numbers

Two ways to write the magnitude of a binary64 number in decimal.

* `Binary64.shortest` chooses the fewest digits that read back as the same number. The
  reals that round to a number form an interval around it, whose ends belong to it
  exactly when the mantissa is even. On the grid of numbers with a given digit count
  only the two neighbours of the number can lie in the interval, so each digit count is
  settled by two comparisons.
* `Binary64.fixed` writes a fixed number of places, the exact value being rounded to the
  nearest and a half going to the even neighbour.
-/

namespace PhaseFlow

namespace Binary64

/-- A positive decimal number `0.digits * 10 ^ point`, its digits as one whole
number. -/
structure Digits where
  digits : Nat
  point : Int
  deriving DecidableEq

/-- The number of decimal digits of a whole number; zero has one. -/
def digitCount (n : Nat) : Nat :=
  (Nat.toDigits 10 n).length

/-- The least exponent `p` with `num / den < 10 ^ p`, for a positive quotient. -/
def pointOf (num den : Nat) : Int :=
  if den ≤ num then (digitCount (num / den) : Int)
  else -((digitCount ((den - 1) / num) : Int) - 1)

/-- The reals that round to a number: bounds in quarter steps, and whether the ends
round to it too. -/
structure Interval where
  low : Nat
  value : Nat
  high : Nat
  closed : Bool

/-- The interval of a positive number. Below a power of two the spacing halves. -/
def interval (x : Binary64) : Interval :=
  let unit := Nat.pow 2 x.shift
  let value := 4 * x.mantissa * unit
  let below := if x.mantissa = Nat.pow 2 52 ∧ 0 < x.shift then unit else 2 * unit
  ⟨value - below, value, value + 2 * unit, x.mantissa % 2 = 0⟩

/-- Whether `count` units are in the interval, which is stretched by a factor. -/
def Interval.holds (range : Interval) (unit factor count : Nat) : Bool :=
  if range.closed then
    decide (range.low * factor ≤ count * unit) && decide (count * unit ≤ range.high * factor)
  else decide (range.low * factor < count * unit) && decide
    (count * unit < range.high * factor)

/-- The nearest member of the interval on the grid of `count`-digit numbers, if there is
one. -/
def onGrid (range : Interval) (point : Int) (count : Nat) : Option Nat :=
  let unit := 4 * stepsPerOne * Nat.pow 10 (point - count).toNat
  let factor := Nat.pow 10 (count - point).toNat
  let below := range.value * factor / unit
  let above := below + 1
  match range.holds unit factor below, range.holds unit factor above with
  | true, true =>
      let down := range.value * factor - below * unit
      let up := above * unit - range.value * factor
      if down < up then some below
      else if up < down then some above
      else if below % 2 = 0 then some below else some above
  | true, false => some below
  | false, true => some above
  | false, false => none

/-- The first digit count from `count` on whose grid meets the interval. -/
def shortestFrom (range : Interval) (point : Int) : Nat → Nat → Digits
  | 0, count => ⟨(onGrid range point count).getD 0, point - count⟩
  | more + 1, count =>
      match onGrid range point count with
      | some k => ⟨k, point - count⟩
      | none => shortestFrom range point more (count + 1)

/-- The digits without their trailing zeros. -/
def dropTrailingZeros : Nat → Nat → Nat
  | 0, n => n
  | fuel + 1, n => if n ≠ 0 ∧ n % 10 = 0 then dropTrailingZeros fuel (n / 10) else n

/-- **The fewest digits that read back as the number**, for a number that is not
zero. -/
def shortest (x : Binary64) : Digits :=
  let point := pointOf x.steps stepsPerOne
  let found := shortestFrom x.interval point 16 1
  let places : Int := digitCount found.digits
  ⟨dropTrailingZeros 20 found.digits, found.point + places⟩

/-- The number with a fixed number of places after the point. -/
def fixed (x : Binary64) (places : Nat) : String :=
  let scaled := roundHalfEven (x.steps * Nat.pow 10 places) stepsPerOne
  let whole := Nat.repr (scaled / Nat.pow 10 places)
  let fraction := (Nat.toDigits 10 (scaled % Nat.pow 10 places))
  let padding := List.replicate (places - fraction.length) '0'
  (if x.negative then "-" else "") ++ whole ++ "." ++ String.ofList (padding ++ fraction)

end Binary64

end PhaseFlow
