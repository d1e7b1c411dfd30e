import Mathlib.Logic.Function.Iterate
import Mathlib.Order.Monotone.Basic
import Mathlib.Tactic.IntervalCases
import Mathlib.Tactic.SplitIfs
import PhaseFlow.Time.Calendar

/-!
# Days follow each other by the rules of the Gregorian calendar

`Date.next` is the date of the next day by the lengths of the months and the rule for
leap years. The date of a day number is computed in another way, by divisions in an era
of 400 years that start in March. In such an era a day is a year and a day of this year
(`exists_yearDay`), from which the divisions get the year back (`yearOfEra_add`). So the
dates of two day numbers in a row are a date and the next one (`ofDays_succ`), and the
date of a day number is reached from the first of January 1970 day by day
(`ofDays_natCast`).

Dates come in order of year, month and day: `before_ofDays`.
-/

namespace PhaseFlow

namespace Date

/-! ## The rules -/

/-- Every fourth year is a leap year, of the full centuries every fourth one. -/
def isLeapYear (year : Int) : Bool :=
  year % 4 = 0 && (year % 100 ≠ 0 || year % 400 = 0)

def daysInMonth (year : Int) (month : Nat) : Nat :=
  if month = 2 then if isLeapYear year then 29 else 28
  else if month = 4 ∨ month = 6 ∨ month = 9 ∨ month = 11 then 30
  else 31

/-- The date of the next day. -/
def next (date : Date) : Date :=
  if date.day < daysInMonth date.year date.month then { date with day := date.day + 1 }
  else if date.month < 12 then ⟨date.year, date.month + 1, 1⟩
  else ⟨date.year + 1, 1, 1⟩

/-- The first of January 1970. -/
def epoch : Date :=
  ⟨1970, 1, 1⟩

/-! ## Years that start in March -/

/-- The days of a year that starts in March; its leap day is in the February after. -/
def yearLength (year : Int) : Nat :=
  if isLeapYear (year + 1) then 366 else 365

/-- The date of a day of a month, months being counted from March of a year. -/
def ofMonthDay (year : Int) (month day : Nat) : Date :=
  if month < 10 then ⟨year, month + 3, day⟩ else ⟨year + 1, month - 9, day⟩

/-- The date of a day of a year that starts in March. -/
def ofYearDay (year : Int) (dayOfYear : Nat) : Date :=
  let month := (5 * dayOfYear + 2) / 153
  ofMonthDay year month (dayOfYear - daysBeforeMonth month + 1)

theorem yearLength_le (year : Int) : yearLength year ≤ 366 := by
  unfold yearLength
  split <;> decide

theorem le_yearLength (year : Int) : 365 ≤ yearLength year := by
  unfold yearLength
  split <;> decide

/-- The rule for leap years repeats after an era. -/
theorem yearLength_era
    (era : Int)
    (year : Nat) :
    yearLength (era * 400 + year) = yearLength year := by
  have hleap : isLeapYear (era * 400 + year + 1) = isLeapYear (year + 1) := by
    unfold isLeapYear
    have hfour : (era * 400 + year + 1) % 4 = ((year : Int) + 1) % 4 := by omega
    have hcentury : (era * 400 + year + 1) % 100 = ((year : Int) + 1) % 100 := by omega
    have hera : (era * 400 + year + 1) % 400 = ((year : Int) + 1) % 400 := by omega
    rw [hfour, hcentury, hera]
  unfold yearLength
  rw [hleap]

theorem yearLength_eq
    (year : Nat)
    (h : year < 400) :
    yearLength year =
      365 + if (year % 4 = 3 ∧ year % 100 ≠ 99) ∨ year = 399 then 1 else 0 := by
  have hleap :
      isLeapYear (year + 1) = true ↔
        (year % 4 = 3 ∧ year % 100 ≠ 99) ∨ year = 399 := by
    simp only [isLeapYear, ne_eq, Bool.and_eq_true, decide_eq_true_eq, Bool.or_eq_true]
    omega
  unfold yearLength
  simp only [hleap]
  split <;> rfl

theorem daysBeforeYear_succ
    {year : Nat}
    (h : year + 1 < 400) :
    daysBeforeYear (year + 1) = daysBeforeYear year + yearLength year := by
  rw [yearLength_eq year (by omega)]
  unfold daysBeforeYear
  split <;> omega

theorem daysBeforeYear_last :
    daysBeforeYear 399 + yearLength (399 : Nat) = daysPerEra := by
  decide

/-- **Every day of an era is a day of one of its years.** -/
theorem exists_yearDay
    {dayOfEra : Nat}
    (h : dayOfEra < daysPerEra) :
    ∃ year < 400,
      ∃ dayOfYear < yearLength (year : Nat),
        dayOfEra = daysBeforeYear year + dayOfYear := by
  induction dayOfEra with
  | zero => exact ⟨0, by decide, 0, by decide, rfl⟩
  | succ dayOfEra ih =>
      obtain ⟨year, hyear, dayOfYear, hday, rfl⟩ := ih (by omega)
      by_cases hlast : dayOfYear + 1 < yearLength year
      · exact ⟨year, hyear, dayOfYear + 1, hlast, by omega⟩
      · by_cases hend : year + 1 < 400
        · refine ⟨year + 1, hend, 0, Nat.lt_of_lt_of_le (by decide) (le_yearLength _), ?_⟩
          rw [daysBeforeYear_succ hend]
          omega
        · obtain rfl : year = 399 := by omega
          have hera := daysBeforeYear_last
          omega

/-- A year of an era by its century, the block of four years in it, and the year of the
block. -/
theorem yearOfEra_block
    {century block year dayOfYear : Nat}
    (hcentury : century < 4)
    (hblock : block < 25)
    (hyear : year < 4)
    (hday : dayOfYear < 365 ∨ dayOfYear = 365 ∧ year = 3 ∧ (block < 24 ∨ century = 3)) :
    yearOfEra (36524 * century + 1461 * block + 365 * year + dayOfYear) =
      100 * century + 4 * block + year := by
  generalize heq : 36524 * century + 1461 * block + 365 * year + dayOfYear = day
  -- Each quotient is the number of leap days before, or one more at the end of the
  -- block or century.
  have hblocks : day / 1460 = 25 * century + block ∧
        24 * century + block + 365 * year + dayOfYear < 1460 ∨
      day / 1460 = 25 * century + block + 1 ∧
        1460 ≤ 24 * century + block + 365 * year + dayOfYear := by
    omega
  have hcenturies : day / 36524 = century ∧ 1461 * block + 365 * year + dayOfYear < 36524 ∨
      day / 36524 = century + 1 ∧ 36524 ≤ 1461 * block + 365 * year + dayOfYear := by
    omega
  have hera : day / 146096 = 0 ∧ day < 146096 ∨ day / 146096 = 1 ∧ day = 146096 := by omega
  unfold yearOfEra
  rw [Nat.div_eq_iff (by decide)]
  generalize day / 1460 = blocks at *
  generalize day / 36524 = centuries at *
  generalize day / 146096 = eras at *
  subst heq
  omega

theorem yearOfEra_add
    {year dayOfYear : Nat}
    (hyear : year < 400)
    (hday : dayOfYear < yearLength year) :
    yearOfEra (daysBeforeYear year + dayOfYear) = year := by
  rw [yearLength_eq year hyear] at hday
  have hblock :=
    @yearOfEra_block (year / 100) (year % 100 / 4) (year % 4) dayOfYear (by omega)
    (by omega) (by omega) (by split at hday <;> omega)
  have hdays : daysBeforeYear year =
      36524 * (year / 100) + 1461 * (year % 100 / 4) + 365 * (year % 4) := by
    unfold daysBeforeYear
    omega
  rw [hdays, hblock]
  omega

/-! ## One day after the other -/

/-- The date of a day of a year of an era. -/
theorem ofDays_eq
    (era : Int)
    {year dayOfYear : Nat}
    (hyear : year < 400)
    (hday : dayOfYear < yearLength year) :
    ofDays
      (era * daysPerEra + (daysBeforeYear year + dayOfYear : Nat) - epochOffset) =
      ofYearDay (era * 400 + year) dayOfYear := by
  have hinside : daysBeforeYear year + dayOfYear < daysPerEra := by
    rw [yearLength_eq year hyear] at hday
    unfold daysBeforeYear daysPerEra
    split at hday <;> omega
  generalize hdayOfEra : daysBeforeYear year + dayOfYear = dayOfEra at hinside
  have hera : (era * daysPerEra + (dayOfEra : Int)) / daysPerEra = era := by
    unfold daysPerEra at *
    omega
  have hrest : ((era * daysPerEra + (dayOfEra : Int)) % daysPerEra).toNat = dayOfEra := by
    unfold daysPerEra at *
    omega
  unfold ofDays ofYearDay ofMonthDay
  rw [Int.sub_add_cancel]
  dsimp only
  rw [hera, hrest, ← hdayOfEra, yearOfEra_add hyear hday, Nat.add_sub_cancel_left,
    Int.add_comm (year : Int)]

theorem exists_ofDays
    (days : Int) :
    ∃ era : Int,
      ∃ year < 400,
        ∃ dayOfYear < yearLength (year : Nat),
          days =
            era * daysPerEra + (daysBeforeYear year + dayOfYear : Nat) -
              epochOffset := by
  have hrest : ((days + epochOffset) % daysPerEra).toNat < daysPerEra := by
    unfold daysPerEra
    omega
  obtain ⟨year, hyear, dayOfYear, hday, heq⟩ := exists_yearDay hrest
  refine ⟨(days + epochOffset) / daysPerEra, year, hyear, dayOfYear, hday, ?_⟩
  rw [← heq]
  unfold daysPerEra
  omega

theorem day_ofMonthDay
    (year : Int)
    (month day : Nat) :
    (ofMonthDay year month day).day = day := by
  unfold ofMonthDay
  split <;> rfl

/-- The months from March to January have as many days as lie between their beginnings,
and February has the rest of the year. -/
theorem daysInMonth_ofMonthDay
    (year : Int)
    {month : Nat}
    (day : Nat)
    (h : month < 12) :
    daysInMonth (ofMonthDay year month day).year
      (ofMonthDay year month day).month =
      min (daysBeforeMonth (month + 1)) (yearLength year) -
        daysBeforeMonth month := by
  unfold daysInMonth ofMonthDay yearLength daysBeforeMonth
  interval_cases month <;> cases hleap : isLeapYear (year + 1) <;> simp [hleap]

theorem next_ofMonthDay_of_lt
    {year : Int} {month day : Nat}
    (hmonth : month < 12)
    (h :
        daysBeforeMonth month + day <
          min (daysBeforeMonth (month + 1)) (yearLength year)) :
    (ofMonthDay year month day).next = ofMonthDay year month (day + 1) := by
  have hinside : (ofMonthDay year month day).day <
      daysInMonth (ofMonthDay year month day).year (ofMonthDay year month day).month := by
    rw [daysInMonth_ofMonthDay year day hmonth, day_ofMonthDay]
    omega
  unfold next
  rw [if_pos hinside]
  unfold ofMonthDay
  split <;> rfl

/-- January follows on December in the middle of a year that starts in March, March on
February at its end. -/
theorem next_ofMonthDay_last
    {year : Int} {month day : Nat}
    (hmonth : month < 12)
    (h :
        daysBeforeMonth month + day =
          min (daysBeforeMonth (month + 1)) (yearLength year)) :
    (ofMonthDay year month day).next =
      if month < 11 then
        ofMonthDay year (month + 1) 1
      else ofMonthDay (year + 1) 0 1 := by
  have hlast : ¬ (ofMonthDay year month day).day <
      daysInMonth (ofMonthDay year month day).year (ofMonthDay year month day).month := by
    rw [daysInMonth_ofMonthDay year day hmonth, day_ofMonthDay]
    omega
  unfold next
  rw [if_neg hlast]
  unfold ofMonthDay
  interval_cases month <;> rfl

/-- A day of a year is a day of one of its months. -/
theorem exists_monthDay
    {year : Int} {dayOfYear : Nat}
    (h : dayOfYear < yearLength year) :
    ∃ month < 12,
      ∃ day,
        dayOfYear + 1 = daysBeforeMonth month + day ∧
        daysBeforeMonth month + day ≤
          min (daysBeforeMonth (month + 1)) (yearLength year) ∧
        ofYearDay year dayOfYear = ofMonthDay year month day := by
  have hle := yearLength_le year
  refine ⟨(5 * dayOfYear + 2) / 153, by omega,
    dayOfYear - daysBeforeMonth ((5 * dayOfYear + 2) / 153) + 1, ?_, ?_, rfl⟩ <;>
  · unfold daysBeforeMonth
    omega

theorem ofYearDay_of_monthDay
    {year : Int} {dayOfYear month day : Nat}
    (hday : 0 < day)
    (heq : dayOfYear + 1 = daysBeforeMonth month + day)
    (hle : daysBeforeMonth month + day ≤ daysBeforeMonth (month + 1)) :
    ofYearDay year dayOfYear = ofMonthDay year month day := by
  have hmonth : (5 * dayOfYear + 2) / 153 = month := by
    unfold daysBeforeMonth at *
    omega
  unfold ofYearDay
  dsimp only
  rw [hmonth]
  congr 1
  omega

/-- Inside of a year that starts in March. -/
theorem next_ofYearDay_of_lt
    {year : Int} {dayOfYear : Nat}
    (h : dayOfYear + 1 < yearLength year) :
    (ofYearDay year dayOfYear).next = ofYearDay year (dayOfYear + 1) := by
  obtain ⟨month, hmonth, day, heq, hle, hdate⟩ := exists_monthDay (Nat.lt_of_succ_lt h)
  rw [hdate]
  by_cases hlast : daysBeforeMonth month + day < daysBeforeMonth (month + 1)
  · rw [next_ofMonthDay_of_lt hmonth (by omega)]
    exact (ofYearDay_of_monthDay (Nat.succ_pos day) (by omega) (by omega)).symm
  · have hbegun : month < 11 := by
      have hend := yearLength_le year
      unfold daysBeforeMonth at *
      omega
    rw [next_ofMonthDay_last hmonth (by omega), if_pos hbegun]
    refine (ofYearDay_of_monthDay Nat.one_pos (by omega) ?_).symm
    unfold daysBeforeMonth
    omega

/-- At the end of a year that starts in March. -/
theorem next_ofYearDay_last
    {year : Int} {dayOfYear : Nat}
    (h : dayOfYear + 1 = yearLength year) :
    (ofYearDay year dayOfYear).next = ofYearDay (year + 1) 0 := by
  have hday : dayOfYear < yearLength year := h ▸ Nat.lt_succ_self dayOfYear
  obtain ⟨month, hmonth, day, heq, hle, hdate⟩ := exists_monthDay hday
  have hfebruary : ¬ month < 11 := by
    have hbegin := le_yearLength year
    unfold daysBeforeMonth at *
    omega
  rw [hdate, next_ofMonthDay_last hmonth (by omega), if_neg hfebruary]
  rfl

/-- The day behind a year is the first of the next one, in the same era or the next. -/
theorem ofDays_yearEnd
    (era : Int)
    {year : Nat}
    (hyear : year < 400) :
    ofDays (era * daysPerEra + (daysBeforeYear year + yearLength year : Nat) -
        epochOffset) =
      ofYearDay (era * 400 + year + 1) 0 := by
  by_cases hnext : year + 1 < 400
  · have hfirst : 0 < yearLength (year + 1 : Nat) :=
      Nat.lt_of_lt_of_le (by decide) (le_yearLength _)
    have hdate := ofDays_eq era hnext hfirst
    rw [Nat.add_zero, daysBeforeYear_succ hnext] at hdate
    rw [hdate, Nat.cast_succ, Int.add_assoc]
  · obtain rfl : year = 399 := by omega
    have hdays : era * daysPerEra + (daysPerEra : Nat) =
        (era + 1) * daysPerEra + (daysBeforeYear 0 + 0 : Nat) := by
      unfold daysPerEra
      simp [daysBeforeYear]
      omega
    rw [daysBeforeYear_last, hdays, @ofDays_eq (era + 1) 0 0 (by decide) (by decide)]
    congr 1
    omega

/-- **Day numbers in a row have dates in a row.** -/
theorem ofDays_succ (days : Int) : ofDays (days + 1) = (ofDays days).next := by
  obtain ⟨era, year, hyear, dayOfYear, hday, rfl⟩ := exists_ofDays days
  have hlength := yearLength_era era year
  have hdays : era * daysPerEra + (daysBeforeYear year + dayOfYear : Nat) - epochOffset + 1 =
      era * daysPerEra + (daysBeforeYear year + (dayOfYear + 1) : Nat) - epochOffset := by
    omega
  rw [hdays, ofDays_eq era hyear hday]
  by_cases hlast : dayOfYear + 1 < yearLength year
  · rw [ofDays_eq era hyear hlast, next_ofYearDay_of_lt (hlength ▸ hlast)]
  · have hend : dayOfYear + 1 = yearLength year := by omega
    rw [next_ofYearDay_last (hend.trans hlength.symm), hend, ofDays_yearEnd era hyear]

theorem ofDays_zero : ofDays 0 = epoch := by
  decide

/-- **The date of a day number is that many days after the first of January 1970.** -/
theorem ofDays_natCast (days : Nat) : ofDays days = next^[days] epoch := by
  induction days with
  | zero => exact ofDays_zero
  | succ days ih => rw [Nat.cast_succ, ofDays_succ, ih, Function.iterate_succ_apply']

/-! ## Dates that exist -/

/-- The month and the day exist. -/
structure Exists (date : Date) : Prop where
  month_pos : 0 < date.month
  month_le : date.month ≤ 12
  day_pos : 0 < date.day
  day_le : date.day ≤ daysInMonth date.year date.month

theorem daysInMonth_mem
    (year : Int)
    (month : Nat) :
    0 < daysInMonth year month ∧ daysInMonth year month ≤ 31 := by
  unfold daysInMonth
  split_ifs <;> decide

theorem Exists.next {date : Date} (h : date.Exists) : date.next.Exists := by
  unfold Date.next
  split_ifs with hday hmonth
  · exact ⟨h.month_pos, h.month_le, Nat.succ_pos _, hday⟩
  · exact ⟨Nat.succ_pos _, hmonth, Nat.one_pos, (daysInMonth_mem _ _).1⟩
  · exact ⟨Nat.one_pos, Nat.one_le_of_lt (by decide : 1 < 12), Nat.one_pos,
      (daysInMonth_mem _ _).1⟩

theorem exists_iterate (days : Nat) : (next^[days] epoch).Exists := by
  induction days with
  | zero => constructor <;> decide
  | succ days ih =>
      rw [Function.iterate_succ_apply']
      exact ih.next

/-! ## The order of dates -/

/-- In order of year, month and day. -/
def Before (date other : Date) : Prop :=
  date.year < other.year ∨ date.year = other.year ∧
    (date.month < other.month ∨ date.month = other.month ∧ date.day < other.day)

theorem Before.trans
    {date other last : Date}
    (h : date.Before other)
    (hlast : other.Before last) :
    date.Before last := by
  unfold Before at *
  omega

instance : IsTrans Date Before :=
  ⟨fun _ _ _ => Before.trans⟩

theorem before_next (date : Date) : date.Before date.next := by
  unfold Before next
  split_ifs <;> simp

/-- **Later days have later dates.** -/
theorem before_ofDays
    {days more : Int}
    (h : days < more) :
    (ofDays days).Before (ofDays more) := by
  refine Int.rel_of_forall_rel_succ_of_lt Before (fun days => ?_) h
  rw [ofDays_succ]
  exact before_next _

theorem before_iterate
    {days more : Nat}
    (h : days < more) :
    (next^[days] epoch).Before (next^[more] epoch) := by
  rw [← ofDays_natCast, ← ofDays_natCast]
  exact before_ofDays (Int.ofNat_lt.2 h)

end Date

end PhaseFlow
