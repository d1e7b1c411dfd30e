import PhaseFlow.Proofs.Text.Columns
import PhaseFlow.Proofs.Time.Calendar
import PhaseFlow.Time.Instant

/-!
# Timestamps sort by time

The timestamp of a moment is a row of seven numbers in columns of fixed widths, from the
year to the millisecond (`toList_timestamp`), so timestamps are ordered like these
numbers. Of two moments, the later one has a later date, by the rules of the calendar,
or a later time on the same date (`diverges_fields`).

This is about the moments from 1970 on that a whole number of milliseconds is counted to
within the word of the clock, about 292 years.

Main statement: `timestamps_sort_by_time`.
-/

namespace PhaseFlow

namespace Instant

/-- The last millisecond that the clock counts to. -/
def lastMillisecond : Nat :=
  9223372036854

/-- Year, month, day, hour, minute, second and millisecond. -/
def fields (milliseconds : Nat) : List Nat :=
  let date := Date.next^[milliseconds / 86400000] Date.epoch
  [date.year.toNat, date.month, date.day, milliseconds / 3600000 % 24,
    milliseconds / 60000 % 60, milliseconds / 1000 % 60, milliseconds % 1000]

/-- The columns of a timestamp, with what stands behind each. -/
def columns : List (Nat × List Char) :=
  [(4, ['-']), (2, ['-']), (2, [' ']), (2, [':']), (2, [':']), (2, ['.']), (3, [])]

variable {earlier later : Nat}

/-! ## The fields -/

theorem epoch_year_le
    (days : Nat) :
    1970 ≤ (Date.next^[days] Date.epoch).year := by
  rcases Nat.eq_zero_or_pos days with rfl | hpos
  · decide
  · have hbefore := Date.before_iterate hpos
    have hepoch : (Date.next^[0] Date.epoch).year = 1970 := rfl
    unfold Date.Before at hbefore
    omega

/-- The clock runs until April 2262. -/
theorem year_le
    {milliseconds : Nat}
    (h : milliseconds ≤ lastMillisecond) :
    (Date.next^[milliseconds / 86400000] Date.epoch).year ≤ 2262 := by
  have hlast : milliseconds / 86400000 ≤ 106751 := by
    unfold lastMillisecond at h
    omega
  have hend : Date.next^[106751] Date.epoch = ⟨2262, 4, 11⟩ := by
    rw [← Date.ofDays_natCast]
    decide
  rcases hlast.lt_or_eq with hlt | heq
  · have hbefore := Date.before_iterate hlt
    rw [hend] at hbefore
    unfold Date.Before at hbefore
    dsimp only at hbefore
    omega
  · rw [heq, hend]

theorem fits_fields
    {milliseconds : Nat}
    (h : milliseconds ≤ lastMillisecond) :
    Text.Fits columns (fields milliseconds) := by
  have hyear := year_le h
  have hdate := Date.exists_iterate (milliseconds / 86400000)
  have hday := hdate.day_le.trans (Date.daysInMonth_mem _ _).2
  have hmonth := hdate.month_le
  unfold Text.Fits columns fields
  generalize Date.next^[milliseconds / 86400000] Date.epoch = date at *
  simp only [List.forall₂_cons, List.Forall₂.nil, and_true]
  omega

theorem diverges_date
    {date other : Date}
    (h : date.Before other)
    (hyear : 0 ≤ date.year)
    (rest rest' : List Nat) :
    Diverges (date.year.toNat :: date.month :: date.day :: rest)
      (other.year.toNat :: other.month :: other.day :: rest') := by
  unfold Date.Before at h
  refine Diverges.of_le (by omega) fun hsame => Diverges.of_le (by omega) fun hmonth => ?_
  exact Diverges.head (by omega) rest rest'

/-- **Of two moments, the fields differ first where the later one has more.** -/
theorem diverges_fields
    (h : earlier < later) :
    Diverges (fields earlier) (fields later) := by
  unfold fields
  dsimp only
  have hdays : earlier / 86400000 ≤ later / 86400000 := Nat.div_le_div_right h.le
  rcases hdays.lt_or_eq with hday | hday
  · have hyear := (by decide : (0 : Int) ≤ 1970).trans (epoch_year_le (earlier / 86400000))
    exact diverges_date (Date.before_iterate hday) hyear _ _
  · -- On the same date the time of day decides, hour by hour, and so on.
    rw [hday]
    refine (Diverges.of_le ?_ fun hhour => ?_).append_left [_, _, _]
    · omega
    refine Diverges.of_le (by omega) fun hminute =>
      Diverges.of_le (by omega) fun hsecond => ?_
    exact Diverges.head (by omega) [] []

/-! ## The text -/

/-- The clock counts nanoseconds. -/
theorem toInt_nanoseconds
    {moment : Int64} {milliseconds : Nat}
    (h : moment.toInt = milliseconds)
    (hle : milliseconds ≤ lastMillisecond) :
    (ofMilliseconds moment).nanoseconds.toInt = milliseconds * 1000000 := by
  unfold lastMillisecond at hle
  show (moment * 1000000).toInt = _
  have hunit : (1000000 : Int64).toInt = 1000000 := rfl
  rw [Int64.toInt_mul, h, hunit]
  apply Int.bmod_eq_of_le_mul_two <;> omega

theorem paddedInt_natCast
    (width n : Nat) :
    paddedInt width n = Text.padded width n := by
  unfold paddedInt Text.signedDecimal
  rw [if_neg (Int.not_lt.2 (Int.natCast_nonneg n)), Int.natAbs_natCast]

/-- **A timestamp is its fields in its columns.** -/
theorem toList_timestamp
    {moment : Int64} {milliseconds : Nat}
    (h : moment.toInt = milliseconds)
    (hle : milliseconds ≤ lastMillisecond) :
    (ofMilliseconds moment).timestamp.toList =
      Text.row columns (fields milliseconds) := by
  have hseconds :
      (milliseconds * 1000000 : Int).tdiv 1000000000 =
        (milliseconds / 1000 : Nat) := by
    rw [Int.tdiv_eq_ediv_of_nonneg (by omega)]
    omega
  have hwhole : (milliseconds * 1000000 : Int).tdiv 1000000 = milliseconds :=
    Int.mul_tdiv_cancel _ (by decide)
  have hdays :
      ((milliseconds / 1000 : Nat) : Int) / 86400 =
        (milliseconds / 86400000 : Nat) := by
    omega
  have htime :
      (((milliseconds / 1000 : Nat) : Int) % 86400).toNat =
        milliseconds / 1000 % 86400 := by
    omega
  have hhour : milliseconds / 1000 % 86400 / 3600 = milliseconds / 3600000 % 24 := by omega
  have hminute :
      milliseconds / 1000 % 86400 / 60 % 60 = milliseconds / 60000 % 60 := by
    omega
  have hsecond : milliseconds / 1000 % 86400 % 60 = milliseconds / 1000 % 60 := by omega
  have hrest : (milliseconds : Int).tmod 1000 = (milliseconds % 1000 : Nat) := rfl
  have hyear : (Date.next^[milliseconds / 86400000] Date.epoch).year =
      ((Date.next^[milliseconds / 86400000] Date.epoch).year.toNat : Int) := by
    have hfirst := epoch_year_le (milliseconds / 86400000)
    omega
  unfold timestamp secondsText
  dsimp only
  rw [String.toList_ofList, toInt_nanoseconds h hle, hseconds, hwhole, hdays, htime,
    Date.ofDays_natCast, hyear, hhour, hminute, hsecond, hrest, paddedInt_natCast,
      paddedInt_natCast]
  simp [Text.row, columns, fields, padded]

/-- A text of the shape `YYYY-MM-DD HH:MM:SS.mmm`, a byte for each character, that shows
the date and the time of a moment. -/
structure Shows (text : String) (milliseconds : Nat) : Prop where
  shape : text.toList.map Text.blanked = "0000-00-00 00:00:00.000".toList
  size : (Text.utf8 text).length = 23
  fields : text.toList = Text.row columns (fields milliseconds)

theorem shows_timestamp
    {moment : Int64} {milliseconds : Nat}
    (h : moment.toInt = milliseconds)
    (hle : milliseconds ≤ lastMillisecond) :
    Shows (ofMilliseconds moment).timestamp milliseconds := by
  have hfields := toList_timestamp h hle
  have hshape : (ofMilliseconds moment).timestamp.toList.map Text.blanked =
      "0000-00-00 00:00:00.000".toList := by
    rw [hfields, Text.map_blanked_row (fits_fields hle)]
    decide
  refine ⟨hshape, ?_, hfields⟩
  rw [Text.utf8, ← Text.encoded, Text.length_encoded_of_blanked (by simp) hshape]
  decide

/-- The moments between the start of 1970 and the last millisecond of the clock. -/
structure OnClock (moment : Int64) : Prop where
  nonneg : 0 ≤ moment
  le_last : moment ≤ 9223372036854

theorem OnClock.exists_toInt
    {moment : Int64}
    (h : OnClock moment) :
    ∃ milliseconds ≤ lastMillisecond, moment.toInt = (milliseconds : Nat) := by
  have hnonneg : (0 : Int) ≤ moment.toInt := Int64.le_iff_toInt_le.1 h.nonneg
  have hle : moment.toInt ≤ 9223372036854 := Int64.le_iff_toInt_le.1 h.le_last
  refine ⟨moment.toInt.toNat, ?_, (Int.toNat_of_nonneg hnonneg).symm⟩
  unfold lastMillisecond
  omega

theorem utf8_timestamp_lt
    {moment other : Int64}
    (hmoment : OnClock moment)
    (hother : OnClock other)
    (h : moment < other) :
    Text.utf8 (ofMilliseconds moment).timestamp <
      Text.utf8 (ofMilliseconds other).timestamp := by
  obtain ⟨earlier, hearlier, hfirst⟩ := hmoment.exists_toInt
  obtain ⟨later, hlater, hsecond⟩ := hother.exists_toInt
  have hlt : earlier < later := by
    have hint := Int64.lt_iff_toInt_lt.1 h
    omega
  have hrows :=
    Text.diverges_row (fits_fields hearlier) (fits_fields hlater)
      (diverges_fields hlt)
  rw [Text.utf8_lt_utf8_iff, String.lt_iff, toList_timestamp hfirst hearlier,
    toList_timestamp hsecond hlater]
  exact hrows.lt

/-- **Timestamps sort by time.** The timestamps of two moments come in the order of the
moments, so they are different for different moments, and both show date and time in the
same columns. -/
theorem timestamps_sort_by_time
    {moment other : Int64}
    (hmoment : OnClock moment)
    (hother : OnClock other) :
    (Text.utf8 (ofMilliseconds moment).timestamp <
        Text.utf8 (ofMilliseconds other).timestamp ↔
        moment < other) ∧
    ((ofMilliseconds moment).timestamp = (ofMilliseconds other).timestamp →
      moment = other) ∧
    Shows (ofMilliseconds moment).timestamp moment.toInt.toNat ∧
    Shows (ofMilliseconds other).timestamp other.toInt.toNat := by
  have hshows : ∀ {moment : Int64}, OnClock moment →
      Shows (ofMilliseconds moment).timestamp moment.toInt.toNat := by
    intro moment h
    obtain ⟨milliseconds, hle, htoInt⟩ := h.exists_toInt
    rw [htoInt, Int.toNat_natCast]
    exact shows_timestamp htoInt hle
  have hnot_lt : ∀ {moment other : Int64}, OnClock moment → OnClock other →
      (ofMilliseconds moment).timestamp = (ofMilliseconds other).timestamp → ¬ moment
        < other := by
    intro moment other hmoment hother heq hlt
    have hbytes := utf8_timestamp_lt hmoment hother hlt
    rw [heq] at hbytes
    exact List.lt_irrefl _ hbytes
  refine ⟨⟨fun hbytes => ?_, utf8_timestamp_lt hmoment hother⟩, fun heq => ?_,
    hshows hmoment, hshows hother⟩
  · by_contra hnot
    rcases Int64.le_iff_lt_or_eq.1 (Int64.not_lt.1 hnot) with hlt | rfl
    · exact List.lt_asymm (utf8_timestamp_lt hother hmoment hlt) hbytes
    · exact List.lt_irrefl _ hbytes
  · exact Int64.le_antisymm (Int64.not_lt.1 (hnot_lt hother hmoment heq.symm))
      (Int64.not_lt.1 (hnot_lt hmoment hother heq))

/-- The last millisecond before a leap day, and the first one of it. -/
theorem timestamps_sort_by_time_leapDay :
    OnClock 951782399999 ∧
    OnClock 951782400000 ∧
    Text.utf8 (ofMilliseconds 951782399999).timestamp <
      Text.utf8 (ofMilliseconds 951782400000).timestamp ∧
    Shows (ofMilliseconds 951782400000).timestamp 951782400000 ∧
    fields 951782400000 = [2000, 2, 29, 0, 0, 0, 0] := by
  have hbefore : OnClock 951782399999 := ⟨by decide, by decide⟩
  have hleapDay : OnClock 951782400000 := ⟨by decide, by decide⟩
  obtain ⟨hiff, -, -, hshows⟩ := timestamps_sort_by_time hbefore hleapDay
  refine ⟨hbefore, hleapDay, hiff.2 (by decide), hshows, ?_⟩
  unfold fields
  rw [← Date.ofDays_natCast]
  decide

example :
    (ofMilliseconds 951782399999).timestamp = "2000-02-28 23:59:59.999" := by
  decide

end Instant

end PhaseFlow
