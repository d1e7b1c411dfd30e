import PhaseFlow.Text
import PhaseFlow.Time.Calendar

/-!
# Moments

A moment is a signed 64-bit count of nanoseconds since the start of 1970. Documents hold
whole milliseconds, which are obtained by truncation toward zero.

`Instant.timestamp` writes a moment as `YYYY-MM-DD HH:MM:SS.mmm`. The seconds and the
milliseconds are both truncated toward zero, so before 1970 the millisecond field
carries a minus sign, which takes part in the padding of the field to width three.
-/

namespace PhaseFlow

/-- A moment, in nanoseconds since the start of 1970. -/
structure Instant where
  nanoseconds : Int64
  deriving DecidableEq

namespace Instant

instance : Inhabited Instant :=
  ⟨⟨0⟩⟩

/-- The moment of a count of milliseconds. -/
def ofMilliseconds (milliseconds : Int64) : Instant :=
  ⟨milliseconds * 1000000⟩

/-- The whole milliseconds since the start of 1970. -/
def toMilliseconds (instant : Instant) : Int64 :=
  instant.nanoseconds / 1000000

/-- The moment some milliseconds later. -/
def later (instant : Instant) (milliseconds : Nat) : Instant :=
  ⟨instant.nanoseconds + Int64.ofInt (milliseconds * 1000000)⟩

/-- The digits of a number, filled up with zeros to a given width. -/
def padded (width : Nat) (n : Nat) : List Char :=
  Text.padLeft width '0' (Text.decimal n)

/-- An integer in decimal, filled up with zeros before its sign. -/
def paddedInt (width : Nat) (n : Int) : List Char :=
  Text.padLeft width '0' (Text.signedDecimal n)

/-- A count of seconds since the start of 1970, to the second. -/
def secondsText (seconds : Int) : List Char :=
  let date := Date.ofDays (seconds / 86400)
  let time := (seconds % 86400).toNat
  paddedInt 4 date.year ++ '-' :: padded 2 date.month ++ '-' :: padded 2 date.day ++
    ' ' :: padded 2 (time / 3600) ++ ':' :: padded 2 (time / 60 % 60) ++ ':' :: padded
      2 (time % 60)

/-- The moment as date, time of day and milliseconds. -/
def timestamp (instant : Instant) : String :=
  let nanoseconds := instant.nanoseconds.toInt
  let milliseconds := nanoseconds.tdiv 1000000
  String.ofList (secondsText (nanoseconds.tdiv 1000000000) ++
    '.' :: paddedInt 3 (milliseconds.tmod 1000))

end Instant

end PhaseFlow
