import EntityQuery.Calendar.Date
import EntityQuery.Calendar.TimeOfDay

/-!
# Dates with a time of day

A date-time is a wall-clock reading; one with an offset also says how many minutes its clock is
ahead of coordinated universal time, and `utc` is the reading of that clock at the same instant.
-/

namespace EntityQuery

/-- A date and a time of day. -/
structure DateTime where
  date : Date
  time : TimeOfDay
  deriving DecidableEq, Repr

/-- A wall-clock reading and the minutes by which its clock is ahead of universal time. -/
structure OffsetDateTime where
  localTime : DateTime
  offset : Int
  deriving DecidableEq, Repr

namespace DateTime

/-- The text with the fraction of the second cut after three places. -/
def milliText (t : DateTime) : String := t.date.text ++ " " ++ t.time.milliText

/-- The text with all nine places of the fraction. -/
def nanoText (t : DateTime) : String := t.date.text ++ " " ++ t.time.nanoText

/-- The reading of a clock that is `minutes` behind, for fewer minutes than a day has. A second,
leap seconds among them, and its fraction do not change. -/
def subMinutes (t : DateTime) (minutes : Int) : DateTime :=
  let m : Int := t.time.hour * 60 + t.time.minute - minutes
  let date := if m < 0 then t.date.prev else if 1440 ≤ m then t.date.next else t.date
  let m := (m % 1440).toNat
  ⟨date, { t.time with hour := m / 60, minute := m % 60 }⟩

end DateTime

namespace OffsetDateTime

/-- The reading of the clock of universal time at the same instant. -/
def utc (t : OffsetDateTime) : DateTime := t.localTime.subMinutes t.offset

end OffsetDateTime

end EntityQuery
