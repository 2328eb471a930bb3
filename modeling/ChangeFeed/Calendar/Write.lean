import ChangeFeed.Calendar.Basic
import ChangeFeed.Number.Integer

/-!
# Writing dates and times

Years from 0 to 9999 have four digits, other years a sign and at least four digits. Fractions of a
second have three, six or nine digits, the fewest that are exact, and none if they are zero.
-/

namespace ChangeFeed.Calendar

open Number (padded decimal)

/-- A year. -/
def writeYear (year : Int) : String :=
  if 0 ≤ year ∧ year ≤ 9999 then padded 4 year.toNat
  else (if year < 0 then "-" else "+") ++ padded 4 year.natAbs

/-- A date with hyphens. -/
def Date.write (d : Date) : String :=
  writeYear d.year ++ "-" ++ padded 2 d.month ++ "-" ++ padded 2 d.day

/-- A fraction of a second. -/
def writeFraction (nano : Nat) : String :=
  if nano = 0 then ""
  else if nano % 1000000 = 0 then "." ++ padded 3 (nano / 1000000)
  else if nano % 1000 = 0 then "." ++ padded 6 (nano / 1000)
  else "." ++ padded 9 nano

/-- A time of day with colons. -/
def TimeOfDay.write (t : TimeOfDay) : String :=
  padded 2 t.hour ++ ":" ++ padded 2 t.minute ++ ":" ++ padded 2 t.second ++ writeFraction t.nano

/-- A local date-time with a `T` between its parts. -/
def LocalDateTime.write (l : LocalDateTime) : String :=
  l.date.write ++ "T" ++ l.time.write

/-- A moment as its date-time at offset zero, marked with a `Z`. -/
def Instant.write (i : Instant) : String :=
  i.utc.write ++ "Z"

/-- A moment in words: date and time at offset zero, and the name of that offset. -/
def Instant.spell (i : Instant) : String :=
  i.utc.date.write ++ " " ++ i.utc.time.write ++ " UTC"

end ChangeFeed.Calendar
