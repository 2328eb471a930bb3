/-!
# Dates and times of day

Dates of the proleptic Gregorian calendar, times of day with leap seconds and nanoseconds, local
date-times, and instants, which are date-times at offset zero. The conditions on the parts are
fields of the types.
-/

namespace ChangeFeed.Calendar

/-- Every fourth year is a leap year, except for full centuries that 400 does not divide. -/
def isLeapYear (year : Int) : Bool :=
  year % 4 == 0 && (year % 100 != 0 || year % 400 == 0)

/-- The number of days in a month. -/
def daysInMonth (year : Int) (month : Nat) : Nat :=
  if month = 2 then (if isLeapYear year then 29 else 28)
  else if month = 4 ∨ month = 6 ∨ month = 9 ∨ month = 11 then 30
  else 31

/-- The first year of the calendar. -/
def firstYear : Int := -262143

/-- The last year of the calendar. -/
def lastYear : Int := 262142

/-- Whether year, month and day name a day of the calendar. -/
def IsDate (year : Int) (month day : Nat) : Prop :=
  firstYear ≤ year ∧ year ≤ lastYear ∧ 1 ≤ month ∧ month ≤ 12 ∧ 1 ≤ day ∧
    day ≤ daysInMonth year month

instance (year : Int) (month day : Nat) : Decidable (IsDate year month day) :=
  inferInstanceAs (Decidable (_ ∧ _))

/-- A day of the calendar. -/
structure Date where
  year : Int
  month : Nat
  day : Nat
  valid : IsDate year month day
  deriving DecidableEq

/-- The day with the given year, month and day, if there is one. -/
def Date.ofParts? (year : Int) (month day : Nat) : Option Date :=
  if h : IsDate year month day then some ⟨year, month, day, h⟩ else none

/-- The next day. -/
def Date.next? (d : Date) : Option Date :=
  match Date.ofParts? d.year d.month (d.day + 1) with
  | some next => some next
  | none =>
    match Date.ofParts? d.year (d.month + 1) 1 with
    | some next => some next
    | none => Date.ofParts? (d.year + 1) 1 1

/-- The day before. -/
def Date.previous? (d : Date) : Option Date :=
  if 1 < d.day then Date.ofParts? d.year d.month (d.day - 1)
  else if 1 < d.month then
    Date.ofParts? d.year (d.month - 1) (daysInMonth d.year (d.month - 1))
  else Date.ofParts? (d.year - 1) 12 31

/-- Nanoseconds in a second. -/
def nanosPerSecond : Nat := 1000000000

/-- Whether the parts name a moment of a day; second 60 is a leap second. -/
def IsTime (hour minute second nano : Nat) : Prop :=
  hour < 24 ∧ minute < 60 ∧ second ≤ 60 ∧ nano < nanosPerSecond

instance (hour minute second nano : Nat) : Decidable (IsTime hour minute second nano) :=
  inferInstanceAs (Decidable (_ ∧ _))

/-- A time of day. -/
structure TimeOfDay where
  hour : Nat
  minute : Nat
  second : Nat
  nano : Nat
  valid : IsTime hour minute second nano
  deriving DecidableEq

/-- The time with the given parts, if there is one. -/
def TimeOfDay.ofParts? (hour minute second nano : Nat) : Option TimeOfDay :=
  if h : IsTime hour minute second nano then some ⟨hour, minute, second, nano, h⟩ else none

/-- A date and a time of day at an unnamed place. -/
structure LocalDateTime where
  date : Date
  time : TimeOfDay
  deriving DecidableEq

/-- A moment, by its date and time at offset zero. -/
structure Instant where
  utc : LocalDateTime
  deriving DecidableEq

/-- The first moment of the year 1970. -/
def Instant.epoch : Instant :=
  ⟨⟨⟨1970, 1, 1, by decide⟩, ⟨0, 0, 0, 0, by decide⟩⟩⟩

/-- Minutes in a day. -/
def minutesPerDay : Nat := 1440

/-- The minutes of a day that have passed at a time. -/
def TimeOfDay.minutes (t : TimeOfDay) : Nat :=
  60 * t.hour + t.minute

/-- The time with its hour and minute replaced by a number of minutes. -/
def TimeOfDay.withMinutes (t : TimeOfDay) (minutes : Nat) : TimeOfDay where
  hour := minutes / 60 % 24
  minute := minutes % 60
  second := t.second
  nano := t.nano
  valid := by
    obtain ⟨_, _, hs, hn⟩ := t.valid
    exact ⟨Nat.mod_lt _ (by omega), Nat.mod_lt _ (by omega), hs, hn⟩

/-- The moment of a local date-time that is ahead of offset zero by `offset` minutes, less than
a day. There is none beyond the ends of the calendar. -/
def LocalDateTime.atOffset? (l : LocalDateTime) (offset : Int) : Option Instant :=
  let minutes : Int := l.time.minutes - offset
  let date :=
    if minutes < 0 then l.date.previous?
    else if minutesPerDay ≤ minutes then l.date.next?
    else some l.date
  date.map fun date => ⟨⟨date, l.time.withMinutes (minutes % minutesPerDay).toNat⟩⟩

end ChangeFeed.Calendar
