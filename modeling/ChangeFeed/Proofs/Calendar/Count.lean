import ChangeFeed.Calendar.Basic
import Mathlib.Tactic.ByContra

/-!
# Days and nanoseconds counted

The days of the calendar are counted from the first day of the year 1 (`Date.days`), and the
nanoseconds of a local date-time from the start of that day (`LocalDateTime.nanos`). The next day
and the day before are one day apart from a date, so taking an offset away from a date-time takes
the nanoseconds of the offset away from its count (`at_offset_nanos`). Different dates have
different counts, and so have different date-times outside leap seconds
(`LocalDateTime.eq_of_nanos`).
-/

namespace ChangeFeed.Calendar

/-! ## Counting days -/

/-- The days before a year, counted from the year 1. -/
def daysBeforeYear (year : Int) : Int :=
  365 * (year - 1) + (year - 1) / 4 - (year - 1) / 100 + (year - 1) / 400

/-- The days of a year. -/
def daysInYear (year : Int) : Nat :=
  if isLeapYear year then 366 else 365

/-- The days of a year before a month. -/
def daysBeforeMonth (year : Int) : Nat → Nat
  | 0 => 0
  | 1 => 0
  | passed + 2 => daysBeforeMonth year (passed + 1) + daysInMonth year (passed + 1)

/-- The days before a date, counted from the first day of the year 1. -/
def Date.days (d : Date) : Int :=
  daysBeforeYear d.year + daysBeforeMonth d.year d.month + (d.day - 1 : Nat)

/-- A year is followed by the next one. -/
theorem days_before_next_year (year : Int) :
    daysBeforeYear (year + 1) = daysBeforeYear year + daysInYear year := by
  unfold daysBeforeYear daysInYear isLeapYear
  simp only [Bool.and_eq_true, Bool.or_eq_true, beq_iff_eq, bne_iff_ne]
  split <;> omega

/-- A month is followed by the next one. -/
theorem days_before_next_month (year : Int) {month : Nat} (h : 1 ≤ month) :
    daysBeforeMonth year (month + 1) =
      daysBeforeMonth year month + daysInMonth year month := by
  obtain ⟨passed, rfl⟩ : ∃ passed, month = passed + 1 := ⟨month - 1, by omega⟩
  rfl

/-- There is a last day in every month, and thirty-one of them in the last month. -/
theorem days_in_month_pos (year : Int) (month : Nat) :
    1 ≤ daysInMonth year month ∧ daysInMonth year 12 = 31 := by
  unfold daysInMonth
  refine ⟨?_, rfl⟩
  split
  · split <;> omega
  · split <;> omega

/-- Twelve months make up a year. -/
theorem days_before_thirteenth (year : Int) : daysBeforeMonth year 13 = daysInYear year := by
  simp only [daysBeforeMonth, daysInYear, daysInMonth]
  cases isLeapYear year <;> rfl

/-- Later months come after the days of earlier ones. -/
theorem days_before_month_mono (year : Int) {month later : Nat} (hmonth : 1 ≤ month)
    (h : month ≤ later) : daysBeforeMonth year month ≤ daysBeforeMonth year later := by
  induction h with
  | refl => exact Nat.le_refl _
  | @step later hle ih =>
      rw [days_before_next_month year (Nat.le_trans hmonth hle)]
      exact Nat.le_add_right_of_le ih

/-- Later years come after the days of earlier ones. -/
theorem days_before_year_mono {year later : Int} (h : year ≤ later) :
    daysBeforeYear year ≤ daysBeforeYear later := by
  unfold daysBeforeYear
  omega

namespace Date

/-- A date comes after the days before its month, and before those before the next month. -/
theorem days_in_month (d : Date) :
    daysBeforeYear d.year + daysBeforeMonth d.year d.month ≤ d.days ∧
      d.days < daysBeforeYear d.year + daysBeforeMonth d.year (d.month + 1) := by
  obtain ⟨-, -, hmonth, -, hfirst, hlast⟩ := d.valid
  have hnext := days_before_next_month d.year hmonth
  rw [days]
  omega

/-- A date comes after the days before its year, and before those before the next year. -/
theorem days_in_year (d : Date) :
    daysBeforeYear d.year ≤ d.days ∧ d.days < daysBeforeYear (d.year + 1) := by
  obtain ⟨hafter, hbefore⟩ := d.days_in_month
  obtain ⟨-, -, -, hmonth, -, -⟩ := d.valid
  have hthirteenth := days_before_thirteenth d.year
  have hyear := days_before_next_year d.year
  have hmono : daysBeforeMonth d.year (d.month + 1) ≤ daysBeforeMonth d.year 13 :=
    days_before_month_mono d.year (Nat.le_add_left 1 d.month) (by omega)
  omega

/-- Two dates with the same count are of the same year. -/
theorem year_eq_of_days {d other : Date} (h : d.days = other.days) : d.year = other.year := by
  obtain ⟨hd, hdNext⟩ := d.days_in_year
  obtain ⟨hother, hotherNext⟩ := other.days_in_year
  rcases Int.lt_trichotomy d.year other.year with hlt | heq | hlt
  · have hmono := days_before_year_mono (Int.add_one_le_of_lt hlt)
    omega
  · exact heq
  · have hmono := days_before_year_mono (Int.add_one_le_of_lt hlt)
    omega

/-- Two dates with the same count are the same. -/
theorem eq_of_days {d other : Date} (h : d.days = other.days) : d = other := by
  have hyear := year_eq_of_days h
  obtain ⟨hd, hdNext⟩ := d.days_in_month
  obtain ⟨hother, hotherNext⟩ := other.days_in_month
  obtain ⟨-, -, hfirst, -, hday, -⟩ := d.valid
  obtain ⟨-, -, hotherFirst, -, hotherDay, -⟩ := other.valid
  rw [hyear] at hd hdNext
  have hmonth : d.month = other.month := by
    rcases Nat.lt_trichotomy d.month other.month with hlt | heq | hlt
    · have hmono := days_before_month_mono other.year (Nat.le_add_left 1 d.month) hlt
      omega
    · exact heq
    · have hmono := days_before_month_mono other.year (Nat.le_add_left 1 other.month) hlt
      omega
  have hsame : d.day = other.day := by
    rw [days, days, hyear, hmonth] at h
    omega
  cases d
  cases other
  simp_all

/-! ## Neighbours -/

/-- The parts of a day of the calendar are those of a date. -/
theorem of_parts_of_valid {year : Int} {month day : Nat} (h : IsDate year month day) :
    ofParts? year month day = some ⟨year, month, day, h⟩ :=
  dif_pos h

/-- Parts that name no day are those of no date. -/
theorem of_parts_of_not_valid {year : Int} {month day : Nat} (h : ¬ IsDate year month day) :
    ofParts? year month day = none :=
  dif_neg h

/-- The first day of a year comes after the years before. -/
theorem days_first (d : Date) (h : d.month = 1 ∧ d.day = 1) : d.days = daysBeforeYear d.year := by
  simp [days, h, daysBeforeMonth]

/-- The last day of a year comes a day before the next year. -/
theorem days_last (d : Date) (h : d.month = 12 ∧ d.day = 31) :
    d.days + 1 = daysBeforeYear (d.year + 1) := by
  have hyear := days_before_next_year d.year
  have hdecember : daysBeforeMonth d.year 13 = _ :=
    days_before_next_month d.year (by omega : 1 ≤ 12)
  have hthirteenth := days_before_thirteenth d.year
  have hlast := (days_in_month_pos d.year 12).2
  rw [days, h.1, h.2]
  omega

/-- Before the last year there is a next day, which counts one more. -/
theorem exists_next (d : Date) (h : d.year < lastYear) :
    ∃ next, d.next? = some next ∧ next.days = d.days + 1 := by
  obtain ⟨hlow, hhigh, hmonth, htwelve, hday, hlast⟩ := d.valid
  unfold next?
  by_cases hsame : IsDate d.year d.month (d.day + 1)
  · rw [of_parts_of_valid hsame]
    refine ⟨_, rfl, ?_⟩
    simp only [days]
    omega
  have hend : d.day = daysInMonth d.year d.month := by
    by_contra hne
    exact hsame ⟨hlow, hhigh, hmonth, htwelve, by omega, by omega⟩
  rw [of_parts_of_not_valid hsame]
  by_cases hmore : IsDate d.year (d.month + 1) 1
  · have hnextMonth := days_before_next_month d.year hmonth
    rw [of_parts_of_valid hmore]
    refine ⟨_, rfl, ?_⟩
    simp only [days]
    omega
  · -- Only December has no month behind it in its year.
    have hdecember : d.month = 12 := by
      by_contra hne
      have hpos := (days_in_month_pos d.year (d.month + 1)).1
      exact hmore ⟨hlow, hhigh, by omega, by omega, Nat.le_refl 1, hpos⟩
    have hthirtyOne : d.day = 31 := by
      rw [hend, hdecember]
      rfl
    have hyear : IsDate (d.year + 1) 1 1 := by
      have hpos := (days_in_month_pos (d.year + 1) 1).1
      exact ⟨by omega, by omega, by omega, by omega, by omega, hpos⟩
    rw [of_parts_of_not_valid hmore, of_parts_of_valid hyear]
    refine ⟨_, rfl, ?_⟩
    rw [days_last d ⟨hdecember, hthirtyOne⟩]
    exact days_first _ ⟨rfl, rfl⟩

/-- After the first year there is a day before, which counts one less. -/
theorem exists_previous (d : Date) (h : firstYear < d.year) :
    ∃ previous, d.previous? = some previous ∧ previous.days + 1 = d.days := by
  obtain ⟨hlow, hhigh, hmonth, htwelve, hday, hlast⟩ := d.valid
  unfold previous?
  by_cases hinside : 1 < d.day
  · have hsame : IsDate d.year d.month (d.day - 1) :=
      ⟨hlow, hhigh, hmonth, htwelve, by omega, by omega⟩
    rw [if_pos hinside, of_parts_of_valid hsame]
    refine ⟨_, rfl, ?_⟩
    simp only [days]
    omega
  rw [if_neg hinside]
  by_cases hlater : 1 < d.month
  · have hpos := (days_in_month_pos d.year (d.month - 1)).1
    have hless : IsDate d.year (d.month - 1) (daysInMonth d.year (d.month - 1)) :=
      ⟨hlow, hhigh, by omega, by omega, hpos, Nat.le_refl _⟩
    have hstep := days_before_next_month d.year (by omega : 1 ≤ d.month - 1)
    have hmonthBack : d.month - 1 + 1 = d.month := by omega
    rw [hmonthBack] at hstep
    rw [if_pos hlater, of_parts_of_valid hless]
    refine ⟨_, rfl, ?_⟩
    simp only [days]
    omega
  · have hyear : IsDate (d.year - 1) 12 31 :=
      ⟨by omega, by omega, by omega, by omega, by omega, Nat.le_refl 31⟩
    rw [if_neg hlater, of_parts_of_valid hyear]
    refine ⟨_, rfl, ?_⟩
    rw [days_last _ ⟨rfl, rfl⟩, days_first d ⟨by omega, by omega⟩]
    exact congrArg daysBeforeYear (Int.sub_add_cancel d.year 1)

end Date

/-! ## Counting nanoseconds -/

/-- The nanoseconds of a day that have passed at a time. -/
def TimeOfDay.nanos (t : TimeOfDay) : Nat :=
  (3600 * t.hour + 60 * t.minute + t.second) * nanosPerSecond + t.nano

/-- The nanoseconds before a local date-time, counted from the start of the year 1. -/
def LocalDateTime.nanos (l : LocalDateTime) : Int :=
  86400 * nanosPerSecond * l.date.days + l.time.nanos

namespace TimeOfDay

/-- A time outside a leap second comes before the end of its day. -/
theorem nanos_lt {t : TimeOfDay} (h : t.second < 60) : t.nanos < 86400 * nanosPerSecond := by
  obtain ⟨hhour, hminute, -, hnano⟩ := t.valid
  unfold nanosPerSecond at hnano
  unfold nanos nanosPerSecond
  omega

/-- Two times outside leap seconds with the same count are the same. -/
theorem eq_of_nanos {t other : TimeOfDay} (ht : t.second < 60) (hother : other.second < 60)
    (h : t.nanos = other.nanos) : t = other := by
  obtain ⟨hhour, hminute, -, hnano⟩ := t.valid
  obtain ⟨hotherHour, hotherMinute, -, hotherNano⟩ := other.valid
  unfold nanosPerSecond at hnano hotherNano
  unfold nanos nanosPerSecond at h
  have hhours : t.hour = other.hour := by omega
  have hminutes : t.minute = other.minute := by omega
  have hseconds : t.second = other.second := by omega
  have hnanos : t.nano = other.nano := by omega
  cases t
  cases other
  simp_all

/-- Other minutes of a day make the difference that they are apart. -/
theorem nanos_with_minutes (t : TimeOfDay) {minutes : Nat} (h : minutes < minutesPerDay) :
    (t.withMinutes minutes).nanos + 60 * nanosPerSecond * t.minutes =
      t.nanos + 60 * nanosPerSecond * minutes := by
  unfold minutesPerDay at h
  have hhour : minutes / 60 % 24 = minutes / 60 := Nat.mod_eq_of_lt (by omega)
  simp only [nanos, withMinutes, TimeOfDay.minutes, nanosPerSecond, hhour]
  omega

end TimeOfDay

namespace LocalDateTime

/-- Two date-times outside leap seconds with the same count are the same. -/
theorem eq_of_nanos {l other : LocalDateTime} (hl : l.time.second < 60)
    (hother : other.time.second < 60) (h : l.nanos = other.nanos) : l = other := by
  have htime := TimeOfDay.nanos_lt hl
  have hotherTime := TimeOfDay.nanos_lt hother
  unfold nanos at h
  unfold nanosPerSecond at h htime hotherTime
  have hdays : l.date.days = other.date.days := by omega
  have hnanos : l.time.nanos = other.time.nanos := by omega
  have hdate := Date.eq_of_days hdays
  have hsame := TimeOfDay.eq_of_nanos hl hother hnanos
  cases l
  cases other
  simp_all

/-- A date-time some days and minutes away is as many nanoseconds away. -/
theorem nanos_of_days (l : LocalDateTime) {date : Date} {minutes : Nat} {days offset : Int}
    (hminutes : minutes < minutesPerDay) (hdays : date.days = l.date.days + days)
    (hsplit : (l.time.minutes : Int) - offset = 1440 * days + minutes) :
    (LocalDateTime.mk date (l.time.withMinutes minutes)).nanos =
      l.nanos - 60 * nanosPerSecond * offset := by
  have htime := TimeOfDay.nanos_with_minutes l.time hminutes
  unfold nanos
  simp only [hdays]
  unfold nanosPerSecond at htime ⊢
  omega

/-- Away from the ends of the calendar, the moment of a date-time that is ahead by less than a day
counts the nanoseconds of its offset less. Its second is the same. -/
theorem at_offset_nanos (l : LocalDateTime) {offset : Int}
    (hoffset : -minutesPerDay < offset ∧ offset < minutesPerDay)
    (hyear : firstYear < l.date.year ∧ l.date.year < lastYear) :
    ∃ i, l.atOffset? offset = some i ∧ i.utc.nanos = l.nanos - 60 * nanosPerSecond * offset ∧
      i.utc.time.second = l.time.second := by
  have hminutes : l.time.minutes < 1440 := by
    obtain ⟨hhour, hminute, -, -⟩ := l.time.valid
    rw [TimeOfDay.minutes]
    omega
  have hday : (minutesPerDay : Int) = 1440 := rfl
  have hleft : (((l.time.minutes : Int) - offset) % 1440).toNat < minutesPerDay := by
    unfold minutesPerDay
    omega
  simp only [hday] at hoffset
  simp only [atOffset?, hday]
  -- The minutes that are left are those of a neighbouring day, or of the day itself.
  by_cases hbefore : (l.time.minutes : Int) - offset < 0
  · obtain ⟨previous, hprevious, hdays⟩ := l.date.exists_previous hyear.1
    rw [if_pos hbefore, hprevious]
    have hback : previous.days = l.date.days + -1 := by omega
    exact ⟨_, rfl, nanos_of_days l hleft hback (by omega), rfl⟩
  by_cases hbehind : 1440 ≤ (l.time.minutes : Int) - offset
  · obtain ⟨next, hnext, hdays⟩ := l.date.exists_next hyear.2
    rw [if_neg hbefore, if_pos hbehind, hnext]
    exact ⟨_, rfl, nanos_of_days l hleft hdays (by omega), rfl⟩
  · rw [if_neg hbefore, if_neg hbehind]
    have hsame : l.date.days = l.date.days + 0 := by omega
    exact ⟨_, rfl, nanos_of_days l hleft hsame (by omega), rfl⟩

end LocalDateTime

end ChangeFeed.Calendar
