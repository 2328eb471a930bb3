import ChangeFeed.Calendar.Read
import ChangeFeed.Calendar.Write
import ChangeFeed.Proofs.Number.Decimal
import ChangeFeed.Proofs.Text.Cut

/-!
# Dates and times read back

What is written for a date or a time of day is read as its fields in front of whatever does not go
on with them (`date_fields_write`, `time_fields_write`). So all four stored forms are read back as
what they were written for, in any year and in leap seconds too; `read_stored_instant_write` says
it of moments.
-/

namespace ChangeFeed.Calendar

open Number (padded zeroFilled digits)

/-! ## Numbers of some width -/

/-- What follows a number does not go on with it. -/
def Stops (rest : List Char) : Prop :=
  ∀ c ∈ rest.head?, c.isDigit = false

/-- The end stops a number. -/
theorem stops_nil : Stops [] :=
  nofun

/-- A text that does not start with a digit stops a number. -/
theorem stops_cons {c : Char} (h : c.isDigit = false) (rest : List Char) : Stops (c :: rest) := by
  intro d hd
  obtain rfl := Option.some.inj hd
  exact h

/-- Digits in front of what stops them are read, if there are neither too few nor too many. -/
theorem digits_up_to_append {least most : Nat} {ds rest : List Char}
    (hdigits : ∀ c ∈ ds, c.isDigit = true) (hleast : least ≤ ds.length) (hmost : ds.length ≤ most)
    (hrest : Stops rest) :
    digitsUpTo least most (ds ++ rest) = some (Number.Decimal.ofDigits ds, rest) := by
  have hstop : (rest.take (most - ds.length)).takeWhile Char.isDigit = [] := by
    cases hmore : rest.take (most - ds.length) with
    | nil => rfl
    | cons c more =>
        have hhead : c ∈ rest.head? := by
          cases rest with
          | nil => simp at hmore
          | cons d rest =>
              cases hcount : most - ds.length with
              | zero => simp [hcount] at hmore
              | succ count =>
                  rw [hcount, List.take_succ_cons] at hmore
                  exact (List.cons.inj hmore).1 ▸ rfl
        rw [List.takeWhile_cons_of_neg (by simp [hrest c hhead])]
  have hfound : ((ds ++ rest).take most).takeWhile Char.isDigit = ds := by
    rw [List.take_append, List.take_of_length_le hmost, List.takeWhile_append_of_pos hdigits, hstop,
      List.append_nil]
  rw [digitsUpTo, hfound, if_neg (Nat.not_lt.mpr hleast), List.drop_left]

/-- A number of at least some width is written in digits. -/
theorem mem_padded {width n : Nat} {c : Char} (h : c ∈ (padded width n).toList) :
    c.isDigit = true := by
  rw [padded, String.toList_ofList] at h
  exact Number.is_digit_of_mem_zero_filled h

/-- The number that digits of some width are worth. -/
theorem of_digits_padded (width n : Nat) : Number.Decimal.ofDigits (padded width n).toList = n := by
  simp [padded]

/-- A number below a power of ten is written in as many digits. -/
theorem length_padded {width n : Nat} (hwidth : 0 < width) (h : n < 10 ^ width) :
    (padded width n).toList.length = width := by
  rw [padded, String.toList_ofList]
  exact Number.length_zero_filled hwidth h

/-- Digits are not blank. -/
theorem digit_not_blank {c : Char} (h : c.isDigit = true) : Text.isBlank c = false := by
  have hrange : 48 ≤ c.toNat ∧ c.toNat ≤ 57 := by
    rw [Char.isDigit, Bool.and_eq_true, decide_eq_true_iff, decide_eq_true_iff] at h
    exact ⟨UInt32.le_iff_toNat_le.mp h.1, UInt32.le_iff_toNat_le.mp h.2⟩
  simp only [Text.isBlank, Bool.or_eq_false_iff, Bool.and_eq_false_iff, decide_eq_false_iff_not,
    beq_eq_false_iff_ne]
  omega

/-- A number starts with a digit. -/
theorem exists_padded_cons (width n : Nat) :
    ∃ c ds, (padded width n).toList = c :: ds ∧ c.isDigit = true := by
  have hne : (padded width n).toList ≠ [] := by
    rw [padded, String.toList_ofList]
    exact List.append_ne_nil_of_right_ne_nil _ (Number.digits_ne_nil n)
  obtain ⟨c, ds, hcons⟩ := List.exists_cons_of_ne_nil hne
  exact ⟨c, ds, hcons, mem_padded (hcons ▸ List.mem_cons_self)⟩

/-- There are no blanks in front of a number. -/
theorem trim_start_padded (width n : Nat) (rest : List Char) :
    Text.trimStart ((padded width n).toList ++ rest) = (padded width n).toList ++ rest := by
  obtain ⟨c, ds, hcons, hc⟩ := exists_padded_cons width n
  rw [hcons]
  exact Text.trim_start_cons (digit_not_blank hc)

/-- A number below a hundred is read from two digits. -/
theorem short_field_padded {n : Nat} (h : n < 100) {rest : List Char} (hrest : Stops rest) :
    shortField ((padded 2 n).toList ++ rest) = some (n, rest) := by
  have hlength : (padded 2 n).toList.length = 2 := length_padded (by omega) (by omega)
  rw [shortField, trim_start_padded, digits_up_to_append (fun c => mem_padded) (by omega)
    (by omega) hrest, of_digits_padded]

/-- A year is read from what is written for it. -/
theorem year_field_write (year : Int) {rest : List Char} (hrest : Stops rest) :
    yearField ((writeYear year).toList ++ rest) = some (year, rest) := by
  have hsigned (n : Nat) : digitsUpTo 1 ((padded 4 n).toList ++ rest).length
      ((padded 4 n).toList ++ rest) = some (n, rest) := by
    obtain ⟨c, ds, hcons, -⟩ := exists_padded_cons 4 n
    rw [digits_up_to_append (fun c => mem_padded) (by simp [hcons]) (by simp) hrest,
      of_digits_padded]
  unfold writeYear
  split
  · rename_i hshort
    have hlength : (padded 4 year.toNat).toList.length = 4 := length_padded (by omega) (by omega)
    have hread : digitsUpTo 1 4 ((padded 4 year.toNat).toList ++ rest) = some (_, rest) :=
      digits_up_to_append (fun c => mem_padded) (by omega) (by omega) hrest
    obtain ⟨c, ds, hcons, hc⟩ := exists_padded_cons 4 year.toNat
    have hsign : c ≠ '-' ∧ c ≠ '+' := by
      constructor <;> (rintro rfl; exact absurd hc (by decide))
    rw [of_digits_padded] at hread
    rw [yearField, trim_start_padded]
    rw [hcons, List.cons_append] at hread ⊢
    simp [hsign, hread]
    omega
  · split
    · have htext : ("-" ++ padded 4 year.natAbs).toList ++ rest =
          '-' :: ((padded 4 year.natAbs).toList ++ rest) := by
        rw [String.toList_append]
        rfl
      rw [htext, yearField, Text.trim_start_cons (by decide)]
      show (digitsUpTo 1 _ _).map _ = _
      rw [hsigned, Option.map_some, Option.some.injEq, Prod.mk.injEq]
      exact ⟨by simp only [Int.ofNat_eq_natCast]; omega, rfl⟩
    · have htext : ("+" ++ padded 4 year.natAbs).toList ++ rest =
          '+' :: ((padded 4 year.natAbs).toList ++ rest) := by
        rw [String.toList_append]
        rfl
      rw [htext, yearField, Text.trim_start_cons (by decide)]
      show (digitsUpTo 1 _ _).map _ = _
      rw [hsigned, Option.map_some, Option.some.injEq, Prod.mk.injEq]
      exact ⟨by simp only [Int.ofNat_eq_natCast]; omega, rfl⟩

/-! ## Dates, times and moments -/

/-- A separator that is no blank is found, whatever may stand before it. -/
theorem mark_cons (s : Spacing) {c : Char} (h : Text.isBlank c = false) (rest : List Char) :
    s.mark c (c :: rest) = some rest := by
  cases s with
  | tight => simp [Spacing.mark, mark]
  | loose => simp [Spacing.mark, mark, Text.trim_start_cons h]

/-- The months of a year and the days of a month have at most two digits. -/
theorem date_bounds (d : Date) : d.month < 100 ∧ d.day < 100 := by
  obtain ⟨-, -, -, hmonth, -, hday⟩ := d.valid
  have hdays : daysInMonth d.year d.month ≤ 31 := by
    unfold daysInMonth
    split
    · split <;> omega
    · split <;> omega
  omega

/-- The fields of a date are read from what is written for it. -/
theorem date_fields_write (s : Spacing) (d : Date) {rest : List Char} (hrest : Stops rest) :
    dateFields s (d.write.toList ++ rest) = some ((d.year, d.month, d.day), rest) := by
  obtain ⟨hmonth, hday⟩ := date_bounds d
  have htext : d.write.toList ++ rest = (writeYear d.year).toList ++
      '-' :: ((padded 2 d.month).toList ++ '-' :: ((padded 2 d.day).toList ++ rest)) := by
    simp [Date.write]
  have hyear := year_field_write d.year (stops_cons (c := '-') rfl
    ((padded 2 d.month).toList ++ '-' :: ((padded 2 d.day).toList ++ rest)))
  have hmonth := short_field_padded hmonth
    (stops_cons (c := '-') rfl ((padded 2 d.day).toList ++ rest))
  have hmark := mark_cons s (c := '-') rfl
  rw [htext, dateFields, hyear]
  simp [hmark, hmonth, short_field_padded hday hrest]

/-- What follows a time of day does not go on with its fraction. -/
def StopsTime (rest : List Char) : Prop :=
  ∀ c ∈ rest.head?, c.isDigit = false ∧ c ≠ '.'

/-- The end stops a time of day. -/
theorem stops_time_nil : StopsTime [] :=
  nofun

/-- The digits of a fraction are worth its nanoseconds. -/
theorem fraction_padded {width value : Nat} (hwidth : 0 < width) (hnine : width ≤ 9)
    (hvalue : value < 10 ^ width) {rest : List Char} (hrest : Stops rest) :
    fraction ('.' :: ((padded width value).toList ++ rest)) =
      some (value * 10 ^ (9 - width), rest) := by
  have hlength := length_padded hwidth hvalue
  have hstop : rest.takeWhile Char.isDigit = [] ∧ rest.dropWhile Char.isDigit = rest := by
    cases rest with
    | nil => exact ⟨rfl, rfl⟩
    | cons c rest => simp [hrest c rfl]
  have hne : (padded width value).toList ≠ [] := by
    intro hnil
    rw [hnil] at hlength
    exact absurd hlength (by simp; omega)
  have hdigits : ∀ c ∈ (padded width value).toList, c.isDigit = true := fun c => mem_padded
  rw [fraction]
  simp only [List.takeWhile_append_of_pos hdigits, List.dropWhile_append_of_pos hdigits, hstop,
    List.append_nil]
  rw [if_neg (by simpa using hne), List.take_of_length_le (by omega), of_digits_padded, hlength]
  rfl

/-- What is written behind a point. -/
theorem point_append (text : String) (rest : List Char) :
    ("." ++ text).toList ++ rest = '.' :: (text.toList ++ rest) := by
  rw [String.toList_append]
  rfl

/-- A fraction is read from what is written for it. -/
theorem fraction_write {nano : Nat} (h : nano < nanosPerSecond) {rest : List Char}
    (hrest : StopsTime rest) :
    fraction ((writeFraction nano).toList ++ rest) = some (nano, rest) := by
  have hstops : Stops rest := fun c hc => (hrest c hc).1
  have hnano : nano < 1000000000 := h
  unfold writeFraction
  split
  · rename_i hzero
    rw [hzero]
    cases rest with
    | nil => rfl
    | cons c rest =>
        have hc : c ≠ '.' := (hrest c rfl).2
        simp [fraction, hc]
  · split
    · rw [point_append, fraction_padded (by omega) (by omega) (by omega) hstops]
      exact congrArg (fun n => some (n, rest)) (by omega)
    · split
      · rw [point_append, fraction_padded (by omega) (by omega) (by omega) hstops]
        exact congrArg (fun n => some (n, rest)) (by omega)
      · rw [point_append, fraction_padded (by omega) (by omega) (by omega) hstops]
        exact congrArg (fun n => some (n, rest)) (by omega)

/-- The fields of a time of day are read from what is written for it. -/
theorem time_fields_write (s : Spacing) (t : TimeOfDay) {rest : List Char}
    (hrest : StopsTime rest) :
    timeFields s (t.write.toList ++ rest) = some ((t.hour, t.minute, t.second, t.nano), rest) := by
  obtain ⟨hhour, hminute, hsecond, hnano⟩ := t.valid
  have hfraction := fraction_write hnano hrest
  have hstops : Stops ((writeFraction t.nano).toList ++ rest) := by
    unfold writeFraction
    split
    · exact fun c hc => (hrest c hc).1
    · split
      · exact point_append _ rest ▸ stops_cons (c := '.') rfl _
      · split <;> exact point_append _ rest ▸ stops_cons (c := '.') rfl _
  have htext : t.write.toList ++ rest = (padded 2 t.hour).toList ++ ':' ::
      ((padded 2 t.minute).toList ++ ':' :: ((padded 2 t.second).toList ++
        ((writeFraction t.nano).toList ++ rest))) := by
    simp [TimeOfDay.write]
  have hcolon (more : List Char) : Stops (':' :: more) := stops_cons rfl more
  have hmark := mark_cons s (c := ':') rfl
  rw [htext, timeFields, short_field_padded (by omega) (hcolon _)]
  simp [hmark, short_field_padded (show t.minute < 100 by omega) (hcolon _),
    short_field_padded (show t.second < 100 by omega) hstops, hfraction]

/-- A date is that of its fields. -/
theorem date_of_fields (d : Date) : dateOf (d.year, d.month, d.day) = some d :=
  dif_pos d.valid

/-- A time of day is that of its fields. -/
theorem time_of_fields (t : TimeOfDay) :
    timeOf (t.hour, t.minute, t.second, t.nano) = some t :=
  dif_pos t.valid

/-- A date and a time of day are those of their fields. -/
theorem local_of_fields (l : LocalDateTime) :
    localOf (l.date.year, l.date.month, l.date.day)
      (l.time.hour, l.time.minute, l.time.second, l.time.nano) = some l := by
  rw [localOf, date_of_fields, time_of_fields]
  rfl

/-- A time of day comes before the end of the day. -/
theorem minutes_lt (t : TimeOfDay) : t.minutes < minutesPerDay := by
  obtain ⟨hhour, hminute, -, -⟩ := t.valid
  rw [TimeOfDay.minutes, minutesPerDay]
  omega

/-- A time of day is that of its minutes, its second and its nanoseconds. -/
theorem with_minutes_minutes (t : TimeOfDay) : t.withMinutes t.minutes = t := by
  obtain ⟨hour, minute, second, nano, hvalid⟩ := t
  obtain ⟨hhour, hminute, -, -⟩ := id hvalid
  have hparts : (60 * hour + minute) / 60 % 24 = hour ∧ (60 * hour + minute) % 60 = minute := by
    omega
  simp only [TimeOfDay.withMinutes, TimeOfDay.minutes, hparts]

/-- A date-time at offset zero is the moment of that date-time. -/
theorem at_offset_zero (l : LocalDateTime) : l.atOffset? 0 = some ⟨l⟩ := by
  have hlt := minutes_lt l.time
  have hsame : ((l.time.minutes : Int) % (minutesPerDay : Int)).toNat = l.time.minutes := by
    rw [Int.emod_eq_of_lt (Int.natCast_nonneg _) (Int.ofNat_lt.mpr hlt), Int.toNat_natCast]
  simp only [LocalDateTime.atOffset?, Int.sub_zero, hsame, with_minutes_minutes]
  rw [if_neg (by omega), if_neg (by omega)]
  rfl

/-- The fields of a date are read at the end of a text. -/
theorem date_fields_at_end (s : Spacing) (d : Date) :
    dateFields s d.write.toList = some ((d.year, d.month, d.day), []) := by
  have hdate := date_fields_write s d stops_nil
  rwa [List.append_nil] at hdate

/-- The fields of a time of day are read at the end of a text. -/
theorem time_fields_at_end (s : Spacing) (t : TimeOfDay) :
    timeFields s t.write.toList = some ((t.hour, t.minute, t.second, t.nano), []) := by
  have htime := time_fields_write s t stops_time_nil
  rwa [List.append_nil] at htime

/-- A date is read back from what is written for it. -/
theorem read_stored_date_write (d : Date) : readStoredDate d.write.toList = some d := by
  simp only [readStoredDate, date_fields_at_end, date_of_fields, Option.bind_eq_bind,
    Option.bind_some]
  rfl

/-- A time of day is read back from what is written for it. -/
theorem read_stored_time_write (t : TimeOfDay) : readStoredTime t.write.toList = some t := by
  simp only [readStoredTime, time_fields_at_end, time_of_fields]
  rfl

/-- A local date-time is read back from what is written for it. -/
theorem read_stored_date_time_write (l : LocalDateTime) :
    readStoredDateTime l.write.toList = some l := by
  have htext : l.write.toList = l.date.write.toList ++ 'T' :: l.time.write.toList := by
    simp [LocalDateTime.write]
  have hdate := date_fields_write .loose l.date (stops_cons (c := 'T') rfl l.time.write.toList)
  have hmark := mark_cons .loose (c := 'T') rfl l.time.write.toList
  rw [htext]
  simp only [readStoredDateTime, hdate, hmark, time_fields_at_end, local_of_fields,
    Option.bind_eq_bind, Option.bind_some]
  rfl

/-- A moment is read back from what is written for it. -/
theorem read_stored_instant_write (i : Instant) :
    readStoredInstant i.write.toList = some i := by
  have htext : i.write.toList =
      i.utc.date.write.toList ++ 'T' :: (i.utc.time.write.toList ++ ['Z']) := by
    simp [Instant.write, LocalDateTime.write]
  have hdate := date_fields_write .loose i.utc.date
    (stops_cons (c := 'T') rfl (i.utc.time.write.toList ++ ['Z']))
  have hstops : StopsTime ['Z'] := by simp [StopsTime]
  have htime := time_fields_write .loose i.utc.time hstops
  have hoffset : storedOffset (Text.trimStart ['Z']) = some (0, []) := rfl
  have htrim : Text.trimStart [] = [] := rfl
  rw [htext, readStoredInstant, hdate]
  simp [htime, hoffset, htrim, local_of_fields, at_offset_zero, atEnd]

end ChangeFeed.Calendar
