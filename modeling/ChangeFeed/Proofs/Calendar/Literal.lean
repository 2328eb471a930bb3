import ChangeFeed.Proofs.Calendar.Count
import ChangeFeed.Proofs.Calendar.Stored
import ChangeFeed.Proofs.Number.DecimalRounding
import ChangeFeed.Proofs.Number.DecimalText
import Mathlib.Data.List.TakeWhile

/-!
# Dates and times as a database prints them

A printed date has its year without a sign, in at least four digits; a time of day may have a
fraction of up to nine digits, and an offset its hours or its hours and minutes. Dates of up to
four digits in the year are read, alone, in front of a time of day and in front of a time of day
with an offset, and dates of more digits are not (`read_date_printed`, `read_date_time_printed`).
`read_instant_printed` says which moment a date-time with an offset is read as.
-/

namespace ChangeFeed.Calendar

open Number (padded OnlyDigits)
open Number.Decimal (ofDigits)

/-! ## Printed forms -/

/-- The text of a date after the start of the year 0, with its year in at least four digits. -/
def printedDate (d : Date) : List Char :=
  (padded 4 d.year.toNat).toList ++
    '-' :: ((padded 2 d.month).toList ++ '-' :: (padded 2 d.day).toList)

/-- The texts of the nanoseconds of a second: none at all, or up to nine digits behind a point. -/
inductive SpellsFraction : Nat → List Char → Prop where
  | none : SpellsFraction 0 []
  | digits {ds : List Char} (hne : ds ≠ []) (hds : OnlyDigits ds) (hnine : ds.length ≤ 9) :
      SpellsFraction (ofDigits ds * 10 ^ (9 - ds.length)) ('.' :: ds)

/-- The texts of a time of day: two digits for each of hour, minute and second, and a fraction. -/
def SpellsTime (t : TimeOfDay) (cs : List Char) : Prop :=
  ∃ fraction, SpellsFraction t.nano fraction ∧
    cs = (padded 2 t.hour).toList ++ ':' :: ((padded 2 t.minute).toList ++
      ':' :: ((padded 2 t.second).toList ++ fraction))

/-- The texts of the minutes of an offset: none at all, or two digits behind a colon. -/
inductive SpellsMinutes : Nat → List Char → Prop where
  | none : SpellsMinutes 0 []
  | colon {minute : Nat} (h : minute < 60) :
      SpellsMinutes minute (':' :: (padded 2 minute).toList)

/-- The texts of an offset, in minutes: a sign, two digits of hours, and its minutes. -/
def SpellsOffset (offset : Int) (cs : List Char) : Prop :=
  ∃ (negative : Bool) (hour minute : Nat) (tail : List Char), hour < 24 ∧
    SpellsMinutes minute tail ∧
    offset = (if negative then -(60 * hour + minute : Nat) else (60 * hour + minute : Nat) : Int) ∧
    cs = (if negative then '-' else '+') :: ((padded 2 hour).toList ++ tail)

/-! ## Years -/

/-- A printed date with a year of four digits is what is written for it. -/
theorem printed_date_eq_write {d : Date} (hyear : 0 ≤ d.year ∧ d.year ≤ 9999) :
    printedDate d = d.write.toList := by
  simp [printedDate, Date.write, writeYear, hyear]

/-- A number of at least five digits has more than four of them. -/
theorem lt_length_padded {n : Nat} (h : 10000 ≤ n) : 4 < (padded 4 n).toList.length := by
  have hdigits : OnlyDigits (padded 4 n).toList := fun c => mem_padded
  have hlt := Number.Decimal.of_digits_lt hdigits
  rw [of_digits_padded] at hlt
  by_contra hle
  have hpow : 10 ^ (padded 4 n).toList.length ≤ 10 ^ 4 :=
    Nat.pow_le_pow_right (by omega) (Nat.not_lt.mp hle)
  omega

/-- Of digits more than wanted the first ones are taken, and a digit is left. -/
theorem digits_up_to_more {least most : Nat} {ds : List Char} (hds : OnlyDigits ds)
    (hleast : least ≤ most) (hmore : most < ds.length) (rest : List Char) :
    ∃ n c left, digitsUpTo least most (ds ++ rest) = some (n, c :: left) ∧ c.isDigit = true := by
  have htake : (ds ++ rest).take most = ds.take most :=
    List.take_append_of_le_length (Nat.le_of_lt hmore)
  have hfound : (ds.take most).takeWhile Char.isDigit = ds.take most := by
    rw [List.takeWhile_eq_self_iff]
    exact fun c hc => hds c (List.mem_of_mem_take hc)
  have hlength : (ds.take most).length = most := List.length_take_of_le (Nat.le_of_lt hmore)
  refine ⟨ofDigits (ds.take most), ds[most], ds.drop (most + 1) ++ rest, ?_,
    hds _ (List.getElem_mem hmore)⟩
  rw [digitsUpTo, htake, hfound, hlength, if_neg (Nat.not_lt.mpr hleast),
    List.drop_append_of_le_length (Nat.le_of_lt hmore), List.drop_eq_getElem_cons hmore,
    List.cons_append]

/-- A year without a sign is read from up to four digits. -/
theorem year_field_unsigned {c : Char} (h : c.isDigit = true) (rest : List Char) :
    yearField (c :: rest) =
      (digitsUpTo 1 4 (c :: rest)).map fun (n, rest) => (Int.ofNat n, rest) := by
  obtain ⟨hminus, hplus, -⟩ := Number.digit_ne h
  rw [yearField, Text.trim_start_cons (digit_not_blank h)]
  simp [hminus, hplus]

/-- A year of more than four digits is not read without a sign. -/
theorem date_fields_long_year {d : Date} (hyear : 10000 ≤ d.year) (rest : List Char) :
    dateFields .tight (printedDate d ++ rest) = none := by
  obtain ⟨c, ds, hcons, hc⟩ := exists_padded_cons 4 d.year.toNat
  have hdigits : OnlyDigits (padded 4 d.year.toNat).toList := fun c => mem_padded
  have hmore : 4 < (padded 4 d.year.toNat).toList.length := lt_length_padded (by omega)
  have hyearField (behind : List Char) : ∃ n digit left,
      yearField ((padded 4 d.year.toNat).toList ++ behind) = some (n, digit :: left) ∧
        digit.isDigit = true := by
    obtain ⟨n, digit, left, hread, hdigit⟩ :=
      digits_up_to_more hdigits (by omega : 1 ≤ 4) hmore behind
    rw [hcons, List.cons_append] at hread ⊢
    exact ⟨_, digit, left, by rw [year_field_unsigned hc, hread]; rfl, hdigit⟩
  rw [printedDate, List.append_assoc, dateFields]
  obtain ⟨n, digit, left, hread, hdigit⟩ := hyearField _
  -- Where the hyphen should be there is another digit.
  have hhyphen : digit ≠ '-' := (Number.digit_ne hdigit).1
  rw [hread]
  simp [Spacing.mark, mark, hhyphen]

/-! ## Times of day and offsets -/

/-- A fraction is read in front of what does not go on with it. -/
theorem fraction_spelled {nano : Nat} {cs rest : List Char} (h : SpellsFraction nano cs)
    (hrest : StopsTime rest) : fraction (cs ++ rest) = some (nano, rest) := by
  cases h with
  | none =>
      cases rest with
      | nil => rfl
      | cons c rest =>
          have hc : c ≠ '.' := (hrest c rfl).2
          simp [fraction, hc]
  | @digits ds hne hds hnine =>
      obtain ⟨htake, hdrop⟩ := Number.take_digits hds fun c hc => (hrest c hc).1
      rw [List.cons_append, fraction, htake, hdrop, if_neg (by simpa using hne),
        List.take_of_length_le hnine]
      rfl

/-- A fraction and what follows it do not go on with the seconds. -/
theorem stops_fraction {nano : Nat} {cs rest : List Char} (h : SpellsFraction nano cs)
    (hrest : StopsTime rest) : Stops (cs ++ rest) := by
  cases h with
  | none => exact fun c hc => (hrest c hc).1
  | digits => exact stops_cons rfl _

/-- A time of day is read in front of what does not go on with it. -/
theorem time_fields_spelled (s : Spacing) {t : TimeOfDay} {cs rest : List Char}
    (h : SpellsTime t cs) (hrest : StopsTime rest) :
    timeFields s (cs ++ rest) = some ((t.hour, t.minute, t.second, t.nano), rest) := by
  obtain ⟨fraction, hfraction, rfl⟩ := h
  obtain ⟨hhour, hminute, hsecond, -⟩ := t.valid
  have hread := fraction_spelled hfraction hrest
  have hstops := stops_fraction hfraction hrest
  have hcolon (more : List Char) : Stops (':' :: more) := stops_cons rfl more
  have hmark := mark_cons s (c := ':') rfl
  simp only [List.append_assoc, List.cons_append]
  rw [timeFields, short_field_padded (by omega) (hcolon _)]
  simp [hmark, short_field_padded (show t.minute < 100 by omega) (hcolon _),
    short_field_padded (show t.second < 100 by omega) hstops, hread]

/-- Two digits are read as a number below a hundred. -/
theorem digits_up_to_padded {n : Nat} (h : n < 100) {rest : List Char} (hrest : Stops rest) :
    digitsUpTo 2 2 ((padded 2 n).toList ++ rest) = some (n, rest) := by
  have hlength : (padded 2 n).toList.length = 2 := length_padded (by omega) (by omega)
  rw [digits_up_to_append (fun c => mem_padded) (by omega) (by omega) hrest, of_digits_padded]

/-- The minutes of an offset are read up to the end of the text. -/
theorem minutes_spelled {minute : Nat} {cs : List Char} (h : SpellsMinutes minute cs) :
    Stops cs ∧ minute < 60 ∧ (OffsetColon.free.skip cs).bind (offsetMinutes true) =
      some (minute, []) := by
  cases h with
  | none => exact ⟨stops_nil, by omega, rfl⟩
  | @colon minute hminute =>
      refine ⟨stops_cons rfl _, hminute, ?_⟩
      have hread := digits_up_to_padded (n := minute) (by omega) stops_nil
      have hlength : (padded 2 minute).toList.length = 2 := length_padded (by omega) (by omega)
      obtain ⟨c, ds, hcons, hc⟩ := exists_padded_cons 2 minute
      have hcolon : c ≠ ':' := by
        rintro rfl
        exact absurd hc (by decide)
      rw [List.append_nil] at hread
      rw [hcons] at hread hlength ⊢
      obtain ⟨d, hd⟩ : ∃ d, ds = [d] := List.length_eq_one_iff.mp (by simpa using hlength)
      subst hd
      simp [OffsetColon.skip, hcolon, digit_not_blank hc, offsetMinutes, hread, hminute]

/-- An offset is read up to the end of the text. -/
theorem offset_spelled {minutes : Int} {cs : List Char} (h : SpellsOffset minutes cs) :
    offset .free true cs = some (minutes, []) := by
  obtain ⟨negative, hour, minute, tail, hhour, htail, rfl, rfl⟩ := h
  obtain ⟨hstops, hminute, hread⟩ := minutes_spelled htail
  have hhours := digits_up_to_padded (n := hour) (by omega) hstops
  obtain ⟨behind, hskip, hminutes⟩ := Option.bind_eq_some_iff.mp hread
  cases negative with
  | false => simp [offset, offsetSign, hhours, hskip, hminutes, hhour]
  | true => simp [offset, offsetSign, hhours, hskip, hminutes, hhour]

/-- An offset starts with a sign, so that it does not go on with a time of day. -/
theorem offset_starts {minutes : Int} {cs : List Char} (h : SpellsOffset minutes cs) :
    StopsTime cs ∧ Text.trimStart cs = cs := by
  obtain ⟨negative, hour, minute, tail, -, -, -, rfl⟩ := h
  cases negative with
  | false =>
      refine ⟨?_, Text.trim_start_cons rfl⟩
      intro c hc
      obtain rfl := Option.some.inj hc
      decide
  | true =>
      refine ⟨?_, Text.trim_start_cons rfl⟩
      intro c hc
      obtain rfl := Option.some.inj hc
      decide

/-- An offset is less than a day. -/
theorem offset_bounds {minutes : Int} {cs : List Char} (h : SpellsOffset minutes cs) :
    -minutesPerDay < minutes ∧ minutes < minutesPerDay := by
  obtain ⟨negative, hour, minute, tail, hhour, htail, rfl, -⟩ := h
  have hminute := (minutes_spelled htail).2.1
  unfold minutesPerDay
  cases negative with
  | false =>
      simp only [Bool.false_eq_true, if_false]
      omega
  | true =>
      simp only [if_true]
      omega

/-! ## Literals -/

/-- A printed date is read exactly if its year has at most four digits. -/
theorem read_date_printed {d : Date} (hyear : 0 ≤ d.year) :
    readDate (printedDate d) = if d.year ≤ 9999 then some d else none := by
  by_cases hshort : d.year ≤ 9999
  · rw [if_pos hshort, printed_date_eq_write ⟨hyear, hshort⟩]
    simp [readDate, date_fields_at_end, date_of_fields, atEnd]
  · have hlong := date_fields_long_year (d := d) (by omega) []
    rw [List.append_nil] at hlong
    rw [if_neg hshort, readDate, hlong]
    rfl

/-- A printed date with a year of four digits and a time of day behind a blank are read in front of
what does not go on with them. -/
theorem spaced_fields_printed {d : Date} {t : TimeOfDay} {time rest : List Char}
    (hyear : 0 ≤ d.year ∧ d.year ≤ 9999) (htime : SpellsTime t time) (hrest : StopsTime rest) :
    spacedFields (printedDate d ++ ' ' :: (time ++ rest)) =
      some (((d.year, d.month, d.day), (t.hour, t.minute, t.second, t.nano)), rest) := by
  have hdate := date_fields_write .tight d (stops_cons (c := ' ') rfl (time ++ rest))
  have hread := time_fields_spelled .tight htime hrest
  have htrim : Text.trimStart (' ' :: (time ++ rest)) = time ++ rest := by
    obtain ⟨fraction, -, rfl⟩ := htime
    rw [Text.trim_start_cons_blank rfl, List.append_assoc]
    exact trim_start_padded 2 t.hour _
  rw [printed_date_eq_write hyear, spacedFields, hdate]
  simp [htrim, hread]

/-- A printed date and a time of day behind a blank are read exactly if the year has at most four
digits. -/
theorem read_date_time_printed {d : Date} {t : TimeOfDay} {time : List Char} (hyear : 0 ≤ d.year)
    (htime : SpellsTime t time) :
    readDateTime (printedDate d ++ ' ' :: time) =
      if d.year ≤ 9999 then some ⟨d, t⟩ else none := by
  by_cases hshort : d.year ≤ 9999
  · have hfields := spaced_fields_printed ⟨hyear, hshort⟩ htime stops_time_nil
    have hlocal := local_of_fields ⟨d, t⟩
    rw [List.append_nil] at hfields
    rw [if_pos hshort, readDateTime, readSpacedDateTime, hfields]
    simp [hlocal, atEnd]
  · have hlong := date_fields_long_year (d := d) (by omega) (' ' :: time)
    rw [if_neg hshort, readDateTime, readSpacedDateTime, readMarkedDateTime, spacedFields, hlong]
    rfl

/-- A printed date-time with an offset, its year of four digits, is read as the moment of the
date-time at the offset. -/
theorem read_instant_printed {l : LocalDateTime} {minutes : Int} {time ending : List Char}
    (hyear : 0 ≤ l.date.year ∧ l.date.year ≤ 9999) (htime : SpellsTime l.time time)
    (hoffset : SpellsOffset minutes ending) {i : Instant} (h : l.atOffset? minutes = some i) :
    readInstant (printedDate l.date ++ ' ' :: (time ++ ending)) = some i := by
  obtain ⟨hstops, htrim⟩ := offset_starts hoffset
  have hfields := spaced_fields_printed hyear htime hstops
  have hlocal := local_of_fields l
  rw [readInstant, readOffsetDateTime, hfields]
  simp [hlocal, htrim, offset_spelled hoffset, h, atEnd]

/-! ## Moments at offset zero -/

/-- The texts of a year in documents: four digits, or a sign and at least four digits where four
are not enough. -/
inductive SpellsYear : Int → List Char → Prop where
  | short {n : Nat} (h : n ≤ 9999) : SpellsYear n (padded 4 n).toList
  | late {n : Nat} (h : 9999 < n) : SpellsYear n ('+' :: (padded 4 n).toList)
  | early {n : Nat} (h : 0 < n) : SpellsYear (-n) ('-' :: (padded 4 n).toList)

/-- The texts of a date-time at offset zero: the date, a `T`, the time of day and a `Z`. -/
def SpellsUtc (l : LocalDateTime) (cs : List Char) : Prop :=
  ∃ year time, SpellsYear l.date.year year ∧ SpellsTime l.time time ∧
    cs = year ++ '-' :: ((padded 2 l.date.month).toList ++ '-' ::
      ((padded 2 l.date.day).toList ++ 'T' :: (time ++ ['Z'])))

/-- What is written for a year spells it. -/
theorem spells_year_write (year : Int) : SpellsYear year (writeYear year).toList := by
  unfold writeYear
  split
  · rename_i hshort
    have hyear : (year.toNat : Int) = year := Int.toNat_of_nonneg hshort.1
    exact hyear ▸ SpellsYear.short (n := year.toNat) (by omega)
  · rename_i hlong
    have htext (mark : Char) (n : Nat) : (String.singleton mark ++ padded 4 n).toList =
        mark :: (padded 4 n).toList := by
      simp
    split
    · have hyear : -(year.natAbs : Int) = year := by omega
      have hspells := SpellsYear.early (n := year.natAbs) (by omega)
      rw [hyear] at hspells
      exact htext '-' year.natAbs ▸ hspells
    · have hyear : (year.natAbs : Int) = year := by omega
      have hspells := SpellsYear.late (n := year.natAbs) (by omega)
      rw [hyear] at hspells
      exact htext '+' year.natAbs ▸ hspells

/-- What is written for the nanoseconds of a second spells them. -/
theorem spells_fraction_write {nano : Nat} (h : nano < nanosPerSecond) :
    SpellsFraction nano (writeFraction nano).toList := by
  have hpoint (width value : Nat) (hwidth : 0 < width) (hnine : width ≤ 9)
      (hvalue : value < 10 ^ width) :
      SpellsFraction (value * 10 ^ (9 - width)) ("." ++ padded width value).toList := by
    have hlength := length_padded hwidth hvalue
    have hne : (padded width value).toList ≠ [] :=
      List.ne_nil_of_length_pos (by omega)
    have hspells := SpellsFraction.digits hne (fun c => mem_padded) (by omega)
    rw [of_digits_padded, hlength] at hspells
    simpa using hspells
  have hnano : nano < 1000000000 := h
  unfold writeFraction
  split
  · rename_i hzero
    subst hzero
    exact .none
  · split
    · have hspells := hpoint 3 (nano / 1000000) (by omega) (by omega) (by omega)
      have hvalue : nano / 1000000 * 10 ^ (9 - 3) = nano := by omega
      rwa [hvalue] at hspells
    · split
      · have hspells := hpoint 6 (nano / 1000) (by omega) (by omega) (by omega)
        have hvalue : nano / 1000 * 10 ^ (9 - 6) = nano := by omega
        rwa [hvalue] at hspells
      · have hspells := hpoint 9 nano (by omega) (by omega) (by omega)
        rwa [Nat.sub_self, Nat.pow_zero, Nat.mul_one] at hspells

/-- What is written for a moment spells its date-time at offset zero. -/
theorem spells_utc_write (i : Instant) : SpellsUtc i.utc i.write.toList := by
  obtain ⟨-, -, -, hnano⟩ := i.utc.time.valid
  refine ⟨_, i.utc.time.write.toList, spells_year_write i.utc.date.year,
    ⟨_, spells_fraction_write hnano, ?_⟩, ?_⟩
  · simp [TimeOfDay.write]
  · simp [Instant.write, LocalDateTime.write, Date.write]

end ChangeFeed.Calendar
