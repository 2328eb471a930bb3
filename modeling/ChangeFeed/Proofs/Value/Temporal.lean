import ChangeFeed.Json.Write
import ChangeFeed.Proofs.Calendar.Literal
import ChangeFeed.Proofs.Value.Typing
import ChangeFeed.Value.Document

/-!
# Dates, local date-times and moments from literals

`printed_date_read_iff` says which printed dates and local date-times are read: those whose year has
at most four digits, although later years belong to the calendar. `moment_of_literal` says that a
date-time with an offset is read as the moment that is its local time less the offset, and that the
document of the value names that moment at offset zero.
-/

namespace ChangeFeed.Value

open Calendar (Date LocalDateTime printedDate SpellsFraction SpellsTime SpellsOffset SpellsYear
  SpellsUtc nanosPerSecond)

/-! ## Dates and local date-times -/

variable {d : Date} {t : Calendar.TimeOfDay} {time : List Char}

/-- A printed date after the year 0 is read exactly if its year has at most four digits, and so is
one with a time of day behind it. Others are refused. -/
theorem printed_date_read_iff (hyear : 1 ≤ d.year) (htime : SpellsTime t time) :
    (ofLiteral .date (String.ofList (printedDate d)) =
      if d.year ≤ 9999 then .ok (.date d)
      else .error ⟨String.ofList (printedDate d), .date, .calendar⟩) ∧
    ofLiteral .localDateTime (String.ofList (printedDate d ++ ' ' :: time)) =
      if d.year ≤ 9999 then .ok (.localDateTime ⟨d, t⟩)
      else .error ⟨String.ofList (printedDate d ++ ' ' :: time), .localDateTime, .calendar⟩ := by
  have hnonneg : 0 ≤ d.year := by omega
  have hdate := Calendar.read_date_printed hnonneg
  have hlocal := Calendar.read_date_time_printed hnonneg htime
  rw [of_literal_scalar .date (by simp), of_literal_scalar .localDateTime (by simp), scalarOf,
    scalarOf, String.toList_ofList, String.toList_ofList, hdate, hlocal]
  by_cases hshort : d.year ≤ 9999
  · simp only [if_pos hshort]
    exact ⟨rfl, rfl⟩
  · simp only [if_neg hshort]
    exact ⟨rfl, rfl⟩

/-- The last day of the year 9999 is read, alone and with a fraction of a second. -/
theorem printed_date_read_iff_last :
    ofLiteral .date "9999-12-31" = .ok (.date ⟨9999, 12, 31, by decide⟩) ∧
      ofLiteral .localDateTime "9999-12-31 23:59:59.5" =
        .ok (.localDateTime ⟨⟨9999, 12, 31, by decide⟩, ⟨23, 59, 59, 500000000, by decide⟩⟩) := by
  have htime : SpellsTime ⟨23, 59, 59, 500000000, by decide⟩ "23:59:59.5".toList :=
    ⟨_, .digits (by decide : ['5'] ≠ []) (by decide) (by decide), by decide +kernel⟩
  have hprinted : printedDate ⟨9999, 12, 31, by decide⟩ = "9999-12-31".toList := by
    decide +kernel
  have hread := printed_date_read_iff (d := ⟨9999, 12, 31, by decide⟩) (by decide) htime
  rw [hprinted] at hread
  exact hread

/-- The first day of the year 10000 is a date of the calendar, but refused as it is printed, alone
and with a time of day. -/
theorem five_digit_year_refused :
    printedDate ⟨10000, 1, 1, by decide⟩ = "10000-01-01".toList ∧
      SpellsTime ⟨0, 0, 0, 0, by decide⟩ "00:00:00".toList ∧
      ofLiteral .date "10000-01-01" = .error ⟨"10000-01-01", .date, .calendar⟩ ∧
      ofLiteral .localDateTime "10000-01-01 00:00:00" =
        .error ⟨"10000-01-01 00:00:00", .localDateTime, .calendar⟩ := by
  refine ⟨by decide +kernel, ⟨[], .none, by decide +kernel⟩, ?_, ?_⟩
  · have hnone : Calendar.readDate "10000-01-01".toList = none := by decide +kernel
    rw [of_literal_scalar .date (by simp), scalarOf, hnone]
    rfl
  · have hnone : Calendar.readDateTime "10000-01-01 00:00:00".toList = none := by decide +kernel
    rw [of_literal_scalar .localDateTime (by simp), scalarOf, hnone]
    rfl

/-! ## Moments -/

/-- A text that a database prints for a local date-time at an offset, in minutes: the year is one
from 1 to 9999, and the second none that leaps. -/
structure PrintsMoment (l : LocalDateTime) (offset : Int) (text : String) : Prop where
  year : 1 ≤ l.date.year ∧ l.date.year ≤ 9999
  second : l.time.second < 60
  spelled : ∃ time ending, SpellsTime l.time time ∧ SpellsOffset offset ending ∧
    text.toList = printedDate l.date ++ ' ' :: (time ++ ending)

/-- The nanoseconds before a local date-time at an offset, at offset zero. -/
def momentNanos (l : LocalDateTime) (offset : Int) : Int :=
  l.nanos - 60 * nanosPerSecond * offset

/-- A printed moment is read as one that is its local time less its offset. -/
theorem exists_moment {l : LocalDateTime} {offset : Int} {text : String}
    (h : PrintsMoment l offset text) :
    ∃ i, ofLiteral .zonedDateTime text = .ok (.zonedDateTime i) ∧
      i.utc.nanos = momentNanos l offset ∧ i.utc.time.second < 60 := by
  obtain ⟨time, ending, htime, hoffset, htext⟩ := h.spelled
  have hbounds := Calendar.offset_bounds hoffset
  have hyear : Calendar.firstYear < l.date.year ∧ l.date.year < Calendar.lastYear := by
    obtain ⟨hlow, hhigh⟩ := h.year
    unfold Calendar.firstYear Calendar.lastYear
    omega
  obtain ⟨i, hi, hnanos, hsecond⟩ := l.at_offset_nanos hbounds hyear
  have hread := Calendar.read_instant_printed (by have := h.year; omega) htime hoffset hi
  refine ⟨i, ?_, hnanos, hsecond ▸ h.second⟩
  rw [of_literal_scalar .zonedDateTime (by simp), scalarOf, htext, hread]
  rfl

/-- A character of a date-time. -/
def IsMomentChar (c : Char) : Prop :=
  c.isDigit = true ∨ c ∈ ['-', '+', ':', '.', 'T', 'Z']

/-- Characters of date-times stand for themselves in the texts of documents. -/
theorem escaped_moment_char {c : Char} (h : IsMomentChar c) : Json.escaped c = [c] := by
  rcases h with hdigit | hmark
  · have hlow : 48 ≤ c.toNat := by
      rw [Char.isDigit, Bool.and_eq_true, decide_eq_true_iff, decide_eq_true_iff] at hdigit
      exact UInt32.le_iff_toNat_le.mp hdigit.1
    unfold Json.escaped
    split
    all_goals first | exact absurd hdigit (by decide) | skip
    rw [if_neg (by omega)]
  · simp only [List.mem_cons, List.not_mem_nil, or_false] at hmark
    rcases hmark with rfl | rfl | rfl | rfl | rfl | rfl <;> rfl

/-- A printed number has digits only. -/
theorem moment_char_of_padded {width n : Nat} {c : Char}
    (h : c ∈ (Number.padded width n).toList) : IsMomentChar c :=
  .inl (Calendar.mem_padded h)

/-- A year has digits only, and maybe a sign in front of them. -/
theorem year_chars {year : Int} {cs : List Char} (h : SpellsYear year cs) :
    ∀ c ∈ cs, IsMomentChar c := by
  cases h with
  | short => exact fun c => moment_char_of_padded
  | late => exact List.forall_mem_cons.mpr ⟨.inr (by decide), fun c => moment_char_of_padded⟩
  | early => exact List.forall_mem_cons.mpr ⟨.inr (by decide), fun c => moment_char_of_padded⟩

/-- A fraction has digits only, behind a point. -/
theorem fraction_chars {nano : Nat} {cs : List Char} (h : SpellsFraction nano cs) :
    ∀ c ∈ cs, IsMomentChar c := by
  cases h with
  | none => exact List.forall_mem_nil _
  | digits hne hds hnine =>
      exact List.forall_mem_cons.mpr ⟨.inr (by decide), fun c hc => .inl (hds c hc)⟩

/-- A date-time at offset zero has no other characters. -/
theorem moment_chars {l : LocalDateTime} {cs : List Char} (h : SpellsUtc l cs) :
    ∀ c ∈ cs, IsMomentChar c := by
  obtain ⟨year, time, hyear, ⟨fraction, hfraction, rfl⟩, rfl⟩ := h
  intro c hc
  simp only [List.mem_append, List.mem_cons, List.not_mem_nil, or_false] at hc
  rcases hc with hc | rfl | hc | rfl | hc | rfl | (hc | rfl | hc | rfl | hc | hc) | rfl
  · exact year_chars hyear c hc
  · exact .inr (by decide)
  · exact moment_char_of_padded hc
  · exact .inr (by decide)
  · exact moment_char_of_padded hc
  · exact .inr (by decide)
  · exact moment_char_of_padded hc
  · exact .inr (by decide)
  · exact moment_char_of_padded hc
  · exact .inr (by decide)
  · exact moment_char_of_padded hc
  · exact fraction_chars hfraction c hc
  · exact .inr (by decide)

/-- The document of a moment is its text, as it is. -/
theorem render_moment {l : LocalDateTime} {text : String} (h : SpellsUtc l text.toList) :
    (kindWith "zoned_date_time" (.text text)).render =
      "\x7b\"kind\":\"zoned_date_time\",\"value\":\"" ++ text ++ "\"\x7d" := by
  have hchars := moment_chars h
  have hplain : text.toList.flatMap Json.escaped = text.toList := by
    rw [List.flatMap_congr fun c hc => escaped_moment_char (hchars c hc)]
    exact List.flatMap_singleton' text.toList
  have hquoted : Json.quotedText text = '"' :: text.toList ++ ['"'] := by
    rw [Json.quotedText, hplain]
  rw [← String.toList_inj]
  simp [Json.render, kindWith, Json.renderChars, Json.renderFields, Json.separated,
    Json.renderLeaf, hquoted]
  rfl

/-- A printed moment is read as its local time less its offset. Another printed moment is read as
the same value exactly if it is the same moment. The document of the value names the moment at
offset zero. -/
theorem moment_of_literal {l : LocalDateTime} {offset : Int} {text : String}
    (h : PrintsMoment l offset text) :
    ∃ i, ofLiteral .zonedDateTime text = .ok (.zonedDateTime i) ∧
      i.utc.nanos = momentNanos l offset ∧
      (∀ {other : LocalDateTime} {otherOffset : Int} {otherText : String},
        PrintsMoment other otherOffset otherText →
          (ofLiteral .zonedDateTime otherText = .ok (.zonedDateTime i) ↔
            momentNanos other otherOffset = momentNanos l offset)) ∧
      ∃ written, SpellsUtc i.utc written.toList ∧ (toJson (.zonedDateTime i)).render =
        "\x7b\"kind\":\"zoned_date_time\",\"value\":\"" ++ written ++ "\"\x7d" := by
  obtain ⟨i, hread, hnanos, hsecond⟩ := exists_moment h
  have hwritten := Calendar.spells_utc_write i
  refine ⟨i, hread, hnanos, ?_, i.write, hwritten, render_moment hwritten⟩
  · intro other otherOffset otherText hother
    obtain ⟨j, hreadOther, hnanosOther, hsecondOther⟩ := exists_moment hother
    rw [hreadOther, ← hnanos, ← hnanosOther]
    constructor
    · intro heq
      obtain rfl : j = i := by simpa using heq
      rfl
    · intro heq
      have hutc := LocalDateTime.eq_of_nanos hsecondOther hsecond heq
      cases i
      cases j
      simp_all

/-- A leap day is reached across the start of a month when an offset with minutes is taken away, and
its own text is read as the same value. -/
theorem moment_of_literal_leap_day :
    PrintsMoment ⟨⟨2024, 3, 1, by decide⟩, ⟨1, 30, 0, 250000000, by decide⟩⟩ 165
        "2024-03-01 01:30:00.25+02:45" ∧
      ∃ i, ofLiteral .zonedDateTime "2024-03-01 01:30:00.25+02:45" = .ok (.zonedDateTime i) ∧
        ofLiteral .zonedDateTime "2024-02-29 22:45:00.250+00" = .ok (.zonedDateTime i) := by
  have hfirst : PrintsMoment ⟨⟨2024, 3, 1, by decide⟩, ⟨1, 30, 0, 250000000, by decide⟩⟩ 165
      "2024-03-01 01:30:00.25+02:45" :=
    ⟨by decide, by decide, "01:30:00.25".toList, "+02:45".toList,
      ⟨_, .digits (by decide : ['2', '5'] ≠ []) (by decide) (by decide), by decide +kernel⟩,
      ⟨false, 2, 45, _, by decide, .colon (by decide), by decide, by decide +kernel⟩,
      by decide +kernel⟩
  have hsecond : PrintsMoment ⟨⟨2024, 2, 29, by decide⟩, ⟨22, 45, 0, 250000000, by decide⟩⟩ 0
      "2024-02-29 22:45:00.250+00" :=
    ⟨by decide, by decide, "22:45:00.250".toList, "+00".toList,
      ⟨_, .digits (by decide : ['2', '5', '0'] ≠ []) (by decide) (by decide), by decide +kernel⟩,
      ⟨false, 0, 0, _, by decide, .none, by decide, by decide +kernel⟩,
      by decide +kernel⟩
  obtain ⟨i, hread, -, hsame, -⟩ := moment_of_literal hfirst
  exact ⟨hfirst, i, hread, (hsame hsecond).mpr (by decide)⟩

end ChangeFeed.Value
