import ChangeFeed.Calendar.Basic
import ChangeFeed.Number.Decimal
import ChangeFeed.Text.Blank

/-!
# Reading dates and times

Two families of forms are read. Literals are what a database prints: fields one after the other,
blanks allowed before each number and between date and time. Stored forms are those of documents,
where blanks may also stand before the separators. `readRfc3339` takes the strict internet form.

A reader takes the start of a text and gives the rest back.
-/

namespace ChangeFeed.Calendar

/-- The least to the most leading digits of a text, as a number. -/
def digitsUpTo (least most : Nat) (cs : List Char) : Option (Nat × List Char) :=
  let found := (cs.take most).takeWhile Char.isDigit
  if found.length < least then none
  else some (Number.Decimal.ofDigits found, cs.drop found.length)

/-- One or two digits after blanks. -/
def shortField (cs : List Char) : Option (Nat × List Char) :=
  digitsUpTo 1 2 (Text.trimStart cs)

/-- A year after blanks: up to four digits, or a sign and any number of digits. -/
def yearField (cs : List Char) : Option (Int × List Char) :=
  match Text.trimStart cs with
  | '-' :: rest =>
    (digitsUpTo 1 rest.length rest).map fun (n, rest) => (-Int.ofNat n, rest)
  | '+' :: rest => (digitsUpTo 1 rest.length rest).map fun (n, rest) => (Int.ofNat n, rest)
  | cs => (digitsUpTo 1 4 cs).map fun (n, rest) => (Int.ofNat n, rest)

/-- A given character. -/
def mark (c : Char) : List Char → Option (List Char)
  | first :: rest => if first = c then some rest else none
  | [] => none

/-- How separators may be preceded. -/
inductive Spacing where
  /-- Separators follow the fields directly. -/
  | tight
  /-- Blanks may stand before separators. -/
  | loose

/-- A separator, after blanks where the spacing allows them. -/
def Spacing.mark (s : Spacing) (c : Char) (cs : List Char) : Option (List Char) :=
  match s with
  | .tight => Calendar.mark c cs
  | .loose => Calendar.mark c (Text.trimStart cs)

/-- Year, month and day with hyphens. -/
def dateFields (s : Spacing) (cs : List Char) : Option ((Int × Nat × Nat) × List Char) := do
  let (year, cs) ← yearField cs
  let cs ← s.mark '-' cs
  let (month, cs) ← shortField cs
  let cs ← s.mark '-' cs
  let (day, cs) ← shortField cs
  return ((year, month, day), cs)

/-- The nanoseconds of a fraction; digits after the ninth do not count. -/
def fraction : List Char → Option (Nat × List Char)
  | '.' :: cs =>
    let found := cs.takeWhile Char.isDigit
    if found.isEmpty then none
    else
      let kept := found.take 9
      some (Number.Decimal.ofDigits kept * Nat.pow 10 (9 - kept.length), cs.dropWhile Char.isDigit)
  | cs => some (0, cs)

/-- Hour, minute, second and nanoseconds with colons. -/
def timeFields (s : Spacing) (cs : List Char) :
    Option ((Nat × Nat × Nat × Nat) × List Char) := do
  let (hour, cs) ← shortField cs
  let cs ← s.mark ':' cs
  let (minute, cs) ← shortField cs
  let cs ← s.mark ':' cs
  let (second, cs) ← shortField cs
  let (nano, cs) ← fraction cs
  return ((hour, minute, second, nano), cs)

/-- The date of its fields. -/
def dateOf : Int × Nat × Nat → Option Date
  | (year, month, day) => Date.ofParts? year month day

/-- The time of its fields. -/
def timeOf : Nat × Nat × Nat × Nat → Option TimeOfDay
  | (hour, minute, second, nano) => TimeOfDay.ofParts? hour minute second nano

/-- The local date-time of its fields. -/
def localOf (d : Int × Nat × Nat) (t : Nat × Nat × Nat × Nat) : Option LocalDateTime := do
  let date ← dateOf d
  let time ← timeOf t
  return ⟨date, time⟩

/-- Succeeds at the end of a text only. -/
def atEnd {α : Type} (cs : List Char) (value : Option α) : Option α :=
  if cs.isEmpty then value else none

/-- What may stand between the hours and the minutes of an offset. -/
inductive OffsetColon where
  /-- Any run of blanks and colons. -/
  | free
  /-- Exactly one colon. -/
  | required

/-- The text after the separator inside an offset. -/
def OffsetColon.skip (o : OffsetColon) (cs : List Char) : Option (List Char) :=
  match o with
  | .free => some (cs.dropWhile fun c => c == ':' || Text.isBlank c)
  | .required => mark ':' cs

/-- The sign of an offset; the minus sign of typography counts too. -/
def offsetSign : List Char → Option (Bool × List Char)
  | '+' :: rest => some (false, rest)
  | '-' :: rest => some (true, rest)
  | '\u2212' :: rest => some (true, rest)
  | _ => none

/-- The minutes of an offset: two digits below sixty. Where they may be missing, nothing may
follow. -/
def offsetMinutes (mayMiss : Bool) : List Char → Option (Nat × List Char)
  | [] => if mayMiss then some (0, []) else none
  | [_] => none
  | cs => do
    let (minutes, rest) ← digitsUpTo 2 2 cs
    if minutes < 60 then some (minutes, rest) else none

/-- An offset in minutes: a `Z`, or a sign, two digits of hours and the minutes. -/
def offset (colon : OffsetColon) (mayMiss : Bool) (cs : List Char) : Option (Int × List Char) :=
  match cs with
  | 'Z' :: rest => some (0, rest)
  | 'z' :: rest => some (0, rest)
  | _ => do
    let (negative, cs) ← offsetSign cs
    let (hours, cs) ← digitsUpTo 2 2 cs
    let cs ← colon.skip cs
    let (minutes, cs) ← offsetMinutes mayMiss cs
    let total := Int.ofNat (60 * hours + minutes)
    if hours < 24 then some (if negative then -total else total, cs) else none

/-! ## Literals -/

/-- A date as a database prints it. -/
def readDate (cs : List Char) : Option Date := do
  let (d, cs) ← dateFields .tight cs
  atEnd cs (dateOf d)

/-- A time of day as a database prints it. -/
def readTime (cs : List Char) : Option TimeOfDay := do
  let (t, cs) ← timeFields .tight cs
  atEnd cs (timeOf t)

/-- Date and time with blanks or nothing between them. -/
def spacedFields (cs : List Char) :
    Option (((Int × Nat × Nat) × (Nat × Nat × Nat × Nat)) × List Char) := do
  let (d, cs) ← dateFields .tight cs
  let (t, cs) ← timeFields .tight (Text.trimStart cs)
  return ((d, t), cs)

/-- A local date-time as a database prints it. -/
def readSpacedDateTime (cs : List Char) : Option LocalDateTime := do
  let ((d, t), cs) ← spacedFields cs
  atEnd cs (localOf d t)

/-- A local date-time with a `T` between its parts. -/
def readMarkedDateTime (cs : List Char) : Option LocalDateTime := do
  let (d, cs) ← dateFields .tight cs
  let cs ← mark 'T' cs
  let (t, cs) ← timeFields .tight cs
  atEnd cs (localOf d t)

/-- A local date-time in either form. -/
def readDateTime (cs : List Char) : Option LocalDateTime :=
  (readSpacedDateTime cs).or (readMarkedDateTime cs)

/-- A date-time with an offset as a database prints it. -/
def readOffsetDateTime (cs : List Char) : Option Instant := do
  let ((d, t), cs) ← spacedFields cs
  let (offset, cs) ← offset .free true (Text.trimStart cs)
  let l ← localOf d t
  atEnd cs (l.atOffset? offset)

/-- A moment in the strict internet form: fields of fixed width, a separator that is a `T` or a
blank, and an offset with a colon. -/
def readRfc3339 (cs : List Char) : Option Instant := do
  let (year, cs) ← digitsUpTo 4 4 cs
  let cs ← mark '-' cs
  let (month, cs) ← digitsUpTo 2 2 cs
  let cs ← mark '-' cs
  let (day, cs) ← digitsUpTo 2 2 cs
  let separator :: cs := cs | none
  if separator = 'T' ∨ separator = 't' ∨ separator = ' ' then
    let (hour, cs) ← digitsUpTo 2 2 cs
    let cs ← mark ':' cs
    let (minute, cs) ← digitsUpTo 2 2 cs
    let cs ← mark ':' cs
    let (second, cs) ← digitsUpTo 2 2 cs
    let (nano, cs) ← fraction cs
    let (offset, cs) ← offset .required false cs
    let l ← localOf (Int.ofNat year, month, day) (hour, minute, second, nano)
    atEnd cs (l.atOffset? offset)
  else none

/-- A moment in either form. -/
def readInstant (cs : List Char) : Option Instant :=
  (readOffsetDateTime cs).or (readRfc3339 cs)

/-! ## Stored forms -/

/-- A stored date. -/
def readStoredDate (cs : List Char) : Option Date := do
  let (d, cs) ← dateFields .loose cs
  atEnd (Text.trimStart cs) (dateOf d)

/-- A stored time of day; the seconds may be missing. -/
def readStoredTime (cs : List Char) : Option TimeOfDay :=
  match timeFields .loose cs with
  | some (t, rest) => atEnd (Text.trimStart rest) (timeOf t)
  | none => do
    let (hour, cs) ← shortField cs
    let cs ← Spacing.loose.mark ':' cs
    let (minute, cs) ← shortField cs
    atEnd (Text.trimStart cs) (timeOf (hour, minute, 0, 0))

/-- A stored local date-time. -/
def readStoredDateTime (cs : List Char) : Option LocalDateTime := do
  let (d, cs) ← dateFields .loose cs
  let cs ← Spacing.loose.mark 'T' cs
  let (t, cs) ← timeFields .loose cs
  atEnd (Text.trimStart cs) (localOf d t)

/-- The offset of a stored moment, which may be spelt `UTC`. -/
def storedOffset (cs : List Char) : Option (Int × List Char) :=
  match cs with
  | u :: t :: c :: rest =>
    if [u, t, c].map Char.toLower = ['u', 't', 'c'] then some (0, rest)
    else offset .free false cs
  | _ => offset .free false cs

/-- A stored moment. -/
def readStoredInstant (cs : List Char) : Option Instant := do
  let (d, cs) ← dateFields .loose cs
  let separator :: cs := cs | none
  if separator = 'T' ∨ separator = 't' ∨ separator = ' ' then
    let (t, cs) ← timeFields .loose cs
    let (offset, cs) ← storedOffset (Text.trimStart cs)
    let l ← localOf d t
    atEnd (Text.trimStart cs) (l.atOffset? offset)
  else none

end ChangeFeed.Calendar
