import ChangeFeed.Calendar.Basic
import ChangeFeed.Json.Basic
import ChangeFeed.Number.Decimal

/-!
# Words of TOML

Values that are neither texts nor collections: truth values, integers in four bases, numbers with
a fraction or an exponent, and moments of the calendar. Single underscores may stand between
digits.
-/

namespace ChangeFeed.Toml

/-- Digits without the underscores between them. -/
def joinedDigits (isDigit : Char → Bool) : List Char → Option (List Char)
  | [] => none
  | [c] => if isDigit c then some [c] else none
  | c :: '_' :: rest =>
    if isDigit c then (joinedDigits isDigit rest).map (c :: ·) else none
  | c :: rest => if isDigit c then (joinedDigits isDigit rest).map (c :: ·) else none

/-- Decimal digits that do not start with a needless zero. -/
def wholeDigits (cs : List Char) : Option (List Char) :=
  (joinedDigits Char.isDigit cs).filter fun digits =>
    digits.length = 1 || digits.head? != some '0'

/-- The largest integer. -/
def largest : Nat := Nat.pow 2 63 - 1

/-- An integer in another base than ten. -/
def basedInteger (base : Nat) (cs : List Char) : Option Int := do
  let digits ← joinedDigits (fun c => (Number.digitValue? base c).isSome) cs
  let n ← (Number.readNat base largest digits).toOption
  return n

/-- An integer of 64 bits. -/
def integer? : List Char → Option Int
  | '0' :: 'x' :: rest => basedInteger 16 rest
  | '0' :: 'o' :: rest => basedInteger 8 rest
  | '0' :: 'b' :: rest => basedInteger 2 rest
  | cs => do
    let (negative, rest) := Number.readSign cs
    let digits ← wholeDigits rest
    (Number.readInt (Nat.pow 2 63) largest (if negative then '-' :: digits else digits)).toOption

/-- Whether a character is a digit or an underscore. -/
def isDigitOrMark (c : Char) : Bool :=
  c.isDigit || c == '_'

/-- The digits behind a point, if there is one; and what follows them. -/
def fraction? : List Char → Option (List Char × List Char)
  | '.' :: rest => do
    let digits ← joinedDigits Char.isDigit (rest.takeWhile isDigitOrMark)
    return ('.' :: digits, rest.dropWhile isDigitOrMark)
  | cs => some ([], cs)

/-- An exponent with its mark, if there is one. -/
def exponent? : List Char → Option (List Char)
  | [] => some []
  | mark :: rest =>
    if mark == 'e' || mark == 'E' then
      match rest with
      | '-' :: rest => (joinedDigits Char.isDigit rest).map fun digits => 'e' :: '-' :: digits
      | '+' :: rest => (joinedDigits Char.isDigit rest).map ('e' :: ·)
      | rest => (joinedDigits Char.isDigit rest).map ('e' :: ·)
    else none

/-- A number with a fraction or an exponent. One above the range is none. -/
def real? (cs : List Char) : Option (Number.Binary Number.Format.double) := do
  let (negative, rest) := Number.readSign cs
  if rest = "inf".toList then return Number.Binary.infinite .double negative
  else if rest = "nan".toList then return .nan
  else
    let whole ← wholeDigits (rest.takeWhile isDigitOrMark)
    let (fraction, rest) ← fraction? (rest.dropWhile isDigitOrMark)
    let exponent ← exponent? rest
    if fraction.isEmpty ∧ exponent.isEmpty then none
    else
      let digits := whole ++ fraction ++ exponent
      let value ← (Number.readBinary .double
        (if negative then '-' :: digits else digits)).toOption
      if value = Number.Binary.infinite .double false then none else return value

/-! ## Moments -/

/-- A number of exactly so many digits. -/
def fixedNumber (width : Nat) (cs : List Char) : Option (Nat × List Char) :=
  let digits := cs.take width
  if digits.length = width ∧ digits.all Char.isDigit then
    some (Number.Decimal.ofDigits digits, cs.drop width)
  else none

/-- A date in its normal form. -/
def dateText (cs : List Char) : Option (String × List Char) := do
  let (year, cs) ← fixedNumber 4 cs
  let '-' :: cs := cs | none
  let (month, cs) ← fixedNumber 2 cs
  let '-' :: cs := cs | none
  let (day, cs) ← fixedNumber 2 cs
  let _ ← Calendar.Date.ofParts? year month day
  return (Number.padded 4 year ++ "-" ++ Number.padded 2 month ++ "-" ++ Number.padded 2 day, cs)

/-- The decimals of a second in their normal form: nine at most, without zeros at the end. -/
def decimalsText (digits : List Char) : String :=
  match ((digits.take 9).reverse.dropWhile (· == '0')).reverse with
  | [] => ""
  | digits => "." ++ String.ofList digits

/-- A time of day in its normal form. -/
def timeText (cs : List Char) : Option (String × List Char) := do
  let (hour, cs) ← fixedNumber 2 cs
  let ':' :: cs := cs | none
  let (minute, cs) ← fixedNumber 2 cs
  let ':' :: cs := cs | none
  let (second, cs) ← fixedNumber 2 cs
  let _ ← Calendar.TimeOfDay.ofParts? hour minute second 0
  let (decimals, cs) ← match cs with
    | '.' :: rest =>
      let digits := rest.takeWhile Char.isDigit
      if digits.isEmpty then none else some (digits, rest.dropWhile Char.isDigit)
    | cs => some ([], cs)
  return (Number.padded 2 hour ++ ":" ++ Number.padded 2 minute ++ ":" ++
    Number.padded 2 second ++ decimalsText decimals, cs)

/-- The whole of an offset in its normal form. -/
def offsetText (cs : List Char) : Option String :=
  match cs with
  | [] => some ""
  | ['Z'] => some "Z"
  | ['z'] => some "Z"
  | sign :: rest => do
    if sign ≠ '+' ∧ sign ≠ '-' then none
    else
      let (hour, rest) ← fixedNumber 2 rest
      let ':' :: rest := rest | none
      let (minute, rest) ← fixedNumber 2 rest
      if hour < 24 ∧ minute < 60 ∧ rest = [] then
        let shown := if hour = 0 ∧ minute = 0 then "+" else String.ofList [sign]
        return shown ++ Number.padded 2 hour ++ ":" ++ Number.padded 2 minute
      else none

/-- A date, a time of day or both in their normal form. -/
def moment? (cs : List Char) : Option String :=
  match dateText cs with
  | some (date, []) => some date
  | some (date, mark :: rest) => do
    if mark ≠ 'T' ∧ mark ≠ 't' ∧ mark ≠ ' ' then none
    else
      let (time, rest) ← timeText rest
      let offset ← offsetText rest
      return date ++ "T" ++ time ++ offset
  | none => do
    let (time, rest) ← timeText cs
    if rest.isEmpty then some time else none

/-! ## Words -/

/-- Whether a character belongs to a word. -/
def isWordChar (c : Char) : Bool :=
  c.isAlphanum || c == '_' || c == '+' || c == '-' || c == '.' || c == ':'

/-- The longest word at the start of a text. A date goes on behind one blank with its time. -/
def cutWord (cs : List Char) : List Char × List Char :=
  let word := cs.takeWhile isWordChar
  let rest := cs.dropWhile isWordChar
  match rest with
  | ' ' :: c :: more =>
    if c.isDigit && (dateText word).any (·.2.isEmpty) then
      (word ++ ' ' :: (c :: more).takeWhile isWordChar, (c :: more).dropWhile isWordChar)
    else (word, rest)
  | _ => (word, rest)

/-- The name under which a moment is kept. -/
def momentField : String := "$__toml_private_datetime"

/-- The value of a word. -/
def wordValue (word : List Char) : Option Json :=
  if word = "true".toList then some (.bool true)
  else if word = "false".toList then some (.bool false)
  else
    match moment? word with
    | some text => some (.object [(momentField, .text text)])
    | none => ((integer? word).map Json.integer).or ((real? word).map Json.real)

end ChangeFeed.Toml
