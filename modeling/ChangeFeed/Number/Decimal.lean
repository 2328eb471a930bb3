import ChangeFeed.Number.Binary
import ChangeFeed.Number.Integer

/-!
# Decimal numbers in text

A decimal number is an integer coefficient times a power of ten. `Decimal.read` reads it from
text exactly, and `Decimal.toBinary` rounds it once. Words stand for infinity and for what is not
a number.
-/

namespace ChangeFeed.Number

/-- Why a text is no decimal number. -/
inductive DecimalFault where
  | empty
  | malformed
  deriving DecidableEq, Repr

/-- The wording of a fault. -/
def DecimalFault.message : DecimalFault → String
  | .empty => "cannot parse float from empty string"
  | .malformed => "invalid float literal"

/-- A sign, and a coefficient times a power of ten. -/
structure Decimal where
  negative : Bool
  coefficient : Nat
  exponent : Int
  deriving DecidableEq, Repr

namespace Decimal

/-- The number that decimal digits stand for. -/
def ofDigits (cs : List Char) : Nat :=
  cs.foldl (fun n c => 10 * n + (c.toNat - '0'.toNat)) 0

/-- The exponent that follows a mantissa: none at all, or a mark, a sign and digits. -/
def readExponent : List Char → Option Int
  | [] => some 0
  | mark :: rest =>
    if mark == 'e' || mark == 'E' then
      let (negative, cs) := match rest with
        | '-' :: cs => (true, cs)
        | '+' :: cs => (false, cs)
        | cs => (false, cs)
      if cs.isEmpty || !cs.all Char.isDigit then none
      else some (if negative then -Int.ofNat (ofDigits cs) else Int.ofNat (ofDigits cs))
    else none

/-- A number without a sign: digits with a point among or around them, and an exponent. -/
def readMagnitude (cs : List Char) : Option (Nat × Int) :=
  let whole := cs.takeWhile Char.isDigit
  let (fraction, tail) := match cs.dropWhile Char.isDigit with
    | '.' :: rest => (rest.takeWhile Char.isDigit, rest.dropWhile Char.isDigit)
    | rest => ([], rest)
  if whole.isEmpty && fraction.isEmpty then none
  else (readExponent tail).map fun e => (ofDigits (whole ++ fraction), e - fraction.length)

/-- The number nearest to a decimal one. Beyond any format's range the digits do not matter. -/
def toBinary (f : Format) (d : Decimal) : Binary f :=
  let order : Int := (digits 10 d.coefficient).length + d.exponent
  if d.coefficient = 0 ∨ order < -400 then Binary.zero f d.negative
  else if 400 < order then Binary.infinite f d.negative
  else
    Binary.ofQuotient f d.negative (d.coefficient * Nat.pow 10 d.exponent.toNat)
      (Nat.pow 10 (-d.exponent).toNat)

end Decimal

/-- The sign in front of a number, and the text after it. -/
def readSign : List Char → Bool × List Char
  | '-' :: rest => (true, rest)
  | '+' :: rest => (false, rest)
  | cs => (false, cs)

/-- A number from text: decimal notation, or a word in any case, after an optional sign. -/
def readBinary (f : Format) (cs : List Char) : Except DecimalFault (Binary f) :=
  if cs.isEmpty then .error .empty
  else
    let (negative, rest) := readSign cs
    match Decimal.readMagnitude rest with
    | some (coefficient, exponent) =>
      .ok (Decimal.toBinary f ⟨negative, coefficient, exponent⟩)
    | none =>
      let word := String.ofList (rest.map Char.toLower)
      if word = "nan" then .ok .nan
      else if word = "inf" ∨ word = "infinity" then .ok (Binary.infinite f negative)
      else .error .malformed

end ChangeFeed.Number
