import ChangeFeed.Json.Basic
import ChangeFeed.Number.Decimal

/-!
# Numbers in JSON

An integer that fits 64 bits, signed or not, is kept as it is. Any other number becomes a binary
one in two rounded steps: the leading digits that fit an unsigned integer of 64 bits, and the
product or quotient with a power of ten. A number beyond the largest binary one has no value.
-/

namespace ChangeFeed.Json

open Number (Binary Format)

/-- The spelling of a number. -/
structure Numeral where
  negative : Bool
  whole : List Char
  fraction : List Char
  exponent : Option (Bool × List Char)

namespace Numeral

/-- The digits at the start of a text. -/
def leadingDigits (cs : List Char) : List Char × List Char :=
  (cs.takeWhile Char.isDigit, cs.dropWhile Char.isDigit)

/-- The digits before the point; a zero stands alone. -/
def scanWhole (cs : List Char) : Option (List Char × List Char) :=
  match leadingDigits cs with
  | ([], _) => none
  | ('0' :: _ :: _, _) => none
  | found => some found

/-- The digits after the point, if there is one. -/
def scanFraction : List Char → Option (List Char × List Char)
  | '.' :: rest =>
    match leadingDigits rest with
    | ([], _) => none
    | found => some found
  | cs => some ([], cs)

/-- The sign and the digits of the exponent, if there is one. -/
def scanExponent : List Char → Option (Option (Bool × List Char) × List Char)
  | [] => some (none, [])
  | mark :: rest =>
    if mark == 'e' || mark == 'E' then
      let (negative, cs) := Number.readSign rest
      match leadingDigits cs with
      | ([], _) => none
      | (ds, after) => some (some (negative, ds), after)
    else some (none, mark :: rest)

/-- A number at the start of a text, and the text after it. -/
def scan (cs : List Char) : Option (Numeral × List Char) := do
  let (negative, cs) := match cs with
    | '-' :: rest => (true, rest)
    | _ => (false, cs)
  let (whole, cs) ← scanWhole cs
  let (fraction, cs) ← scanFraction cs
  let (exponent, cs) ← scanExponent cs
  return (⟨negative, whole, fraction, exponent⟩, cs)

/-- Appends digits to a coefficient as long as it stays below `2 ^ 64`; also counts them. -/
def absorb : Nat → List Char → Nat × Nat
  | coefficient, [] => (coefficient, 0)
  | coefficient, c :: rest =>
    let next := 10 * coefficient + (c.toNat - '0'.toNat)
    if next < Nat.pow 2 64 then
      let (final, count) := absorb next rest
      (final, count + 1)
    else (coefficient, 0)

/-- The rounded product of two magnitudes. -/
def product (a b : Nat) : Nat :=
  let (n, d) := Binary.quotientOf Format.double a
  let (m, e) := Binary.quotientOf Format.double b
  Format.double.round (n * m) (d * e)

/-- The rounded quotient of two magnitudes. -/
def quotient (a b : Nat) : Nat :=
  let (n, d) := Binary.quotientOf Format.double a
  let (m, e) := Binary.quotientOf Format.double b
  Format.double.round (n * e) (d * m)

/-- The magnitude of a power of ten. -/
def powerOfTen (n : Nat) : Nat :=
  Format.double.round (Nat.pow 10 n) 1

/-- The last power of ten below infinity. -/
def lastPower : Nat := 308

/-- A magnitude divided by `10 ^ n`, in as many rounded steps as the powers of ten allow. -/
def scaledDown (magnitude n : Nat) : Nat :=
  if _h : n ≤ lastPower then quotient magnitude (powerOfTen n)
  else if magnitude = 0 then 0
  else scaledDown (quotient magnitude (powerOfTen lastPower)) (n - lastPower)
termination_by n
decreasing_by simp only [lastPower] at *; omega

/-- A magnitude times a power of ten, unless that is beyond the largest one. -/
def scaledByTen (magnitude : Nat) (exponent : Int) : Option Nat :=
  if exponent < 0 then some (scaledDown magnitude (-exponent).toNat)
  else if exponent.toNat ≤ lastPower then
    let scaled := product magnitude (powerOfTen exponent.toNat)
    if scaled = Format.double.infinity then none else some scaled
  else if magnitude = 0 then some 0
  else none

/-- The binary number that a spelling stands for. -/
def toBinary (n : Numeral) : Option (Binary Format.double) := do
  let (kept, wholeCount) := absorb 0 n.whole
  let (coefficient, fractionCount) := absorb kept n.fraction
  let shift : Int := (n.whole.length - wholeCount : Nat) - fractionCount
  let exponent : Int := match n.exponent with
    | none => shift
    | some (negative, ds) =>
      let e := Int.ofNat (Number.Decimal.ofDigits ds)
      if negative then shift - e else shift + e
  let magnitude ← scaledByTen (Format.double.round coefficient 1) exponent
  if h : magnitude ≤ Format.double.infinity then some (.signed n.negative magnitude h) else none

/-- The value of a number: an integer if it is spelt as one and fits 64 bits. -/
def value (n : Numeral) : Json :=
  let whole := Number.Decimal.ofDigits n.whole
  let integral := n.fraction.isEmpty && n.exponent.isNone
  if integral && !n.negative && decide (whole < Nat.pow 2 64) then .integer whole
  else if integral && n.negative && decide (0 < whole ∧ whole ≤ Nat.pow 2 63) then .integer (-whole)
  else match n.toBinary with
    | some x => .real x
    | none => .unusable

end Numeral

end ChangeFeed.Json
