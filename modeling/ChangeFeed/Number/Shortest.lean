import ChangeFeed.Number.Binary
import ChangeFeed.Number.Integer

/-!
# The shortest decimal that reads back

Among the decimals that round to a given binary number, the ones with the fewest digits, and of
those the nearest. The search goes through grids of growing fineness; on each it looks at the two
neighbours of the number.
-/

namespace ChangeFeed.Number

/-- A magnitude and the bounds of what rounds to it, over one denominator. -/
structure Interval where
  low : Nat
  value : Nat
  high : Nat
  denominator : Nat
  closed : Bool

/-- The decimals that round to a magnitude. The gap below a power of two is half as wide. -/
def Format.interval (f : Format) (magnitude : Nat) : Interval :=
  let (significand, exponent) := f.decode magnitude
  let below := if significand = f.hidden ∧ f.minExponent < exponent then 1 else 2
  let up := Nat.pow 2 (exponent - 2).toNat
  { low := (4 * significand - below) * up
    value := 4 * significand * up
    high := (4 * significand + 2) * up
    denominator := Nat.pow 2 (2 - exponent).toNat
    closed := significand % 2 = 0 }

namespace Interval

/-- Whether `num / den` lies in the interval. -/
def holds (i : Interval) (num den : Nat) : Bool :=
  let scaled := num * i.denominator
  if i.closed then i.low * den ≤ scaled && scaled ≤ i.high * den
  else i.low * den < scaled && scaled < i.high * den

/-- The exponent of the first digit of the value. -/
def order (i : Interval) : Int :=
  if i.denominator ≤ i.value then
    ((digits 10 (i.value / i.denominator)).length - 1 : Nat)
  else
    match (List.range 400).find? fun k => i.denominator ≤ i.value * Nat.pow 10 (k + 1) with
    | some k => -(k + 1 : Nat)
    | none => -400

/-- The multiple of `10 ^ exponent` in the interval that is nearest to the value; of two equally
near ones the even one. -/
def onGrid (i : Interval) (exponent : Int) : Option Nat :=
  let up := Nat.pow 10 exponent.toNat
  let down := Nat.pow 10 (-exponent).toNat
  let num := i.value * down
  let den := i.denominator * up
  let below := num / den
  let above := below + 1
  match i.holds (below * up) down, i.holds (above * up) down with
  | true, true => some (nearestEven num den)
  | true, false => some below
  | false, true => some above
  | false, false => none

end Interval

/-- Digits and the exponent of the first one: the value is `d.ddd * 10 ^ exponent`. -/
structure Scientific where
  digits : List Char
  exponent : Int
  deriving DecidableEq, Repr

/-- A multiple of a power of ten, written without zeros at its end. -/
def Scientific.ofMultiple (multiple : Nat) (exponent : Int) : Scientific :=
  let ds := Number.digits 10 multiple
  { digits := (ds.reverse.dropWhile (· == '0')).reverse
    exponent := exponent + (ds.length - 1 : Nat) }

/-- The shortest decimal of a positive finite magnitude. -/
def Format.shortest (f : Format) (magnitude : Nat) : Scientific :=
  let i := f.interval magnitude
  let order := i.order
  let grid := (List.range 17).findSome? fun (n : Nat) =>
    let exponent := order - (n : Int)
    (i.onGrid exponent).map fun multiple => Scientific.ofMultiple multiple exponent
  grid.getD ⟨['0'], 0⟩

/-- The first exponent that is written with a point among or before the digits, and the first one
beyond those. Any other number carries its exponent. -/
structure Layout where
  plain : Int
  beyond : Int
  deriving DecidableEq, Repr

namespace Layout

/-- Digits with a point; at least one digit stands on each side of it. -/
def positional (s : Scientific) : List Char :=
  if s.exponent < 0 then
    '0' :: '.' :: List.replicate (-s.exponent - 1).toNat '0' ++ s.digits
  else
    let before := s.exponent.toNat + 1
    if s.digits.length ≤ before then
      s.digits ++ List.replicate (before - s.digits.length) '0' ++ ['.', '0']
    else s.digits.take before ++ '.' :: s.digits.drop before

/-- One digit, a point if more follow, and the exponent with its sign. -/
def withExponent (s : Scientific) : List Char :=
  let mantissa := match s.digits with
    | first :: second :: rest => first :: '.' :: second :: rest
    | short => short
  mantissa ++ 'e' :: (if s.exponent < 0 then '-' else '+') :: digits 10 s.exponent.natAbs

/-- A finite magnitude in digits. -/
def writeMagnitude (l : Layout) (f : Format) (magnitude : Nat) : List Char :=
  if magnitude = 0 then ['0', '.', '0']
  else
    let s := f.shortest magnitude
    if l.plain ≤ s.exponent ∧ s.exponent < l.beyond then positional s else withExponent s

/-- A finite number in the fewest digits that read back; nothing for other numbers. -/
def write (l : Layout) {f : Format} : Binary f → Option (List Char)
  | .nan => none
  | .signed negative magnitude _ =>
    if magnitude = f.infinity then none
    else some ((if negative then ['-'] else []) ++ l.writeMagnitude f magnitude)

end Layout

end ChangeFeed.Number
