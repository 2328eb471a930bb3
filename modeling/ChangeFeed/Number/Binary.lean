/-!
# Binary floating-point numbers

Formats of binary floating-point numbers and exact rounding into them. The bits of a number below
its sign count the representable magnitudes upwards from zero, so rounding to the nearest
magnitude, with a carry into the next power of two, is a single sum.

`Format.round` takes an exact quotient of natural numbers to the nearest magnitude, ties going to
the even one.
-/

namespace ChangeFeed.Number

/-- A format by the number of its significant bits and of its exponent bits. -/
structure Format where
  precision : Nat
  exponentBits : Nat
  deriving DecidableEq, Repr

namespace Format

/-- Numbers of 64 bits. -/
def double : Format := ⟨53, 11⟩

/-- Numbers of 32 bits. -/
def single : Format := ⟨24, 8⟩

/-- The exponent of the smallest positive magnitude. -/
def minExponent (f : Format) : Int :=
  3 - Nat.pow 2 (f.exponentBits - 1) - f.precision

/-- The smallest significand with all bits in use. -/
def hidden (f : Format) : Nat :=
  Nat.pow 2 (f.precision - 1)

/-- The magnitude bits of infinity. -/
def infinity (f : Format) : Nat :=
  (Nat.pow 2 f.exponentBits - 1) * f.hidden

/-- Significand and exponent of a magnitude: its value is `significand * 2 ^ exponent`. -/
def decode (f : Format) (magnitude : Nat) : Nat × Int :=
  let field := magnitude / f.hidden
  let fraction := magnitude % f.hidden
  if field = 0 then (fraction, f.minExponent)
  else (f.hidden + fraction, f.minExponent + (field - 1 : Nat))

end Format

/-- The natural number nearest to a quotient; a half goes to the even neighbour. -/
def nearestEven (num den : Nat) : Nat :=
  let whole := num / den
  let twice := 2 * (num % den)
  if twice < den then whole
  else if den < twice then whole + 1
  else if whole % 2 = 0 then whole else whole + 1

/-- A quotient times a power of two, as a quotient. -/
def scaledByTwo (num den : Nat) (exponent : Int) : Nat × Nat :=
  (num * Nat.pow 2 exponent.toNat, den * Nat.pow 2 (-exponent).toNat)

/-- The exponent that gives the quotient `precision` bits before the point, or the least one. -/
def Format.exponentOf (f : Format) (num den : Nat) : Int :=
  let guess : Int := (Nat.log2 num : Int) - Nat.log2 den - (f.precision - 1 : Nat)
  let (n, d) := scaledByTwo num den (-guess)
  max f.minExponent (if n < d * f.hidden then guess - 1 else guess)

/-- The magnitude bits nearest to a quotient of natural numbers. -/
def Format.round (f : Format) (num den : Nat) : Nat :=
  if num = 0 then 0
  else
    let exponent := f.exponentOf num den
    let (n, d) := scaledByTwo num den (-exponent)
    min f.infinity ((exponent - f.minExponent).toNat * f.hidden + nearestEven n d)

theorem Format.round_le_infinity (f : Format) (num den : Nat) :
    f.round num den ≤ f.infinity := by
  unfold Format.round
  split
  · exact Nat.zero_le _
  · exact Nat.min_le_left _ _

/-- A number of a format: not a number, or a sign and a magnitude up to infinity. -/
inductive Binary (f : Format) where
  | nan
  | signed (negative : Bool) (magnitude : Nat) (bounded : magnitude ≤ f.infinity)
  deriving DecidableEq

namespace Binary

variable {f : Format}

/-- The number with a sign that is nearest to a quotient. -/
def ofQuotient (f : Format) (negative : Bool) (num den : Nat) : Binary f :=
  .signed negative (f.round num den) (f.round_le_infinity num den)

/-- Infinity with a sign. -/
def infinite (f : Format) (negative : Bool) : Binary f :=
  .signed negative f.infinity (Nat.le_refl _)

/-- Zero with a sign. -/
def zero (f : Format) (negative : Bool) : Binary f :=
  .signed negative 0 (Nat.zero_le _)

/-- Whether the number stands for a rational number. -/
def isFinite : Binary f → Bool
  | .nan => false
  | .signed _ magnitude _ => magnitude < f.infinity

/-- The quotient of natural numbers that a finite magnitude stands for. -/
def quotientOf (f : Format) (magnitude : Nat) : Nat × Nat :=
  let (significand, exponent) := f.decode magnitude
  scaledByTwo significand 1 exponent

/-- The nearest number of another format. -/
def convert (g : Format) : Binary f → Binary g
  | .nan => .nan
  | .signed negative magnitude _ =>
    if magnitude = f.infinity then infinite g negative
    else
      let (num, den) := quotientOf f magnitude
      ofQuotient g negative num den

/-- All bits of a number that is not a NaN. -/
def bits? : Binary f → Option Nat
  | .nan => none
  | .signed negative magnitude _ =>
    some ((if negative then Nat.pow 2 (f.precision + f.exponentBits - 1) else 0) + magnitude)

end Binary

end ChangeFeed.Number
