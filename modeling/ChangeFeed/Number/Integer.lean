/-!
# Integers in text

An integer is written as an optional sign and digits of its base. Reading goes from left to right
and stops at the first character that is no digit or takes the number out of its range, so of two
faults the one further left is reported.
-/

namespace ChangeFeed.Number

/-- Why a text is no integer of the wanted range. -/
inductive IntegerFault where
  | empty
  | invalidDigit
  | tooLarge
  | tooSmall
  deriving DecidableEq, Repr

/-- The wording of an integer fault. -/
def IntegerFault.message : IntegerFault → String
  | .empty => "cannot parse integer from empty string"
  | .invalidDigit => "invalid digit found in string"
  | .tooLarge => "number too large to fit in target type"
  | .tooSmall => "number too small to fit in target type"

/-- The value of a digit in bases up to sixteen. -/
def digitValue? (base : Nat) (c : Char) : Option Nat :=
  let value :=
    if '0' ≤ c ∧ c ≤ '9' then some (c.toNat - '0'.toNat)
    else if 'a' ≤ c ∧ c ≤ 'f' then some (c.toNat - 'a'.toNat + 10)
    else if 'A' ≤ c ∧ c ≤ 'F' then some (c.toNat - 'A'.toNat + 10)
    else none
  value.filter (· < base)

/-- Continues the digits read so far, which are worth `soFar`, up to `bound`. -/
def readDigits (base bound : Nat) (overflow : IntegerFault) :
    Nat → List Char → Except IntegerFault Nat
  | soFar, [] => .ok soFar
  | soFar, c :: rest =>
    match digitValue? base c with
    | none => .error .invalidDigit
    | some digit =>
      let next := soFar * base + digit
      if next ≤ bound then readDigits base bound overflow next rest else .error overflow

/-- A natural number up to `bound`; a plus sign may precede its digits. -/
def readNat (base bound : Nat) : List Char → Except IntegerFault Nat
  | [] => .error .empty
  | ['+'] => .error .invalidDigit
  | '+' :: rest => readDigits base bound .tooLarge 0 rest
  | cs => readDigits base bound .tooLarge 0 cs

/-- A decimal integer from `-lowest` to `highest`; a sign may precede its digits. -/
def readInt (lowest highest : Nat) : List Char → Except IntegerFault Int
  | [] => .error .empty
  | ['+'] => .error .invalidDigit
  | ['-'] => .error .invalidDigit
  | '+' :: rest => (readDigits 10 highest .tooLarge 0 rest).map Int.ofNat
  | '-' :: rest => (readDigits 10 lowest .tooSmall 0 rest).map fun n => -Int.ofNat n
  | cs => (readDigits 10 highest .tooLarge 0 cs).map Int.ofNat

/-- An unsigned integer of 64 bits. -/
def readUInt64 (cs : List Char) : Except IntegerFault UInt64 :=
  (readNat 10 (Nat.pow 2 64 - 1) cs).map UInt64.ofNat

/-- A digit of a base up to sixteen, with small letters. -/
def digitChar (digit : Nat) : Char :=
  if digit < 10 then Char.ofNat ('0'.toNat + digit) else Char.ofNat ('a'.toNat + (digit - 10))

/-- The digits of a number before the text `rest`. -/
def digitsBefore (base : Nat) (n : Nat) (rest : List Char) : List Char :=
  if _h : 2 ≤ base ∧ base ≤ n then
    digitsBefore base (n / base) (digitChar (n % base) :: rest)
  else digitChar (n % base) :: rest
termination_by n
decreasing_by exact Nat.div_lt_self (by omega) (by omega)

/-- The digits of a number in a base from two to sixteen, without leading zeros. -/
def digits (base n : Nat) : List Char :=
  digitsBefore base n []

/-- A number in decimal digits. -/
def decimal (n : Nat) : String :=
  String.ofList (digits 10 n)

/-- An integer in decimal digits, after a minus sign when it is negative. -/
def decimalInt : Int → String
  | .ofNat n => decimal n
  | .negSucc n => "-" ++ decimal (n + 1)

/-- A text filled up with zeros on the left. -/
def zeroFilled (width : Nat) (cs : List Char) : List Char :=
  List.replicate (width - cs.length) '0' ++ cs

/-- A number in at least `width` decimal digits. -/
def padded (width n : Nat) : String :=
  String.ofList (zeroFilled width (digits 10 n))

end ChangeFeed.Number
