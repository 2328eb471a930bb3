import ChangeFeed.Number.Hex

/-!
# Universally unique identifiers

An identifier is a number of 128 bits. It is written as 32 hexadecimal digits in five groups, and
read in four forms: grouped, grouped in braces, grouped after `urn:uuid:`, and as plain digits.
-/

namespace ChangeFeed

/-- An identifier of 128 bits. -/
structure Uuid where
  value : BitVec 128
  deriving DecidableEq

namespace Uuid

/-- The lengths of the groups of digits. -/
def groups : List Nat := [8, 4, 4, 4, 12]

/-- The digits of groups that hyphens separate. -/
def ungroup : List Nat → List Char → Option (List Char)
  | [], cs => if cs.isEmpty then some [] else none
  | [size], cs => if cs.length = size then some cs else none
  | size :: rest, cs =>
    match cs.drop size with
    | '-' :: after => (ungroup rest after).map (cs.take size ++ ·)
    | _ => none

/-- Digits in groups with hyphens between them. -/
def regroup : List Nat → List Char → List Char
  | [], _ => []
  | [_], cs => cs
  | size :: rest, cs => cs.take size ++ '-' :: regroup rest (cs.drop size)

/-- The identifier that 32 digits stand for. -/
def ofDigits (cs : List Char) : Option Uuid :=
  if cs.length = 32 then
    match Number.readDigits 16 (Nat.pow 2 128 - 1) .tooLarge 0 cs with
    | .ok n => some ⟨BitVec.ofNat 128 n⟩
    | .error _ => none
  else none

/-- The digits that a text spells in one of the four forms. -/
def spelledDigits (cs : List Char) : Option (List Char) :=
  if cs.length = 32 then some cs
  else
    match cs with
    | '{' :: rest =>
      if rest.getLast? = some '}' then ungroup groups rest.dropLast else none
    | 'u' :: 'r' :: 'n' :: ':' :: 'u' :: 'u' :: 'i' :: 'd' :: ':' :: rest => ungroup groups rest
    | _ => ungroup groups cs

/-- The identifier that a text spells. -/
def read (cs : List Char) : Option Uuid :=
  (spelledDigits cs).bind ofDigits

/-- The 32 digits of an identifier. -/
def toDigits (u : Uuid) : List Char :=
  Number.zeroFilled 32 (Number.digits 16 u.value.toNat)

/-- The grouped form. -/
def write (u : Uuid) : String :=
  String.ofList (regroup groups u.toDigits)

end Uuid

end ChangeFeed
