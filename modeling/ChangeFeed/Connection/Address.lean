import ChangeFeed.Number.Integer
import ChangeFeed.Text.Cut

/-!
# Network addresses

Which texts are addresses of the internet protocol: four decimal bytes with points, or eight
hexadecimal groups with colons, of which one run may be left out and the last two may be given as
four bytes.
-/

namespace ChangeFeed.Connection

/-- Whether a text is a byte in decimal, without leading zeros. -/
def isDecimalByte (cs : List Char) : Bool :=
  !cs.isEmpty && cs.length ≤ 3 && cs.all Char.isDigit && (cs.length == 1 || cs.head? != some '0') &&
    (Number.readNat 10 255 cs).toOption.isSome

/-- Whether a text is an address of version 4. -/
def isAddress4 (cs : List Char) : Bool :=
  let bytes := Text.parts '.' cs
  bytes.length == 4 && bytes.all isDecimalByte

/-- Whether a text is a group of an address of version 6. -/
def isGroup (cs : List Char) : Bool :=
  !cs.isEmpty && cs.length ≤ 4 && cs.all fun c => (Number.digitValue? 16 c).isSome

/-- How many groups a text with colons stands for; the last may be an address of version 4 and
then counts twice. -/
def countGroups (mayEndInBytes : Bool) : List (List Char) → Option Nat
  | [] => some 0
  | [last] =>
    if isGroup last then some 1
    else if mayEndInBytes && isAddress4 last then some 2
    else none
  | group :: rest => if isGroup group then (countGroups mayEndInBytes rest).map (· + 1) else none

/-- The number of groups of a text that may be empty. -/
def countIn (mayEndInBytes : Bool) (cs : List Char) : Option Nat :=
  if cs.isEmpty then some 0 else countGroups mayEndInBytes (Text.parts ':' cs)

/-- Whether a text is an address of version 6. -/
def isAddress6 (cs : List Char) : Bool :=
  match Text.cutAtText [':', ':'] cs with
  | none => countIn true cs == some 8
  | some (before, after) =>
    match countIn false before, countIn true after with
    | some m, some n => m + n ≤ 7
    | _, _ => false

/-- Whether a text is an address. -/
def isAddress (cs : List Char) : Bool :=
  isAddress4 cs || isAddress6 cs

end ChangeFeed.Connection
