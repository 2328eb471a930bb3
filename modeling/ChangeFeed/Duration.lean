import ChangeFeed.Failure
import ChangeFeed.Number.Integer
import ChangeFeed.Text.Blank
import ChangeFeed.Text.Cut

/-!
# Durations in text

A number and a unit: `ms`, `h`, `m`, `s`, or none for seconds. Durations are kept in
milliseconds and fit 64 bits.
-/

namespace ChangeFeed.Duration

/-- Why a text is no duration. -/
inductive Fault where
  | empty
  | invalidNumber (text : String) (fault : Number.IntegerFault)
  | outOfRange (text : String)
  deriving DecidableEq, Repr

/-- A duration fault as a failure. -/
def Fault.failure : Fault → Failure
  | .empty => .ofMessage "Empty duration string"
  | .invalidNumber text fault =>
    (Failure.ofMessage fault.message).within ("Invalid duration value: " ++ text)
  | .outOfRange text => .ofMessage ("Duration out of range: " ++ text)

/-- The units and their milliseconds. Their order settles which unit a text ends in. -/
def units : List (List Char × Nat) :=
  [(['m', 's'], 1), (['h'], 3600000), (['m'], 60000), (['s'], 1000)]

/-- The number in front of the unit, and the milliseconds of the unit. -/
def splitUnit (cs : List Char) : List Char × Nat :=
  (units.findSome? fun (unit, millis) =>
    (Text.stripEnd unit cs).map fun number => (number, millis)).getD (cs, 1000)

/-- The milliseconds of a text. -/
def read (text : String) : Except Fault Nat :=
  let cs := Text.trim text.toList
  if cs.isEmpty then .error .empty
  else
    let (number, unit) := splitUnit cs
    match Number.readNat 10 (Nat.pow 2 64 - 1) (Text.trim number) with
    | .error fault => .error (.invalidNumber (String.ofList cs) fault)
    | .ok n =>
      if n * unit < Nat.pow 2 64 then .ok (n * unit) else .error (.outOfRange (String.ofList cs))

end ChangeFeed.Duration
