import ChangeFeed.Number.Integer
import ChangeFeed.Text.Quoted

/-!
# Bytes in hexadecimal

Two digits per byte, either case when read, small letters when written. An odd number of digits
is noticed before any digit is looked at.
-/

namespace ChangeFeed.Number

/-- Why a text is no sequence of bytes in hexadecimal. -/
inductive HexFault where
  | oddLength
  | invalidCharacter (byte : UInt8) (index : Nat)
  deriving DecidableEq, Repr

/-- The wording of a hexadecimal fault. -/
def HexFault.message : HexFault → String
  | .oddLength => "Odd number of digits"
  | .invalidCharacter byte index =>
    "Invalid character " ++ Text.quotedSingle (Char.ofNat byte.toNat) ++ " at position " ++
      decimal index

/-- The value of a hexadecimal digit given as a byte. -/
def hexValue? (byte : UInt8) : Option Nat :=
  digitValue? 16 (Char.ofNat byte.toNat)

/-- The digits of one byte, high half first. -/
def hexPair (byte : UInt8) : List Char :=
  [digitChar (byte.toNat / 16), digitChar (byte.toNat % 16)]

/-- Bytes from pairs of digits; `index` is the position of the next digit. -/
def readHexPairs : Nat → List UInt8 → Except HexFault (List UInt8)
  | _, [] => .ok []
  | _, [_] => .error .oddLength
  | index, high :: low :: rest =>
    match hexValue? high, hexValue? low with
    | none, _ => .error (.invalidCharacter high index)
    | _, none => .error (.invalidCharacter low (index + 1))
    | some h, some l => do
      let bytes ← readHexPairs (index + 2) rest
      return UInt8.ofNat (16 * h + l) :: bytes

/-- The bytes that a text in hexadecimal stands for. -/
def readHex (text : List UInt8) : Except HexFault (List UInt8) :=
  if text.length % 2 = 1 then .error .oddLength else readHexPairs 0 text

/-- Bytes in hexadecimal. -/
def writeHex (bytes : List UInt8) : List Char :=
  bytes.flatMap hexPair

end ChangeFeed.Number
