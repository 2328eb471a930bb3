import ChangeFeed.Json.Shape
import ChangeFeed.Number.Integer
import ChangeFeed.Text.Blank
import ChangeFeed.Text.Cut

/-!
# Positions in the log

A position is a number of 64 bits. Its text is the high and the low half in hexadecimal with a
slash between them; a document holds that text under `lsn`.
-/

namespace ChangeFeed

/-- A position in the write-ahead log. -/
structure Position where
  lsn : UInt64
  deriving DecidableEq, Inhabited

namespace Position

/-- The position of a fresh slot. -/
def zero : Position := ⟨0⟩

instance : LT Position := ⟨fun a b => a.lsn < b.lsn⟩

instance : LE Position := ⟨fun a b => a.lsn ≤ b.lsn⟩

instance (a b : Position) : Decidable (a < b) :=
  inferInstanceAs (Decidable (a.lsn < b.lsn))

instance (a b : Position) : Decidable (a ≤ b) :=
  inferInstanceAs (Decidable (a.lsn ≤ b.lsn))

instance : Max Position := ⟨fun a b => if a ≤ b then b else a⟩

/-- How two positions are ordered. -/
def compare (a b : Position) : Ordering :=
  if a < b then .lt else if a = b then .eq else .gt

/-- The position with the given halves. -/
def ofHalves (high low : Nat) : Position :=
  ⟨UInt64.ofNat (high * Nat.pow 2 32 + low)⟩

/-- Half of a position in capital hexadecimal digits. -/
def writeHalf (n : Nat) : String :=
  String.ofList ((Number.digits 16 n).map Char.toUpper)

/-- The text of a position. -/
def write (p : Position) : String :=
  writeHalf (p.lsn.toNat / Nat.pow 2 32) ++ "/" ++ writeHalf (p.lsn.toNat % Nat.pow 2 32)

/-- Half of a position from its digits. -/
def readHalf (cs : List Char) : Option Nat :=
  (Number.readNat 16 (Nat.pow 2 32 - 1) cs).toOption

/-- The position that a text names; blanks around it do not count. -/
def read (text : String) : Option Position := do
  let (high, low) ← Text.cutAt '/' (Text.trim text.toList)
  let high ← readHalf high
  let low ← readHalf low
  return ofHalves high low

/-- What is said about a text that names no position. -/
def faultMessage (text : String) : String :=
  "invalid LSN '" ++ text ++ "': expected a position like '0/16B3748'"

/-- The position as a document. -/
def toJson (p : Position) : Json :=
  .object [("lsn", .text p.write)]

/-- The position that a document holds. -/
def ofJson? (json : Json) : Option Position := do
  let [some lsn] ← Json.members [("lsn", .required)] json | none
  let text ← lsn.toText?
  read text

end Position

end ChangeFeed
