import ChangeFeed.Calendar.Basic
import ChangeFeed.ColumnType.Basic
import ChangeFeed.Uuid

/-!
# Column values

A value of a changed row, typed by its column. Two values belong to no type: the missing one, and
the one that the database did not send because it had not changed.
-/

namespace ChangeFeed

open Number (Binary Format)

/-- The value of a column. -/
inductive Value where
  | null
  | bool (value : Bool)
  | int16 (value : Int16)
  | int32 (value : Int32)
  | int64 (value : Int64)
  | float32 (value : Binary Format.single)
  | float64 (value : Binary Format.double)
  /-- A decimal number keeps its text, which loses nothing. -/
  | decimal (value : String) (precision scale : UInt8)
  | char (value : String) (length : UInt16)
  | varChar (value : String) (length : UInt16)
  | text (value : String)
  | bytes (value : List UInt8)
  | date (value : Calendar.Date)
  | time (value : Calendar.TimeOfDay)
  | localDateTime (value : Calendar.LocalDateTime)
  | zonedDateTime (value : Calendar.Instant)
  | uuid (value : Uuid)
  | json (value : Json)
  | jsonb (value : Json)
  | array (elements : List Value) (element : ColumnType)
  /-- The value was stored apart and not sent, because it had not changed. -/
  | unchanged
  deriving Inhabited

namespace Value

/-- Whether the value is missing. -/
def isNull : Value → Bool
  | .null => true
  | _ => false

/-- The value of an integer of any width. -/
def toInt? : Value → Option Int
  | .int16 value => some value.toInt
  | .int32 value => some value.toInt
  | .int64 value => some value.toInt
  | _ => none

/-- The text of a value that is kept as text. -/
def toText? : Value → Option String
  | .text value => some value
  | .char value _ => some value
  | .varChar value _ => some value
  | .decimal value _ _ => some value
  | _ => none

/-- The bits of a floating-point value; no bits are told for a NaN. -/
def floatBits? : Value → Option (Nat × Option Nat)
  | .float32 value => some (8, value.bits?)
  | .float64 value => some (16, value.bits?)
  | _ => none

end Value

end ChangeFeed
