import ChangeFeed.Calendar.Read
import ChangeFeed.Json.Canonical
import ChangeFeed.Json.Read
import ChangeFeed.Number.Decimal
import ChangeFeed.Text.Cut
import ChangeFeed.Text.Utf8
import ChangeFeed.Value.ArrayLiteral
import ChangeFeed.Value.Basic

/-!
# Values from literals

`Value.ofLiteral` reads the text of a literal, quoting removed, as a value of a column type. A
fault names the literal and the type at which it arose; for an array that is the first faulty
element and the type of the elements.
-/

namespace ChangeFeed

open Number (Binary Format)

/-- Why a text is no value of a type. -/
inductive LiteralFault where
  | notBoolean (text : String)
  | integer (fault : Number.IntegerFault)
  | float (fault : Number.DecimalFault)
  | notDecimal
  | noHexMark
  | hex (fault : Number.HexFault)
  | calendar
  | uuid
  | document
  | array (fault : ArrayLiteral.Fault)
  deriving DecidableEq, Repr

/-- What messages say where the details of a fault are left open. -/
def unstatedDetail : String := "<lib>"

/-- The wording of a fault. -/
def LiteralFault.message : LiteralFault → String
  | .notBoolean text => "not a boolean: " ++ text
  | .integer fault => fault.message
  | .float fault => fault.message
  | .notDecimal => "not a decimal number"
  | .noHexMark => "bytea literal must use hex format (\\x...)"
  | .hex fault => fault.message
  | .calendar => unstatedDetail
  | .uuid => unstatedDetail
  | .document => unstatedDetail
  | .array fault => fault.message

/-- A literal that is no value of the type expected of it. -/
structure ValueError where
  literal : String
  expected : ColumnType
  fault : LiteralFault
  deriving DecidableEq

/-- The wording of a value error. -/
def ValueError.message (e : ValueError) : String :=
  "cannot parse '" ++ e.literal ++ "' as " ++ e.expected.describe ++ ": " ++ e.fault.message

namespace Value

/-- A truth value from the words for it. -/
def boolOf (text : String) : Except LiteralFault Bool :=
  match text with
  | "t" | "true" | "TRUE" | "True" | "1" => .ok true
  | "f" | "false" | "FALSE" | "False" | "0" => .ok false
  | other => .error (.notBoolean other)

/-- An integer between two bounds. -/
def integerOf (lowest highest : Nat) (text : String) : Except LiteralFault Int :=
  (Number.readInt lowest highest text.toList).mapError .integer

/-- A floating-point number. -/
def floatOf (text : String) : Except LiteralFault (Binary Format.double) :=
  (Number.readBinary Format.double text.toList).mapError .float

/-- Bytes in hexadecimal behind a mark. -/
def bytesOf (text : String) : Except LiteralFault (List UInt8) :=
  match Text.stripStart ['\\', 'x'] text.toList with
  | none => .error .noHexMark
  | some digits => (Number.readHex (Text.toUtf8 digits)).mapError .hex

/-- What was found, or a fault. -/
def found {α : Type} (fault : LiteralFault) : Option α → Except LiteralFault α
  | some value => .ok value
  | none => .error fault

/-- A document in canonical form. -/
def documentOf (text : String) : Option Json :=
  (Json.read text).bind Json.canonical?

/-- A value of a type without elements. -/
def scalarOf (t : ColumnType) (text : String) : Except LiteralFault Value :=
  match t with
  | .bool => (boolOf text).map .bool
  | .int16 => (integerOf (Nat.pow 2 15) (Nat.pow 2 15 - 1) text).map fun n => .int16 (Int16.ofInt n)
  | .int32 => (integerOf (Nat.pow 2 31) (Nat.pow 2 31 - 1) text).map fun n => .int32 (Int32.ofInt n)
  | .int64 => (integerOf (Nat.pow 2 63) (Nat.pow 2 63 - 1) text).map fun n => .int64 (Int64.ofInt n)
  | .float32 => (floatOf text).map fun x => .float32 (x.convert Format.single)
  | .float64 => (floatOf text).map .float64
  | .decimal precision scale =>
    match floatOf text with
    | .ok _ => .ok (.decimal text precision scale)
    | .error _ => .error .notDecimal
  | .char length => .ok (.char text length)
  | .varChar length => .ok (.varChar text length)
  | .text => .ok (.text text)
  | .bytes => (bytesOf text).map .bytes
  | .date => (found .calendar (Calendar.readDate text.toList)).map .date
  | .time => (found .calendar (Calendar.readTime text.toList)).map .time
  | .localDateTime => (found .calendar (Calendar.readDateTime text.toList)).map .localDateTime
  | .zonedDateTime => (found .calendar (Calendar.readInstant text.toList)).map .zonedDateTime
  | .uuid => (found .uuid (Uuid.read text.toList)).map .uuid
  | .json => (found .document (documentOf text)).map .json
  | .jsonb => (found .document (documentOf text)).map .jsonb
  | .array _ => .error (.array .noBraces)

/-- The value of a literal of a given type. -/
def ofLiteral : ColumnType → String → Except ValueError Value
  | .array element, literal =>
    match ArrayLiteral.read literal with
    | .error fault => .error ⟨literal, .array element, .array fault⟩
    | .ok parts => do
      let elements ← parts.mapM fun part =>
        match part with
        | none => .ok .null
        | some literal => ofLiteral element literal
      return .array elements element
  | t, literal => (scalarOf t literal).mapError fun fault => ⟨literal, t, fault⟩

end Value

end ChangeFeed
