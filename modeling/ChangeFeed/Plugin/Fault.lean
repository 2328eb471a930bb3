import ChangeFeed.Event.Basic
import ChangeFeed.Text.Utf8
import ChangeFeed.Value.Read

/-!
# Messages that cannot be decoded

Why a message is no event, or no event that may come now.
-/

namespace ChangeFeed

/-- What is wrong with a message of a known form. -/
inductive Malformation where
  | invalidXid (text : String)
  | unterminatedCommitTime
  | invalidCommitTime (text : String)
  | badTableName
  | noSeparatorAfterTable
  | noAction
  | oldKeyWithoutNewTuple
  | trailingData (text : String)
  | badColumnName (text : String)
  | noColumnType (column : String)
  | unterminatedType (column : String)
  | unterminatedValue (column : String)
  | rowDocument
  | unevenSection (name : String) (names types values : Nat)
  | markWithoutValue (mark : String)
  | invalidMark (mark value : String)
  | nestedBegin (openXid : Option UInt64)
  deriving DecidableEq

/-- A number that may be missing, as diagnostics show it. -/
def shownWord : Option UInt64 → String
  | some n => "Some(" ++ Number.decimal n.toNat ++ ")"
  | none => "None"

/-- The wording of a malformation. -/
def Malformation.message : Malformation → String
  | .invalidXid text => "invalid xid '" ++ text ++ "'"
  | .unterminatedCommitTime => "unterminated commit timestamp"
  | .invalidCommitTime text =>
    "invalid commit timestamp '" ++ text ++ "': " ++ unstatedDetail
  | .badTableName => "bad table name"
  | .noSeparatorAfterTable => "missing ':' after table name"
  | .noAction => "missing action"
  | .oldKeyWithoutNewTuple => "old-key without new-tuple"
  | .trailingData text => "unexpected trailing data '" ++ text ++ "'"
  | .badColumnName text => "bad column name near '" ++ text ++ "'"
  | .noColumnType column => "missing type for column '" ++ column ++ "'"
  | .unterminatedType column => "unterminated type for column '" ++ column ++ "'"
  | .unterminatedValue column => "unterminated value for column '" ++ column ++ "'"
  | .rowDocument => "invalid row JSON: " ++ unstatedDetail
  | .unevenSection name names types values =>
    name ++ " arrays differ in length: " ++ Number.decimal names ++ " names, " ++
      Number.decimal types ++ " types, " ++ Number.decimal values ++ " values"
  | .markWithoutValue mark => mark ++ " without a value"
  | .invalidMark mark value => "invalid " ++ mark ++ " value '" ++ value ++ "'"
  | .nestedBegin openXid =>
    "BEGIN while transaction " ++ shownWord openXid ++ " is still open"

/-- A message that cannot be decoded. Reading the same position again would fail again. -/
inductive DecodeError where
  | utf8 (position : Position) (fault : Text.Utf8Fault)
  | unrecognized (position : Position) (message : String)
  | malformed (position : Position) (malformation : Malformation)
  | outsideTransaction (event : String) (position : Position)
  deriving DecidableEq

namespace DecodeError

/-- The wording of a decode error. -/
def message : DecodeError → String
  | .utf8 position fault =>
    "message at " ++ position.write ++ " is not valid UTF-8: " ++ fault.message
  | .unrecognized position message =>
    "unrecognised message at " ++ position.write ++ ": " ++ message
  | .malformed position malformation =>
    "malformed message at " ++ position.write ++ ": " ++ malformation.message
  | .outsideTransaction event position =>
    event ++ " at " ++ position.write ++ " arrived outside a transaction"

/-- The longest start of an unrecognised message that is reported. -/
def shownLength : Nat := 200

/-- A message of no known form. -/
def ofUnrecognized (position : Position) (cs : List Char) : DecodeError :=
  .unrecognized position (String.ofList (cs.take shownLength))

end DecodeError

end ChangeFeed
