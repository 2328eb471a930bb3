import ChangeFeed.Event.Basic
import ChangeFeed.RateLimit
import ChangeFeed.Value.Basic

/-!
# Records

The units of work that go through the pipeline: a changed row with typed columns, the end of a
transaction, or a mark of progress without data.
-/

namespace ChangeFeed

/-- A typed column of a record. -/
structure Column where
  name : String
  value : Value
  uniqueKey : Bool

/-- A changed row with typed columns. -/
structure DataRecord where
  table : String
  operation : Operation
  /-- What identified the row before, or the deleted row. -/
  before : List Column
  /-- The row after the change. -/
  after : List Column
  /-- The names of the columns that identify the row. -/
  uniqueKeys : List String
  xid : Option UInt64
  csn : Option UInt64
  position : Position

/-- The end of a transaction. -/
structure TransactionRecord where
  xid : Option UInt64
  csn : Option UInt64
  commitTime : Option Calendar.Instant
  position : Position

/-- A unit of work. -/
inductive Record where
  | data (record : DataRecord)
  | transaction (record : TransactionRecord)
  | placeholder (position : Position)

/-- The column of a name in the row after the change, or else in the row before it. -/
def DataRecord.column? (r : DataRecord) (name : String) : Option Column :=
  (r.after ++ r.before).find? (·.name == name)

namespace Record

/-- The position of a record. -/
def position : Record → Position
  | .data r => r.position
  | .transaction r => r.position
  | .placeholder p => p

/-- The operation of a data record. -/
def operation? : Record → Option Operation
  | .data r => some r.operation
  | _ => none

/-- The commit sequence number of a record. -/
def csn? : Record → Option UInt64
  | .data r => r.csn
  | .transaction r => r.csn
  | .placeholder _ => none

end Record

end ChangeFeed
