import ChangeFeed.Failure
import ChangeFeed.Value.Read

/-!
# Session faults

Failures of the replication connection and of its statements. They are transient: the session is
opened anew.
-/

namespace ChangeFeed

/-- Why a statement or its answer is of no use. -/
inductive StatementFault where
  /-- The server refused, with a code and a message. -/
  | refused (code message : String)
  | missingValue
  | wrongRowCount
  /-- A value of another kind than the one asked for, or no value. -/
  | wrongKind
  | connectionLost
  deriving DecidableEq, Repr

/-- The causes of a statement fault. -/
def StatementFault.causes : StatementFault → List Cause
  | .refused code _ => [.database (some code)]
  | .missingValue => [.database none, .message "a Postgres value was `NULL`"]
  | .wrongRowCount => [.database none]
  | .wrongKind => [.database none]
  | .connectionLost => [.database none]

/-- A statement fault inside a message. -/
def StatementFault.inline : StatementFault → String
  | .refused _ _ => "db error"
  | _ => unstatedDetail

/-- What a session was doing. -/
inductive SessionTask where
  | findSlot
  | readPlugin
  | readSlotPosition
  | createSlot
  | readCreatedPosition
  | advanceSlot
  | peekChanges
  | readChangePosition
  | readChangeXid
  | readChangeData
  deriving DecidableEq, Repr

/-- The wording of a failed task. -/
def SessionTask.failed : SessionTask → String
  | .findSlot => "Failed to check for existing replication slot"
  | .readPlugin => "Failed to read slot plugin"
  | .readSlotPosition => "Failed to read slot position"
  | .createSlot => "Failed to create logical replication slot"
  | .readCreatedPosition => "Failed to read created slot position"
  | .advanceSlot => "Failed to advance replication slot"
  | .peekChanges => "Failed to peek changes from replication slot"
  | .readChangePosition => "Failed to read change position"
  | .readChangeXid => "Failed to read change xid"
  | .readChangeData => "Failed to read change data"

/-- A failure of a replication session. -/
inductive SessionFault where
  | connect (causes : List Cause)
  | statement (task : SessionTask) (fault : StatementFault)
  | protocol (text : String)
  | disconnected (text : String)
  | closed
  deriving DecidableEq

namespace SessionFault

/-- The wording of a session fault. -/
def message : SessionFault → String
  | .connect _ => "failed to connect: " ++ unstatedDetail
  | .statement task fault => task.failed ++ ": " ++ fault.inline
  | .protocol text => "unexpected server response: " ++ text
  | .disconnected text => "connection lost: " ++ text
  | .closed => "session is closed"

/-- The chain of causes of a session fault. -/
def chain (fault : SessionFault) : List Cause :=
  .message fault.message :: match fault with
    | .connect causes => causes
    | .statement _ reason => reason.causes
    | _ => []

end SessionFault

end ChangeFeed
