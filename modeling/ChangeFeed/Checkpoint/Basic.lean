import ChangeFeed.Calendar.Read
import ChangeFeed.Calendar.Write
import ChangeFeed.Failure
import ChangeFeed.Json.Canonical
import ChangeFeed.Json.Read
import ChangeFeed.Json.Shape
import ChangeFeed.Json.Write
import ChangeFeed.Position

/-!
# Checkpoints

A checkpoint is the state from which a job goes on, as a document, with the kind of source that it
belongs to. A stored checkpoint keeps the document as a text; a checkpoint file is the same with
the document read, and gives the state back only to its own kind of source.
-/

namespace ChangeFeed

/-- A state that a job can go on from. -/
class Resumable (α : Type) where
  /-- The kind of source. -/
  source : String
  toJson : α → Json
  ofJson? : Json → Option α

instance : Resumable Position where
  source := "postgresql-wal"
  toJson := Position.toJson
  ofJson? := Position.ofJson?

/-- The kind of source and the job that a checkpoint belongs to. -/
structure CheckpointId where
  source : String
  jobId : String
  deriving DecidableEq, Repr

/-- The id of a job's checkpoints of a state. -/
def CheckpointId.of (α : Type) [Resumable α] (jobId : String) : CheckpointId :=
  ⟨Resumable.source α, jobId⟩

/-- A checkpoint as it is stored. -/
structure StoredCheckpoint where
  /-- The text of the state's document. -/
  state : String
  id : CheckpointId
  createdAt : Calendar.Instant
  deriving DecidableEq

namespace StoredCheckpoint

/-- A stored checkpoint as a document. -/
def toJson (s : StoredCheckpoint) : Json :=
  .object [("checkpoint_data", .text s.state), ("database_type", .text s.id.source),
    ("job_id", .text s.id.jobId), ("created_at", .text s.createdAt.write)]

/-- The stored checkpoint that a document holds. -/
def ofJson? (json : Json) : Option StoredCheckpoint := do
  let [some state, some source, some jobId, some createdAt] ← Json.members
    [("checkpoint_data", .required), ("database_type", .required), ("job_id", .required),
      ("created_at", .required)] json | none
  return {
    state := ← state.toText?
    id := ⟨← source.toText?, ← jobId.toText?⟩
    createdAt := ← Calendar.readStoredInstant (← createdAt.toText?).toList }

/-- The stored checkpoint that a text holds. -/
def read (text : String) : Except Failure StoredCheckpoint :=
  match (Json.read text).bind ofJson? with
  | some stored => .ok stored
  | none => .error (.ofCause .document)

end StoredCheckpoint

/-- A checkpoint with its document. -/
structure CheckpointFile where
  id : CheckpointId
  state : Json
  createdAt : Calendar.Instant

namespace CheckpointFile

/-- The file of a state. -/
def ofState {α : Type} [Resumable α] (state : α) (jobId : String) (now : Calendar.Instant) :
    CheckpointFile :=
  ⟨.of α jobId, Resumable.toJson state, now⟩

/-- The file of a stored checkpoint. -/
def ofStored (s : StoredCheckpoint) : Except Failure CheckpointFile :=
  match (Json.read s.state).bind Json.canonical? with
  | some state => .ok ⟨s.id, state, s.createdAt⟩
  | none => .error (.ofCause .document)

/-- What is said about a checkpoint of another kind of source. -/
def mismatchMessage (expected found : String) : String :=
  "Checkpoint type mismatch: expected '" ++ expected ++ "', found '" ++ found ++ "'"

/-- The state in a file. -/
def state? (α : Type) [Resumable α] (file : CheckpointFile) : Except Failure α :=
  if file.id.source = Resumable.source α then
    match Resumable.ofJson? file.state with
    | some state => .ok state
    | none => .error (.ofCause .document)
  else .error (.ofMessage (mismatchMessage (Resumable.source α) file.id.source))

/-- A file as a document. -/
def toJson (file : CheckpointFile) : Json :=
  .object [("database_type", .text file.id.source), ("job_id", .text file.id.jobId),
    ("checkpoint", file.state), ("created_at", .text file.createdAt.write)]

/-- The file that a document holds. -/
def ofJson? (json : Json) : Option CheckpointFile := do
  let [some source, some jobId, some state, some createdAt] ← Json.members
    [("database_type", .required), ("job_id", .required), ("checkpoint", .required),
      ("created_at", .required)] json | none
  return {
    id := ⟨← source.toText?, ← jobId.toText?⟩
    state := ← state.canonical?
    createdAt := ← Calendar.readStoredInstant (← createdAt.toText?).toList }

end CheckpointFile

end ChangeFeed
