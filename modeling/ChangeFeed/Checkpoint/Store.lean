import ChangeFeed.Checkpoint.Basic
import ChangeFeed.Files.Basic

/-!
# Checkpoint stores

A store keeps the latest checkpoint of every id. The one in memory is a table of ids. The one in a
directory has a file for every job: a new checkpoint is written to a temporary file beside it,
which then takes its place, so the file is never half written.
-/

namespace ChangeFeed

/-- Checkpoints by their ids. -/
abbrev CheckpointTable := List (CheckpointId × StoredCheckpoint)

/-- Puts a checkpoint under its id, in the place of an earlier one. -/
def CheckpointTable.store (table : CheckpointTable) (stored : StoredCheckpoint) :
    CheckpointTable :=
  (stored.id, stored) :: table.filter (·.1 ≠ stored.id)

namespace CheckpointDirectory

/-- The name of a job's file. -/
def fileName (jobId : String) : String :=
  "checkpoint_" ++ jobId ++ ".json"

/-- The path of a job's file. -/
def pathOf (directory jobId : String) : String :=
  FilePath.inside directory (fileName jobId)

/-- The path of the temporary file beside a job's file. -/
def temporaryPath (path : String) : String :=
  if FilePath.lastName path = ".json" then path ++ ".json.tmp" else path ++ ".tmp"

/-- A change to the files in the course of storing a checkpoint. -/
inductive Step where
  | makeDirectories (path : String)
  | write (path content : String)
  | rename (source target : String)
  deriving DecidableEq, Repr

/-- Makes one change. -/
def Step.apply (tree : FileTree) : Step → Except Failure FileTree
  | .makeDirectories path =>
    inContext ("Failed to create " ++ path)
      ((tree.makeDirectories path).mapError fun fault => .ofCause (.file fault))
  | .write path content => (tree.write path content).mapError fun fault => .ofCause (.file fault)
  | .rename source target =>
    inContext ("Failed to replace " ++ target)
      ((tree.rename source target).mapError fun fault => .ofCause (.file fault))

/-- The changes that store a checkpoint. -/
def storeSteps (directory : String) (stored : StoredCheckpoint) : List Step :=
  let path := pathOf directory stored.id.jobId
  let temporary := temporaryPath path
  [.makeDirectories directory, .write temporary stored.toJson.renderIndented,
    .rename temporary path]

/-- Makes changes up to the first that fails; what was changed before stays. -/
def applySteps : FileTree → List Step → FileTree × Except Failure Unit
  | tree, [] => (tree, .ok ())
  | tree, step :: rest =>
    match step.apply tree with
    | .ok tree => applySteps tree rest
    | .error failure => (tree, .error failure)

/-- Stores a checkpoint. -/
def store (tree : FileTree) (directory : String) (stored : StoredCheckpoint) :
    FileTree × Except Failure Unit :=
  applySteps tree (storeSteps directory stored)

/-- The text of a job's file, if there is one. -/
def contentOf (tree : FileTree) (directory jobId : String) : Except Failure (Option String) :=
  let path := pathOf directory jobId
  let content : Except FileFault (Option String) := do
    if ← tree.hasPath path then return some (← tree.read path) else return none
  content.mapError fun fault => .ofCause (.file fault)

/-- The stored checkpoint of a job. -/
def read (tree : FileTree) (directory jobId : String) :
    Except Failure (Option StoredCheckpoint) := do
  match ← contentOf tree directory jobId with
  | none => return none
  | some content =>
    let stored ← inContext ("Corrupt checkpoint file " ++ pathOf directory jobId)
      (StoredCheckpoint.read content)
    return some stored

/-- The checkpoint file of a job. -/
def loadFile (tree : FileTree) (directory jobId : String) :
    Except Failure (Option CheckpointFile) := do
  match ← contentOf tree directory jobId with
  | none => return none
  | some content => return some (← CheckpointFile.ofStored (← StoredCheckpoint.read content))

end CheckpointDirectory

/-- Where checkpoints are kept. -/
inductive CheckpointStorage where
  | memory
  | filesystem (directory : String)
  deriving DecidableEq, Repr

namespace CheckpointStorage

/-- The directory of checkpoints where none is named. -/
def defaultDirectory : String := ".wal-ingest-checkpoints"

/-- The storage of a job that names none. -/
def default : CheckpointStorage := .filesystem defaultDirectory

/-- A storage as a document. -/
def toJson : CheckpointStorage → Json
  | .memory => .object [("type", .text "memory")]
  | .filesystem directory => .object [("type", .text "filesystem"), ("dir", .text directory)]

/-- The storage that a document holds. -/
def ofJson? (json : Json) : Option CheckpointStorage := do
  let (name, body) ← Json.tagged "type" ["memory", "filesystem"] false json
  if name = "memory" then
    match body with
    | .list (_ :: _) => none
    | _ => return .memory
  else
    let [some directory] ← Json.members [("dir", .required)] body | none
    return .filesystem (← directory.toText?)

end CheckpointStorage

/-- All that stores of checkpoints can hold: a table in memory, and files. -/
structure Shelf where
  table : CheckpointTable
  tree : FileTree

namespace Shelf

/-- Stores a checkpoint. -/
def store (shelf : Shelf) (storage : CheckpointStorage) (stored : StoredCheckpoint) :
    Shelf × Except Failure Unit :=
  match storage with
  | .memory => ({ shelf with table := shelf.table.store stored }, .ok ())
  | .filesystem directory =>
    let (tree, result) := CheckpointDirectory.store shelf.tree directory stored
    ({ shelf with tree := tree }, result)

/-- The stored checkpoint of an id. -/
def read (shelf : Shelf) (storage : CheckpointStorage) (id : CheckpointId) :
    Except Failure (Option StoredCheckpoint) :=
  match storage with
  | .memory => .ok (shelf.table.lookup id)
  | .filesystem directory => CheckpointDirectory.read shelf.tree directory id.jobId

/-- Saves the state of a job. -/
def save {α : Type} [Resumable α] (shelf : Shelf) (storage : CheckpointStorage)
    (jobId : String) (now : Calendar.Instant) (state : α) : Shelf × Except Failure Unit :=
  shelf.store storage ⟨(Resumable.toJson state).render, .of α jobId, now⟩

/-- The state that a job saved last. -/
def load (α : Type) [Resumable α] (shelf : Shelf) (storage : CheckpointStorage)
    (jobId : String) : Except Failure (Option α) := do
  match ← shelf.read storage (.of α jobId) with
  | none => return none
  | some stored => return some (← (← CheckpointFile.ofStored stored).state? α)

end Shelf

end ChangeFeed
