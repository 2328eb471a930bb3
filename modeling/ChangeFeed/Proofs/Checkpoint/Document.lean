import ChangeFeed.Checkpoint.Basic
import ChangeFeed.Proofs.Calendar.Stored
import ChangeFeed.Proofs.Json.RoundTrip
import ChangeFeed.Proofs.Position.Text

/-!
# Checkpoints read back

A stored checkpoint is read back from the text that is written for it
(`StoredCheckpoint.read_written`), and the checkpoint of a position gives that position back, as a
state out of the text and as a state of the file (`StoredCheckpoint.file_of_position`).
-/

namespace ChangeFeed

namespace StoredCheckpoint

/-- The text that is written for a stored checkpoint. -/
def written (s : StoredCheckpoint) : String :=
  s.toJson.renderIndented

/-- A stored checkpoint is that of its document. -/
theorem of_json_to_json (s : StoredCheckpoint) : ofJson? s.toJson = some s := by
  simp [ofJson?, toJson, Json.members, Json.memberOf, Json.valuesOf, Json.toText?,
    Calendar.read_stored_instant_write]

/-- A stored checkpoint is read back from what is written for it. -/
@[simp]
theorem read_written (s : StoredCheckpoint) : read s.written = .ok s := by
  have hplain : s.toJson.IsPlain := by
    simp [toJson, Json.IsPlain, Json.AreFieldsPlain]
  have hheight : s.toJson.height ≤ Json.depthLimit := by
    simp [toJson, Json.height, Json.heightOfFields, Json.depthLimit]
  rw [read, written, Json.read_render_indented hplain hheight]
  simp [of_json_to_json]

/-- The checkpoint of a position. -/
def ofPosition (jobId : String) (now : Calendar.Instant) (p : Position) : StoredCheckpoint :=
  ⟨(Resumable.toJson p).render, .of Position jobId, now⟩

/-- The file of a checkpoint of a position gives that position. -/
theorem file_of_position (jobId : String) (now : Calendar.Instant) (p : Position) :
    ∃ file, CheckpointFile.ofStored (ofPosition jobId now p) = .ok file ∧
      file.state? Position = .ok p := by
  have hplain : p.toJson.IsPlain := by
    simp [Position.toJson, Json.IsPlain, Json.AreFieldsPlain]
  have hheight : p.toJson.height ≤ Json.depthLimit := by
    simp [Position.toJson, Json.height, Json.heightOfFields, Json.depthLimit]
  have hread : (Json.read (ofPosition jobId now p).state).bind Json.canonical? = some p.toJson := by
    show (Json.read p.toJson.render).bind Json.canonical? = some p.toJson
    rw [Json.read_render hplain hheight]
    rfl
  refine ⟨⟨.of Position jobId, p.toJson, now⟩, ?_, ?_⟩
  · rw [CheckpointFile.ofStored, hread]
    rfl
  · have hstate : (Resumable.ofJson? p.toJson : Option Position) = some p :=
      Position.of_json_to_json p
    simp [CheckpointFile.state?, CheckpointId.of, hstate]

end StoredCheckpoint

end ChangeFeed
