import ChangeFeed.Proofs.Checkpoint.Crash
import ChangeFeed.Proofs.Except

/-!
# Whose checkpoint is loaded

A stored checkpoint names the kind of source and the job that it was recorded for.
`CheckpointDirectory.loads_of_any_owner` says what a job gets from the text of its file, whatever the
text: the position in it if it was recorded for this kind of source, no matter for which job. What
the job goes on from and what its checkpoint file shows are the same.
`CheckpointDirectory.loads_of_other_job` is a job that goes on from the position of another one.
-/

namespace ChangeFeed

/-! ## What may be missing -/

section OnFound

variable {α β : Type} {result : Except Failure (Option α)} {f : α → Except Failure β}

/-- Works on what was found; where nothing was found there is nothing to do. -/
def onFound (result : Except Failure (Option α)) (f : α → Except Failure β) :
    Except Failure (Option β) := do
  match ← result with
  | none => return none
  | some a => return some (← f a)

/-- There is something exactly if something was found and the work on it succeeded. -/
theorem on_found_some_iff {b : β} :
    onFound result f = .ok (some b) ↔ ∃ a, result = .ok (some a) ∧ f a = .ok b := by
  rw [onFound, Except.bind_eq_ok]
  constructor
  · rintro ⟨found, hfound, h⟩
    cases found with
    | none => exact absurd h (by simp)
    | some a =>
        obtain ⟨b', hb, h⟩ := Except.bind_eq_ok.mp h
        obtain rfl := Option.some.inj (Except.pure_eq_ok.mp h)
        exact ⟨a, hfound, hb⟩
  · rintro ⟨a, hfound, hb⟩
    exact ⟨some a, hfound, Except.bind_eq_ok.mpr ⟨b, hb, rfl⟩⟩

/-- There is nothing exactly if nothing was found. -/
theorem on_found_none_iff : onFound result f = .ok none ↔ result = .ok none := by
  rw [onFound, Except.bind_eq_ok]
  constructor
  · rintro ⟨found, hfound, h⟩
    cases found with
    | none => exact hfound
    | some a =>
        obtain ⟨b, -, h⟩ := Except.bind_eq_ok.mp h
        exact absurd (Except.pure_eq_ok.mp h) (by simp)
  · intro hfound
    exact ⟨none, hfound, rfl⟩

end OnFound

/-! ## The position in a stored checkpoint -/

/-- A stored checkpoint gives a position back: it is one of this kind of source, and its state is
the document of the position. -/
structure StoredCheckpoint.Gives (stored : StoredCheckpoint) (p : Position) : Prop where
  source : stored.id.source = Resumable.source Position
  state : ((Json.read stored.state).bind Json.canonical?).bind Position.ofJson? = some p

/-- The file of a stored checkpoint has a state. -/
theorem CheckpointFile.of_stored_iff {stored : StoredCheckpoint} {file : CheckpointFile} :
    ofStored stored = .ok file ↔
      ∃ state, (Json.read stored.state).bind Json.canonical? = some state ∧
        file = ⟨stored.id, state, stored.createdAt⟩ := by
  unfold ofStored
  cases (Json.read stored.state).bind Json.canonical? <;> simp [eq_comm]

/-- A file has a position in it exactly if it is of this kind of source and has the document of the
position. -/
theorem CheckpointFile.state_iff {file : CheckpointFile} {p : Position} :
    file.state? Position = .ok p ↔
      file.id.source = Resumable.source Position ∧ Position.ofJson? file.state = some p := by
  have hposition : (Resumable.ofJson? file.state : Option Position) =
      Position.ofJson? file.state := rfl
  rw [state?, hposition]
  by_cases hsource : file.id.source = Resumable.source Position
  · cases Position.ofJson? file.state <;> simp [hsource]
  · simp [hsource]

/-- The file of a stored checkpoint has a position in it exactly if the stored checkpoint gives
it. -/
theorem CheckpointFile.state_of_stored_iff {stored : StoredCheckpoint} {p : Position} :
    (∃ file, ofStored stored = .ok file ∧ file.state? Position = .ok p) ↔ stored.Gives p := by
  simp only [of_stored_iff, state_iff]
  constructor
  · rintro ⟨file, ⟨state, hdocument, rfl⟩, hsource, hstate⟩
    exact ⟨hsource, by rw [hdocument]; exact hstate⟩
  · rintro ⟨hsource, hstate⟩
    obtain ⟨state, hdocument, hstate⟩ := Option.bind_eq_some_iff.mp hstate
    exact ⟨_, ⟨state, hdocument, rfl⟩, hsource, hstate⟩

/-- The checkpoint of a position gives it, whatever job it is of. -/
theorem StoredCheckpoint.Gives.of_position (jobId : String) (now : Calendar.Instant)
    (p : Position) : (ofPosition jobId now p).Gives p :=
  CheckpointFile.state_of_stored_iff.mp (file_of_position jobId now p)

namespace CheckpointDirectory

variable {tree : FileTree} {directory jobId : String} {table : CheckpointTable} {p : Position}

/-- A checkpoint is read from the text of the job's file. -/
theorem read_eq :
    read tree directory jobId = onFound (contentOf tree directory jobId) fun text =>
      inContext ("Corrupt checkpoint file " ++ pathOf directory jobId)
        (StoredCheckpoint.read text) := by
  rw [read, onFound]
  refine bind_congr fun content => ?_
  cases content <;> rfl

/-- A checkpoint file is read from the text of the job's file. -/
theorem load_file_eq :
    loadFile tree directory jobId = onFound (contentOf tree directory jobId) fun text =>
      StoredCheckpoint.read text >>= CheckpointFile.ofStored := by
  rw [loadFile, onFound]
  simp only [bind_assoc]
  refine bind_congr fun content => ?_
  cases content <;> rfl

/-- A job goes on from the state of its checkpoint. -/
theorem load_eq :
    Shelf.load Position ⟨table, tree⟩ (.filesystem directory) jobId =
      onFound (read tree directory jobId) fun stored =>
        CheckpointFile.ofStored stored >>= (CheckpointFile.state? Position) := by
  rw [Shelf.load, onFound]
  simp only [bind_assoc]
  refine bind_congr fun stored => ?_
  cases stored <;> rfl

/-- What is shown of a job is the state of its checkpoint file. -/
theorem shown_eq :
    shownPosition tree directory jobId =
      onFound (loadFile tree directory jobId) (CheckpointFile.state? Position) := by
  rw [shownPosition, onFound]
  refine bind_congr fun file => ?_
  cases file <;> rfl

/-- The text of a job's file is a checkpoint of a position that was recorded for an owner. -/
def Records (tree : FileTree) (directory jobId owner : String) (p : Position) : Prop :=
  ∃ text stored, contentOf tree directory jobId = .ok (some text) ∧
    StoredCheckpoint.read text = .ok stored ∧ stored.Gives p ∧ stored.id.jobId = owner

/-- A job goes on from a position exactly if its file is a checkpoint of it, whoever owns that. -/
theorem load_eq_some_iff :
    Shelf.load Position ⟨table, tree⟩ (.filesystem directory) jobId = .ok (some p) ↔
      ∃ owner, Records tree directory jobId owner p := by
  rw [load_eq, on_found_some_iff, read_eq]
  simp only [on_found_some_iff, Except.bind_eq_ok, CheckpointFile.state_of_stored_iff, inContext,
    Except.map_error_eq_ok]
  constructor
  · rintro ⟨stored, ⟨text, hcontent, hread⟩, hgives⟩
    exact ⟨_, text, stored, hcontent, hread, hgives, rfl⟩
  · rintro ⟨owner, text, stored, hcontent, hread, hgives, -⟩
    exact ⟨stored, ⟨text, hcontent, hread⟩, hgives⟩

/-- A position is shown of a job exactly if its file is a checkpoint of it, whoever owns that. -/
theorem shown_eq_some_iff :
    shownPosition tree directory jobId = .ok (some p) ↔
      ∃ owner, Records tree directory jobId owner p := by
  rw [shown_eq, on_found_some_iff, load_file_eq]
  simp only [on_found_some_iff, Except.bind_eq_ok]
  constructor
  · rintro ⟨file, ⟨text, hcontent, stored, hread, hfile⟩, hstate⟩
    have hgives := CheckpointFile.state_of_stored_iff.mp ⟨file, hfile, hstate⟩
    exact ⟨_, text, stored, hcontent, hread, hgives, rfl⟩
  · rintro ⟨owner, text, stored, hcontent, hread, hgives, -⟩
    obtain ⟨file, hfile, hstate⟩ := CheckpointFile.state_of_stored_iff.mpr hgives
    exact ⟨file, ⟨text, hcontent, stored, hread, hfile⟩, hstate⟩

/-- Whatever a job's file has in it, the job goes on from a position exactly if the file is a
checkpoint of that position, recorded for this kind of source and for any job at all; the same
position is shown of the job. There is nothing to go on from, and nothing to show, exactly if there
is no file; a file with anything else in it is a failure. -/
theorem loads_of_any_owner (table : CheckpointTable) (tree : FileTree)
    (directory jobId : String) :
    let load := Shelf.load Position ⟨table, tree⟩ (.filesystem directory) jobId
    let shown := shownPosition tree directory jobId
    (∀ p, load = .ok (some p) ↔ ∃ owner, Records tree directory jobId owner p) ∧
      (∀ p, shown = .ok (some p) ↔ ∃ owner, Records tree directory jobId owner p) ∧
      (load = .ok none ↔ contentOf tree directory jobId = .ok none) ∧
      (shown = .ok none ↔ contentOf tree directory jobId = .ok none) := by
  refine ⟨fun p => load_eq_some_iff, fun p => shown_eq_some_iff, ?_, ?_⟩
  · rw [load_eq, on_found_none_iff, read_eq, on_found_none_iff]
  · rw [shown_eq, on_found_none_iff, load_file_eq, on_found_none_iff]

/-- A directory in which the checkpoint of `orders` stands under the name of `invoices`. -/
def mixedTree : FileTree :=
  bareTree.put (["ckpt"] ++ [fileName "invoices"])
    (.file (StoredCheckpoint.ofPosition "orders" .epoch ⟨16⟩).written)

/-- The file of `invoices` is a checkpoint that was recorded for `orders` and for no other job, and
`invoices` goes on from it. -/
theorem loads_of_other_job :
    (∀ owner p, Records mixedTree "ckpt" "invoices" owner p → owner = "orders") ∧
      Shelf.load Position ⟨[], mixedTree⟩ (.filesystem "ckpt") "invoices" = .ok (some ⟨16⟩) ∧
      shownPosition mixedTree "ckpt" "invoices" = .ok (some ⟨16⟩) := by
  have hcontent : contentOf mixedTree "ckpt" "invoices" =
      .ok (some (StoredCheckpoint.ofPosition "orders" .epoch ⟨16⟩).written) := by
    have hleads : mixedTree.Leads "ckpt" ["ckpt"] :=
      bare_tree_leads.put (by decide +kernel) _
    have hjob : IsJobName "ckpt" "invoices" := ⟨by decide, by decide, by decide, by decide +kernel⟩
    rw [content_of_leads hleads hjob, mixedTree, FileTree.entry_put_self (by simp)]
  have hrecords : Records mixedTree "ckpt" "invoices" "orders" ⟨16⟩ :=
    ⟨_, _, hcontent, StoredCheckpoint.read_written _, .of_position _ _ _, rfl⟩
  refine ⟨?_, load_eq_some_iff.mpr ⟨_, hrecords⟩, shown_eq_some_iff.mpr ⟨_, hrecords⟩⟩
  rintro owner p ⟨text, stored, htext, hread, -, rfl⟩
  rw [hcontent] at htext
  obtain rfl := Option.some.inj (Except.ok.inj htext)
  rw [StoredCheckpoint.read_written] at hread
  obtain rfl := Except.ok.inj hread
  rfl

end CheckpointDirectory

end ChangeFeed
