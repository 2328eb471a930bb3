import ChangeFeed.Proofs.Checkpoint.Directory
import ChangeFeed.Proofs.Checkpoint.Document

/-!
# What the two stores answer

Calls of a store put checkpoints under ids and read them (`Shelf.answers`). A store in memory
answers by the whole id, a store in a directory by the job alone: `Shelf.answers_eq_iff` says that
their answers are the same exactly if no job is read under another id than that of its last
checkpoint. The lemmas before it follow a directory through the calls
(`CheckpointDirectory.Holds`).
-/

namespace ChangeFeed

/-! ## Calls and answers -/

/-- A call of a store. -/
inductive StoreCall where
  | store (stored : StoredCheckpoint)
  | read (id : CheckpointId)

/-- The job of a call. -/
def StoreCall.jobId : StoreCall → String
  | .store stored => stored.id.jobId
  | .read id => id.jobId

/-- The answer of a store. -/
inductive StoreAnswer where
  | stored (result : Except Failure Unit)
  | found (result : Except Failure (Option StoredCheckpoint))

/-- The answers of a store to one call after another. -/
def Shelf.answers (storage : CheckpointStorage) : Shelf → List StoreCall → List StoreAnswer
  | _, [] => []
  | shelf, .store stored :: rest =>
    let (shelf, result) := shelf.store storage stored
    .stored result :: shelf.answers storage rest
  | shelf, .read id :: rest => .found (shelf.read storage id) :: shelf.answers storage rest

/-- The answers of a store that finds what was stored last under a similar id. The checkpoints that
were stored before come latest first. -/
def answersBy (similar : CheckpointId → CheckpointId → Bool) :
    List StoredCheckpoint → List StoreCall → List StoreAnswer
  | _, [] => []
  | past, .store stored :: rest => .stored (.ok ()) :: answersBy similar (stored :: past) rest
  | past, .read id :: rest =>
    .found (.ok (past.find? fun stored => similar stored.id id)) :: answersBy similar past rest

/-- A similar id is the same id. -/
def CheckpointId.isSame (id other : CheckpointId) : Bool :=
  id = other

/-- A similar id is an id of the same job. -/
def CheckpointId.isOfSameJob (id other : CheckpointId) : Bool :=
  id.jobId = other.jobId

/-- No job is read under another id than that of its last checkpoint. -/
def ReadsOwn : List StoredCheckpoint → List StoreCall → Prop
  | _, [] => True
  | past, .store stored :: rest => ReadsOwn (stored :: past) rest
  | past, .read id :: rest =>
    (∀ stored, past.find? (fun stored => stored.id.isOfSameJob id) = some stored →
      stored.id = id) ∧ ReadsOwn past rest

/-- What was stored last for a job is what was stored last under an id exactly if it has that id. -/
theorem find_same_job_iff {past : List StoredCheckpoint} {id : CheckpointId} :
    past.find? (fun stored => stored.id.isOfSameJob id) =
        past.find? (fun stored => stored.id.isSame id) ↔
      ∀ stored, past.find? (fun stored => stored.id.isOfSameJob id) = some stored →
        stored.id = id := by
  constructor
  · intro heq stored hstored
    have hsame := List.find?_some (heq ▸ hstored)
    simpa [CheckpointId.isSame] using hsame
  · intro howns
    induction past with
    | nil => rfl
    | cons stored past ih =>
        by_cases hjob : stored.id.jobId = id.jobId
        · have hid : stored.id = id := howns stored (by simp [CheckpointId.isOfSameJob, hjob])
          simp [CheckpointId.isOfSameJob, CheckpointId.isSame, hid]
        · have hid : stored.id ≠ id := fun heq => hjob (congrArg CheckpointId.jobId heq)
          simp only [List.find?_cons, CheckpointId.isOfSameJob, CheckpointId.isSame, hjob, hid,
            decide_false] at howns ⊢
          exact ih howns

/-- Answers by the job are answers by the whole id exactly if every job is read under the id of its
last checkpoint. -/
theorem answers_by_job_iff (past : List StoredCheckpoint) (calls : List StoreCall) :
    answersBy CheckpointId.isOfSameJob past calls = answersBy CheckpointId.isSame past calls ↔
      ReadsOwn past calls := by
  induction calls generalizing past with
  | nil => simp [answersBy, ReadsOwn]
  | cons call rest ih =>
      cases call with
      | store stored => simp [answersBy, ReadsOwn, ih]
      | read id => simp [answersBy, ReadsOwn, ih, find_same_job_iff]

/-! ## In memory -/

/-- A table in memory finds what was stored last under an id. -/
def CheckpointTable.Holds (table : CheckpointTable) (past : List StoredCheckpoint) : Prop :=
  ∀ id, table.lookup id = past.find? fun stored => stored.id.isSame id

/-- A checkpoint that is stored in memory is the last one under its id. -/
theorem CheckpointTable.Holds.store {table : CheckpointTable} {past : List StoredCheckpoint}
    (h : table.Holds past) (stored : StoredCheckpoint) :
    (table.store stored).Holds (stored :: past) := by
  intro id
  by_cases hid : stored.id = id
  · simp [CheckpointTable.store, CheckpointId.isSame, hid]
  · have hne : (id == stored.id) = false := by simpa using fun heq => hid heq.symm
    rw [CheckpointTable.store, List.lookup_cons, hne]
    dsimp only
    rw [List.lookup_filter_ne (Ne.symm hid), h id]
    simp [CheckpointId.isSame, hid]

/-- A store in memory answers by the whole id. -/
theorem Shelf.answers_memory {shelf : Shelf} {past : List StoredCheckpoint}
    (h : shelf.table.Holds past) (calls : List StoreCall) :
    shelf.answers .memory calls = answersBy CheckpointId.isSame past calls := by
  induction calls generalizing shelf past with
  | nil => rfl
  | cons call rest ih =>
      cases call with
      | store stored =>
          have hrest : Shelf.answers .memory ⟨shelf.table.store stored, shelf.tree⟩ rest = _ :=
            ih (h.store stored)
          simp [Shelf.answers, answersBy, Shelf.store, hrest]
      | read id => simp [Shelf.answers, answersBy, Shelf.read, h id, ih h]

/-! ## In a directory -/

namespace CheckpointDirectory

variable {tree : FileTree} {directory jobId : String} {place : List String}
  {past : List StoredCheckpoint} {stored : StoredCheckpoint}

/-- A job whose temporary file, too, has a name and a path that the file system takes. -/
structure IsSavable (directory jobId : String) : Prop where
  no_slash : '/' ∉ jobId.toList
  no_zero : '\x00' ∉ jobId.toList
  short : (temporaryName jobId).utf8ByteSize ≤ FileTree.longestName
  short_path : (temporaryPath (pathOf directory jobId)).utf8ByteSize ≤ FileTree.longestPath

/-- The file of a job has a shorter name than its temporary file. -/
theorem IsSavable.is_job_name (h : IsSavable directory jobId) : IsJobName directory jobId where
  no_slash := h.no_slash
  no_zero := h.no_zero
  short := by
    have hshort := h.short
    rw [temporaryName, String.utf8ByteSize_append] at hshort
    exact Nat.le_of_add_right_le hshort
  short_path := by
    have hshort := h.short_path
    unfold temporaryPath at hshort
    split at hshort <;> rw [String.utf8ByteSize_append] at hshort <;>
      exact Nat.le_of_add_right_le hshort

/-- A temporary file is located in the directory. -/
theorem IsSavable.locate_temporary (hjob : IsSavable directory jobId)
    (h : tree.Leads directory place) :
    tree.locate (temporaryPath (pathOf directory jobId)) =
      .ok (place ++ [temporaryName jobId]) := by
  have hname := hjob.is_job_name.temporary_name
  have hpath := hjob.short_path
  rw [hjob.is_job_name.temporary_path] at hpath ⊢
  exact h.locate_inside
    ⟨hname.toIsName, ⟨hname.not_same, hname.not_up, hjob.short⟩, hname.no_zero, hpath⟩

/-- A temporary file is written unless it is a directory. -/
theorem IsSavable.write_eq (hjob : IsSavable directory jobId) (h : tree.Leads directory place)
    (hentry : tree.entry? (place ++ [temporaryName jobId]) ≠ some .directory) (text : String) :
    tree.write (temporaryPath (pathOf directory jobId)) text =
      .ok (tree.put (place ++ [temporaryName jobId]) (.file text)) := by
  rw [FileTree.write, hjob.locate_temporary h, Except.ok_bind]
  split
  · rename_i hdirectory
    exact absurd hdirectory hentry
  · rfl

/-- A directory that is there has the last checkpoint of every job, and its temporary files are no
directories. -/
structure HoldsAt (tree : FileTree) (directory : String) (place : List String)
    (past : List StoredCheckpoint) : Prop where
  leads : tree.Leads directory place
  file : ∀ job, IsSavable directory job → tree.entry? (place ++ [fileName job]) =
    (past.find? fun stored => stored.id.jobId = job).map fun stored => .file stored.written
  temporary : ∀ job, IsSavable directory job →
    tree.entry? (place ++ [temporaryName job]) ≠ some .directory

/-- What a directory has of a job is the text of its last checkpoint. -/
theorem HoldsAt.content (h : HoldsAt tree directory place past) (hjob : IsSavable directory jobId) :
    contentOf tree directory jobId =
      .ok ((past.find? fun stored => stored.id.jobId = jobId).map StoredCheckpoint.written) := by
  rw [content_of_leads h.leads hjob.is_job_name, h.file jobId hjob]
  cases past.find? fun stored => stored.id.jobId = jobId <;> rfl

/-- The files after a checkpoint was written to a temporary file that was renamed. -/
def storedTree (tree : FileTree) (place : List String) (stored : StoredCheckpoint) : FileTree :=
  ((tree.put (place ++ [temporaryName stored.id.jobId]) (.file stored.written)).erase
    (place ++ [temporaryName stored.id.jobId])).put
      (place ++ [fileName stored.id.jobId]) (.file stored.written)

/-- The files of jobs then are what they were but for the one that was stored. -/
theorem stored_tree_file (job : String) :
    FileTree.entry? (storedTree tree place stored) (place ++ [fileName job]) =
      if stored.id.jobId = job then some (.file stored.written)
      else tree.entry? (place ++ [fileName job]) := by
  split
  · rename_i heq
    subst heq
    exact FileTree.entry_put_self (by simp) _
  · rename_i hne
    have hfile : place ++ [fileName job] ≠ place ++ [fileName stored.id.jobId] :=
      path_ne fun heq => hne (file_name_inj heq).symm
    have htemporary : place ++ [fileName job] ≠ place ++ [temporaryName stored.id.jobId] :=
      path_ne (file_name_ne_temporary _ _)
    rw [storedTree, FileTree.entry_put_of_ne hfile, FileTree.entry_erase_of_ne htemporary,
      FileTree.entry_put_of_ne htemporary]

/-- The temporary files then are what they were but for the one that was renamed. -/
theorem stored_tree_temporary (job : String) :
    FileTree.entry? (storedTree tree place stored) (place ++ [temporaryName job]) =
      if temporaryName stored.id.jobId = temporaryName job then none
      else tree.entry? (place ++ [temporaryName job]) := by
  rw [storedTree, FileTree.entry_put_of_ne (path_ne (file_name_ne_temporary _ _).symm)]
  split
  · rename_i heq
    rw [heq]
    exact FileTree.entry_erase_self (by simp)
  · rename_i hne
    have htemporary : place ++ [temporaryName job] ≠ place ++ [temporaryName stored.id.jobId] :=
      path_ne (Ne.symm hne)
    rw [FileTree.entry_erase_of_ne htemporary, FileTree.entry_put_of_ne htemporary]

/-- A checkpoint is stored. -/
theorem HoldsAt.store_eq (h : HoldsAt tree directory place past)
    (hjob : IsSavable directory stored.id.jobId) :
    store tree directory stored = (storedTree tree place stored, .ok ()) ∧
      (storedTree tree place stored).Leads directory place := by
  have htemporary := h.temporary _ hjob
  have hwrite := hjob.write_eq h.leads htemporary stored.written
  have hwritten : HasTemporary
      (tree.put (place ++ [temporaryName stored.id.jobId]) (.file stored.written))
      directory place stored.id.jobId stored.written :=
    ⟨h.leads.put htemporary _, FileTree.entry_put_self (by simp) _⟩
  have hfile : FileTree.entry?
      (tree.put (place ++ [temporaryName stored.id.jobId]) (.file stored.written))
      (place ++ [fileName stored.id.jobId]) ≠ some .directory := by
    rw [FileTree.entry_put_of_ne (path_ne (file_name_ne_temporary _ _)), h.file _ hjob]
    cases past.find? fun other => other.id.jobId = stored.id.jobId <;> simp
  have hrename := hwritten.rename_eq hjob.is_job_name (hjob.locate_temporary hwritten.leads)
  rw [if_neg hfile] at hrename
  constructor
  · have hwritten : stored.toJson.renderIndented = stored.written := rfl
    simp [store, storeSteps, applySteps, Step.apply, inContext, h.leads.make_directories, hwritten,
      hwrite, hrename, storedTree]
  · exact (hwritten.rename_facts hjob.is_job_name hrename).1

/-- A checkpoint that is stored is the last one of its job. -/
theorem HoldsAt.after_store (h : HoldsAt tree directory place past)
    (hjob : IsSavable directory stored.id.jobId) :
    HoldsAt (storedTree tree place stored) directory place (stored :: past) where
  leads := (h.store_eq hjob).2
  file job hname := by
    rw [stored_tree_file, h.file job hname, List.find?_cons]
    by_cases heq : stored.id.jobId = job <;> simp [heq]
  temporary job hname := by
    rw [stored_tree_temporary]
    split
    · simp
    · exact h.temporary job hname

/-- A directory has the last checkpoint of every job, or it can be made and none was stored. -/
def Holds (tree : FileTree) (directory : String) (past : List StoredCheckpoint) : Prop :=
  ∃ made place, tree.makeDirectories directory = .ok made ∧ HoldsAt made directory place past ∧
    ∀ job, IsSavable directory job → contentOf tree directory job = contentOf made directory job

/-- A directory that is there can be read as it is. -/
theorem HoldsAt.holds (h : HoldsAt tree directory place past) : Holds tree directory past :=
  ⟨tree, place, h.leads.make_directories, h, fun _ _ => rfl⟩

/-- A directory can be made, and then nothing is in it. -/
def IsEmptyDirectory (tree : FileTree) (directory : String) : Prop :=
  ∃ made place, tree.makeDirectories directory = .ok made ∧ made.Leads directory place ∧
    ∀ name, made.entry? (place ++ [name]) = none

/-- An empty directory has no checkpoints. -/
theorem IsEmptyDirectory.holds (h : IsEmptyDirectory tree directory) : Holds tree directory [] := by
  obtain ⟨made, place, hmade, hleads, hempty⟩ := h
  have hholds : HoldsAt made directory place [] :=
    ⟨hleads, fun _ _ => hempty _, fun _ _ => by simp [hempty]⟩
  refine ⟨made, place, hmade, hholds, ?_⟩
  intro job hjob
  rcases FileTree.make_directories_cases hmade with ⟨_, hthere⟩ | hmissing
  · rw [Except.ok.inj (hthere.make_directories.symm.trans hmade)]
  · rw [hholds.content hjob, content_of_not_found (hmissing _ hjob.is_job_name.file_name)]
    rfl

/-- Storing succeeds and makes the checkpoint the last one of its job. -/
theorem Holds.store (h : Holds tree directory past) (hjob : IsSavable directory stored.id.jobId) :
    ∃ left, CheckpointDirectory.store tree directory stored = (left, .ok ()) ∧
      Holds left directory (stored :: past) := by
  obtain ⟨made, place, hmade, hholds, -⟩ := h
  obtain ⟨hstore, -⟩ := hholds.store_eq hjob
  refine ⟨storedTree made place stored, ?_, (hholds.after_store hjob).holds⟩
  rw [← hstore]
  simp [CheckpointDirectory.store, storeSteps, applySteps, Step.apply, inContext, hmade,
    hholds.leads.make_directories]

/-- Reading gives the last checkpoint of the job. -/
theorem Holds.read (h : Holds tree directory past) (hjob : IsSavable directory jobId) :
    CheckpointDirectory.read tree directory jobId =
      .ok (past.find? fun stored => stored.id.jobId = jobId) := by
  obtain ⟨made, place, -, hholds, hcontent⟩ := h
  rw [CheckpointDirectory.read, hcontent jobId hjob, hholds.content hjob]
  cases past.find? fun stored => stored.id.jobId = jobId with
  | none => rfl
  | some stored => simp [inContext, bind, Except.bind, pure, Except.pure]

end CheckpointDirectory

open CheckpointDirectory (IsSavable IsEmptyDirectory Holds bareTree bare_tree_leads bare_tree_entry)

/-- A store in a directory answers by the job. -/
theorem Shelf.answers_filesystem {shelf : Shelf} {directory : String}
    {past : List StoredCheckpoint} (h : Holds shelf.tree directory past) {calls : List StoreCall}
    (hcalls : ∀ call ∈ calls, IsSavable directory call.jobId) :
    shelf.answers (.filesystem directory) calls =
      answersBy CheckpointId.isOfSameJob past calls := by
  induction calls generalizing shelf past with
  | nil => rfl
  | cons call rest ih =>
      have hcall := hcalls call List.mem_cons_self
      have hrest : ∀ call ∈ rest, IsSavable directory call.jobId :=
        fun call hmem => hcalls call (List.mem_cons_of_mem _ hmem)
      cases call with
      | store stored =>
          obtain ⟨left, hstore, hleft⟩ := h.store hcall
          have hanswers : Shelf.answers (.filesystem directory) ⟨shelf.table, left⟩ rest = _ :=
            ih hleft hrest
          simp [Shelf.answers, answersBy, Shelf.store, hstore, hanswers]
      | read id =>
          have hread : shelf.read (.filesystem directory) id =
              .ok (past.find? fun stored => stored.id.isOfSameJob id) := h.read hcall
          rw [Shelf.answers, answersBy, hread, ih h hrest]

/-! ## Both stores -/

/-- From empty stores, a store in memory answers by the whole id and a store in a directory by the
job, and both never fail; their answers are the same exactly if no job is read under another id
than that of its last checkpoint. -/
theorem Shelf.answers_eq_iff {shelf : Shelf} {directory : String} (htable : shelf.table = [])
    (hempty : IsEmptyDirectory shelf.tree directory) {calls : List StoreCall}
    (hcalls : ∀ call ∈ calls, IsSavable directory call.jobId) :
    shelf.answers .memory calls = answersBy CheckpointId.isSame [] calls ∧
      shelf.answers (.filesystem directory) calls =
        answersBy CheckpointId.isOfSameJob [] calls ∧
      (shelf.answers (.filesystem directory) calls = shelf.answers .memory calls ↔
        ReadsOwn [] calls) := by
  have hmemory : shelf.answers .memory calls = answersBy CheckpointId.isSame [] calls :=
    answers_memory (by simp [CheckpointTable.Holds, htable]) calls
  have hfilesystem := answers_filesystem hempty.holds hcalls
  refine ⟨hmemory, hfilesystem, ?_⟩
  rw [hmemory, hfilesystem]
  exact answers_by_job_iff [] calls

/-- An empty directory that is there. -/
theorem bare_tree_empty : IsEmptyDirectory bareTree "ckpt" :=
  ⟨bareTree, _, bare_tree_leads.make_directories, bare_tree_leads, bare_tree_entry⟩

/-- Two jobs with sources of different kinds, and a third one that was never stored. -/
theorem answers_eq_iff_two_jobs :
    let offset : CheckpointId := ⟨"offset", "job-1"⟩
    let log := CheckpointId.of Position "job-2"
    let shelf : Shelf := ⟨[], bareTree⟩
    let calls : List StoreCall := [.store ⟨"10", offset, .epoch⟩, .store ⟨"20", log, .epoch⟩,
      .read offset, .read log, .read ⟨"offset", "job-3"⟩]
    (∀ call ∈ calls, IsSavable "ckpt" call.jobId) ∧
      shelf.answers (.filesystem "ckpt") calls = shelf.answers .memory calls := by
  intro offset log shelf calls
  have hfirst : IsSavable "ckpt" "job-1" := ⟨by decide, by decide, by decide, by decide +kernel⟩
  have hsecond : IsSavable "ckpt" "job-2" := ⟨by decide, by decide, by decide, by decide +kernel⟩
  have hthird : IsSavable "ckpt" "job-3" := ⟨by decide, by decide, by decide, by decide +kernel⟩
  have hcalls : ∀ call ∈ calls, IsSavable "ckpt" call.jobId := by
    simp [calls, offset, log, StoreCall.jobId, CheckpointId.of, hfirst, hsecond, hthird]
  have howns : ReadsOwn [] calls := by
    simp [calls, offset, log, ReadsOwn, CheckpointId.isOfSameJob, CheckpointId.of]
  exact ⟨hcalls, (Shelf.answers_eq_iff rfl bare_tree_empty hcalls).2.2.mpr howns⟩

/-- A checkpoint that was stored under one kind of source is read under another: nothing was stored
under that id, and the store in memory says so. -/
theorem reads_other_source :
    let stored : StoredCheckpoint := ⟨"10", ⟨"offset", "job-1"⟩, .epoch⟩
    let shelf : Shelf := ⟨[], bareTree⟩
    let calls : List StoreCall := [.store stored, .read (CheckpointId.of Position "job-1")]
    shelf.answers .memory calls = [.stored (.ok ()), .found (.ok none)] ∧
      shelf.answers (.filesystem "ckpt") calls =
        [.stored (.ok ()), .found (.ok (some stored))] := by
  intro stored shelf calls
  have hjob : IsSavable "ckpt" "job-1" := ⟨by decide, by decide, by decide, by decide +kernel⟩
  have hcalls : ∀ call ∈ calls, IsSavable "ckpt" call.jobId := by
    simp [calls, stored, StoreCall.jobId, CheckpointId.of, hjob]
  constructor
  · have hempty : shelf.table.Holds [] := fun _ => rfl
    exact Shelf.answers_memory hempty calls
  · exact Shelf.answers_filesystem bare_tree_empty.holds hcalls

end ChangeFeed
