import ChangeFeed.Proofs.Checkpoint.Directory
import ChangeFeed.Proofs.Checkpoint.Document

/-!
# Saves that are cut off

A save of a position to a directory makes the directory, writes a temporary file and renames it,
and a crash or an error can cut it off anywhere, also inside one of these changes
(`CheckpointDirectory.CutOff`). Read `CheckpointDirectory.save_cut_off` first: the job then goes on
from the saved position or from where it would have gone on before, no other job notices, and the
checkpoint file that is shown says the same. `CheckpointDirectory.cut_off_out_of_bounds` shows what
happens with names and paths that the file system does not take and with directories that are not
there. `CheckpointDirectory.Saves.loaded` is about any number of saves that are cut off.
-/

namespace ChangeFeed.CheckpointDirectory

variable {tree left : FileTree} {directory jobId : String} {stored : StoredCheckpoint}
  {place : List String}

/-! ## Changes that are cut off -/

/-- What a change leaves behind that was cut off: nothing, a part of the directories, or a
temporary file with any text. Renaming happens as a whole or not at all. -/
inductive Step.Leaves (tree : FileTree) : Step → FileTree → Prop where
  | nothing (step : Step) : Leaves tree step tree
  | directories {path : String} {part : FileTree} (h : tree.HasMadePart path part) :
      Leaves tree (.makeDirectories path) part
  | content {path content part : String} {written : FileTree}
      (h : tree.write path part = .ok written) : Leaves tree (.write path content) written

/-- What changes leave behind that were cut off at some point, or after the last of them. -/
inductive CutOff : FileTree → List Step → FileTree → Prop where
  | within {tree left : FileTree} {step : Step} (h : step.Leaves tree left) (rest : List Step) :
      CutOff tree (step :: rest) left
  | later {tree next left : FileTree} {step : Step} {rest : List Step}
      (h : step.apply tree = .ok next) (hrest : CutOff next rest left) :
      CutOff tree (step :: rest) left
  | done (tree : FileTree) : CutOff tree [] tree

/-- Changes that end by themselves, with or without a failure, leave something behind that they
also leave when they are cut off. -/
theorem cut_off_apply_steps (tree : FileTree) (steps : List Step) :
    CutOff tree steps (applySteps tree steps).1 := by
  induction steps generalizing tree with
  | nil => exact .done tree
  | cons step rest ih =>
      rw [applySteps]
      cases happly : step.apply tree with
      | ok next => exact .later happly (ih next)
      | error failure => exact .within (.nothing step) rest

/-- Changes succeed if the first one does and the others do after it. -/
theorem apply_steps_cons {step : Step} {rest : List Step}
    (h : applySteps tree (step :: rest) = (left, .ok ())) :
    ∃ next, step.apply tree = .ok next ∧ applySteps next rest = (left, .ok ()) := by
  rw [applySteps] at h
  cases happly : step.apply tree with
  | ok next =>
      rw [happly] at h
      exact ⟨next, rfl, h⟩
  | error failure =>
      rw [happly] at h
      exact absurd (congrArg Prod.snd h) (by simp)

/-! ## Storing a checkpoint -/

/-- A directory is still ready and no checkpoint in it has changed. -/
structure IsUntouched (tree left : FileTree) (directory : String) : Prop where
  ready : IsReady left directory
  same : ∀ job, IsJobName directory job →
    contentOf left directory job = contentOf tree directory job

/-- A directory is still ready and has a new checkpoint for its job, and for this job only. -/
structure IsStored (tree left : FileTree) (directory : String) (stored : StoredCheckpoint) :
    Prop where
  ready : IsReady left directory
  content : contentOf left directory stored.id.jobId = .ok (some stored.written)
  others : ∀ other, IsJobName directory other → other ≠ stored.id.jobId →
    contentOf left directory other = contentOf tree directory other

/-- What is stored after changes that touch no checkpoint is stored. -/
theorem IsUntouched.then_stored {next : FileTree} (h : IsUntouched tree next directory)
    (hstored : IsStored next left directory stored) : IsStored tree left directory stored where
  ready := hstored.ready
  content := hstored.content
  others other hother hne := (hstored.others other hother hne).trans (h.same other hother)

/-- Changes that touch no checkpoint may stand in front of others. -/
theorem IsUntouched.before {next : FileTree} (h : IsUntouched tree next directory)
    (hrest : IsUntouched next left directory ∨ IsStored next left directory stored) :
    IsUntouched tree left directory ∨ IsStored tree left directory stored := by
  rcases hrest with hsame | hstored
  · exact .inl ⟨hsame.ready, fun job hjob => (hsame.same job hjob).trans (h.same job hjob)⟩
  · exact .inr (h.then_stored hstored)

/-- A directory that was made is there, and no checkpoint has changed. -/
theorem made_facts (h : IsReady tree directory)
    (hmade : (Step.makeDirectories directory).apply tree = .ok left) :
    ∃ place, left.Leads directory place ∧ IsUntouched tree left directory := by
  obtain ⟨made, hmakes, hsame⟩ := h
  have hleft : tree.makeDirectories directory = .ok left := by
    simpa [Step.apply, inContext] using hmade
  obtain rfl := Except.ok.inj (hmakes.symm.trans hleft)
  obtain ⟨place, hleads⟩ := FileTree.make_directories_leads hmakes
  exact ⟨place, hleads, ready_of_leads hleads, hsame⟩

/-- A temporary file that was renamed is the checkpoint of its job. -/
theorem renamed_facts (h : HasTemporary tree directory place stored.id.jobId stored.written)
    (hjob : IsJobName directory stored.id.jobId)
    (hrename : (Step.rename (temporaryPath (pathOf directory stored.id.jobId))
      (pathOf directory stored.id.jobId)).apply tree = .ok left) :
    IsStored tree left directory stored := by
  obtain ⟨hleads, hcontent, hothers⟩ :=
    h.rename_facts hjob (by simpa [Step.apply, inContext] using hrename)
  exact ⟨ready_of_leads hleads, hcontent, hothers⟩

/-- A checkpoint that is stored completely is the checkpoint of its job. -/
theorem store_facts (h : IsReady tree directory) (hjob : IsJobName directory stored.id.jobId)
    (hstore : store tree directory stored = (left, .ok ())) :
    IsStored tree left directory stored := by
  obtain ⟨made, hmade, hstore⟩ := apply_steps_cons hstore
  obtain ⟨written, hwrite, hstore⟩ := apply_steps_cons hstore
  obtain ⟨renamed, hrename, hstore⟩ := apply_steps_cons hstore
  obtain rfl : renamed = left := congrArg Prod.fst hstore
  obtain ⟨place, hleads, huntouched⟩ := made_facts h hmade
  obtain ⟨htemporary, hwritten⟩ := write_facts hleads hjob (by simpa [Step.apply] using hwrite)
  have hready := ready_of_leads htemporary.leads
  have hstored := renamed_facts htemporary hjob hrename
  exact huntouched.then_stored (IsUntouched.then_stored ⟨hready, hwritten⟩ hstored)

/-- A checkpoint whose storing was cut off is stored completely or not at all. -/
theorem cut_off_facts (h : IsReady tree directory) (hjob : IsJobName directory stored.id.jobId)
    (hcut : CutOff tree (storeSteps directory stored) left) :
    IsUntouched tree left directory ∨ IsStored tree left directory stored := by
  cases hcut with
  | within hleaves =>
      cases hleaves with
      | nothing => exact .inl ⟨h, fun _ _ => rfl⟩
      | directories hpart => exact .inl ⟨(h.part hpart).1, (h.part hpart).2⟩
  | later hmade hcut =>
      obtain ⟨place, hleads, huntouched⟩ := made_facts h hmade
      refine huntouched.before ?_
      cases hcut with
      | within hleaves =>
          cases hleaves with
          | nothing => exact .inl ⟨ready_of_leads hleads, fun _ _ => rfl⟩
          | content hwrite =>
              obtain ⟨htemporary, hwritten⟩ := write_facts hleads hjob hwrite
              exact .inl ⟨ready_of_leads htemporary.leads, hwritten⟩
      | later hwrite hcut =>
          obtain ⟨htemporary, hwritten⟩ :=
            write_facts hleads hjob (by simpa [Step.apply] using hwrite)
          have hready := ready_of_leads htemporary.leads
          refine IsUntouched.before ⟨hready, hwritten⟩ ?_
          cases hcut with
          | within hleaves =>
              cases hleaves with
              | nothing => exact .inl ⟨hready, fun _ _ => rfl⟩
          | later hrename hcut =>
              cases hcut with
              | done => exact .inr (renamed_facts htemporary hjob hrename)

/-! ## What is loaded -/

/-- What a job goes on from when its file is absent or was written by a complete save. -/
inductive IsSaved (tree : FileTree) (directory jobId : String) : Option Position → Prop where
  | absent (h : contentOf tree directory jobId = .ok none) : IsSaved tree directory jobId none
  | complete {now : Calendar.Instant} {p : Position}
      (h : contentOf tree directory jobId =
        .ok (some (StoredCheckpoint.ofPosition jobId now p).written)) :
      IsSaved tree directory jobId (some p)

/-- A directory in which every job's file is absent or was written by a complete save. -/
structure IsOrderly (tree : FileTree) (directory : String) : Prop where
  ready : IsReady tree directory
  saved : ∀ job, IsJobName directory job → ∃ position?, IsSaved tree directory job position?

/-- The position in the checkpoint file that is shown of a job. -/
def shownPosition (tree : FileTree) (directory jobId : String) :
    Except Failure (Option Position) := do
  match ← loadFile tree directory jobId with
  | none => return none
  | some file => return some (← file.state? Position)

/-- A job goes on from what was saved, and its checkpoint file shows it. -/
theorem IsSaved.loaded {position? : Option Position} (h : IsSaved tree directory jobId position?)
    (table : CheckpointTable) :
    Shelf.load Position ⟨table, tree⟩ (.filesystem directory) jobId = .ok position? ∧
      shownPosition tree directory jobId = .ok position? := by
  cases h with
  | absent h =>
      have hread : read tree directory jobId = .ok none := by
        rw [read, h]
        rfl
      have hload : loadFile tree directory jobId = .ok none := by
        rw [loadFile, h]
        rfl
      constructor
      · simp [Shelf.load, Shelf.read, CheckpointId.of, hread, bind, Except.bind, pure, Except.pure]
      · simp [shownPosition, hload, bind, Except.bind, pure, Except.pure]
  | @complete now p h =>
      obtain ⟨file, hfile, hstate⟩ := StoredCheckpoint.file_of_position jobId now p
      have hread : read tree directory jobId = .ok (some (.ofPosition jobId now p)) := by
        simp [read, h, inContext, bind, Except.bind, pure, Except.pure]
      have hload : loadFile tree directory jobId = .ok (some file) := by
        simp [loadFile, h, hfile, bind, Except.bind, pure, Except.pure]
      constructor
      · simp [Shelf.load, Shelf.read, CheckpointId.of, hread, hfile, hstate, bind, Except.bind,
          pure, Except.pure]
      · simp [shownPosition, hload, hstate, bind, Except.bind, pure, Except.pure]

/-- What is loaded of a job depends on the text of its file only. -/
theorem load_congr {table : CheckpointTable}
    (h : contentOf left directory jobId = contentOf tree directory jobId) :
    Shelf.load Position ⟨table, left⟩ (.filesystem directory) jobId =
      Shelf.load Position ⟨table, tree⟩ (.filesystem directory) jobId := by
  simp only [Shelf.load, Shelf.read, CheckpointId.of, read_congr h]

/-- Jobs stay saved when their files stay what they are. -/
theorem IsSaved.congr {position? : Option Position} (h : IsSaved tree directory jobId position?)
    (hsame : contentOf left directory jobId = contentOf tree directory jobId) :
    IsSaved left directory jobId position? := by
  cases h with
  | absent h => exact .absent (hsame.trans h)
  | complete h => exact .complete (hsame.trans h)

/-- Storing a position that is cut off leaves every file absent or complete. -/
theorem IsOrderly.cut_off (h : IsOrderly tree directory) (hjob : IsJobName directory jobId)
    {now : Calendar.Instant} {p : Position}
    (hcut : CutOff tree (storeSteps directory (.ofPosition jobId now p)) left) :
    IsOrderly left directory := by
  rcases cut_off_facts h.ready hjob hcut with huntouched | hstored
  · refine ⟨huntouched.ready, ?_⟩
    intro job hname
    obtain ⟨position?, hsaved⟩ := h.saved job hname
    exact ⟨position?, hsaved.congr (huntouched.same job hname)⟩
  · refine ⟨hstored.ready, ?_⟩
    intro job hname
    by_cases heq : job = jobId
    · subst heq
      exact ⟨some p, .complete hstored.content⟩
    · obtain ⟨position?, hsaved⟩ := h.saved job hname
      exact ⟨position?, hsaved.congr (hstored.others job hname heq)⟩

/-- Saving a position is atomic and touches no other job: wherever it is cut off, the job goes on
from the new position or from where it would have gone on, from the new one if the save succeeded;
and what every job goes on from is what its checkpoint file shows. -/
theorem save_cut_off {shelf : Shelf} (horderly : IsOrderly shelf.tree directory)
    (hjob : IsJobName directory jobId) (now : Calendar.Instant) (p : Position) :
    let storage := CheckpointStorage.filesystem directory
    let saved := shelf.save storage jobId now p
    let leaves := CutOff shelf.tree (storeSteps directory (.ofPosition jobId now p))
    let load (tree : FileTree) := Shelf.load Position { shelf with tree := tree } storage
    leaves saved.1.tree ∧ (saved.2 = .ok () → load saved.1.tree jobId = .ok (some p)) ∧
      ∀ left, leaves left → IsOrderly left directory ∧
        (load left jobId = .ok (some p) ∨ load left jobId = load shelf.tree jobId) ∧
        (∀ other, IsJobName directory other → other ≠ jobId →
          load left other = load shelf.tree other) ∧
        ∀ job, IsJobName directory job → ∃ position?, load left job = .ok position? ∧
          shownPosition left directory job = .ok position? := by
  intro storage saved leaves load
  refine ⟨cut_off_apply_steps shelf.tree _, ?_, ?_⟩
  · intro hsaved
    have hstore : store shelf.tree directory (.ofPosition jobId now p) =
        (saved.1.tree, .ok ()) := Prod.ext rfl hsaved
    have hstored := store_facts horderly.ready hjob hstore
    exact (IsSaved.complete hstored.content).loaded shelf.table |>.1
  · intro left hcut
    have hleft := horderly.cut_off hjob hcut
    refine ⟨hleft, ?_, ?_, ?_⟩
    · rcases cut_off_facts horderly.ready hjob hcut with huntouched | hstored
      · exact .inr (load_congr (huntouched.same jobId hjob))
      · exact .inl ((IsSaved.complete hstored.content).loaded shelf.table).1
    · intro other hother hne
      rcases cut_off_facts horderly.ready hjob hcut with huntouched | hstored
      · exact load_congr (huntouched.same other hother)
      · exact load_congr (hstored.others other hother hne)
    · intro job hname
      obtain ⟨position?, hposition⟩ := hleft.saved job hname
      exact ⟨position?, hposition.loaded shelf.table⟩

/-! ## An example -/

/-- A directory with the checkpoint of one job, and a temporary file that was written in part. -/
def exampleTree : FileTree :=
  (bareTree.put (["ckpt"] ++ [fileName "orders"])
    (.file (StoredCheckpoint.ofPosition "orders" .epoch ⟨16⟩).written)).put
      (["ckpt"] ++ [temporaryName "orders"]) (.file "\x7b")

/-- The example's directory is there. -/
theorem example_tree_leads : exampleTree.Leads "ckpt" ["ckpt"] :=
  (bare_tree_leads.put (by decide +kernel) _).put (by decide +kernel) _

/-- The example's one checkpoint. -/
theorem example_tree_content :
    contentOf exampleTree "ckpt" "orders" =
      .ok (some (StoredCheckpoint.ofPosition "orders" .epoch ⟨16⟩).written) := by
  have hentry : exampleTree.entry? (["ckpt"] ++ [fileName "orders"]) =
      some (.file (StoredCheckpoint.ofPosition "orders" .epoch ⟨16⟩).written) := by
    rw [exampleTree, FileTree.entry_put_of_ne (path_ne (file_name_ne_temporary _ _))]
    exact FileTree.entry_put_self (by simp) _
  rw [content_of_leads example_tree_leads ⟨by decide, by decide, by decide, by decide +kernel⟩,
    hentry]

/-- The example's files are absent or complete. -/
theorem example_tree_orderly : IsOrderly exampleTree "ckpt" where
  ready := ready_of_leads example_tree_leads
  saved job hjob := by
    by_cases heq : job = "orders"
    · subst heq
      exact ⟨_, .complete example_tree_content⟩
    · refine ⟨none, .absent ?_⟩
      have hname : fileName job ≠ fileName "orders" := fun hsame => heq (file_name_inj hsame)
      have hentry : exampleTree.entry? (["ckpt"] ++ [fileName job]) = none := by
        rw [exampleTree, FileTree.entry_put_of_ne (path_ne (file_name_ne_temporary _ _)),
          FileTree.entry_put_of_ne (path_ne hname), bare_tree_entry]
      rw [content_of_leads example_tree_leads hjob, hentry]

/-- In the example a save succeeds, and one that is cut off leaves the old position or the new
one. -/
theorem save_cut_off_orders :
    let storage := CheckpointStorage.filesystem "ckpt"
    let saved := Shelf.save ⟨[], exampleTree⟩ storage "orders" .epoch (⟨32⟩ : Position)
    IsOrderly exampleTree "ckpt" ∧ IsJobName "ckpt" "orders" ∧ saved.2 = .ok () ∧
      saved.1.load Position storage "orders" = .ok (some ⟨32⟩) ∧
      ∀ left, CutOff exampleTree (storeSteps "ckpt" (.ofPosition "orders" .epoch ⟨32⟩)) left →
        Shelf.load Position ⟨[], left⟩ storage "orders" = .ok (some ⟨32⟩) ∨
          Shelf.load Position ⟨[], left⟩ storage "orders" = .ok (some ⟨16⟩) := by
  intro storage saved
  have hjob : IsJobName "ckpt" "orders" :=
    ⟨by decide, by decide, by decide, by decide +kernel⟩
  have hsaved : saved.2 = .ok () := by decide +kernel
  obtain ⟨-, hcomplete, hcuts⟩ :=
    @save_cut_off "ckpt" "orders" ⟨[], exampleTree⟩ example_tree_orderly hjob .epoch ⟨32⟩
  refine ⟨example_tree_orderly, hjob, hsaved, hcomplete hsaved, ?_⟩
  intro left hcut
  obtain ⟨-, hload, -⟩ := hcuts left hcut
  obtain ⟨hbefore, -⟩ := (IsSaved.complete example_tree_content).loaded []
  exact hload.imp_right fun hold => hold.trans hbefore

/-! ## What a file system does not take -/

/-- A directory whose path starts in a directory that is missing. -/
structure IsBelowMissing (tree : FileTree) (directory first : String) (rest : List String) :
    Prop where
  is_path : FileTree.IsPath directory
  names : FilePath.names directory = first :: rest
  proper : FileTree.IsProper first
  missing : tree.entry? (tree.startOf directory ++ [first]) = none

/-- Nothing is found below a directory that is missing. -/
theorem IsBelowMissing.absent {first : String} {rest : List String}
    (h : IsBelowMissing tree directory first rest) (hjob : IsJobName directory jobId) :
    contentOf tree directory jobId = .ok none := by
  have hname := hjob.file_name
  refine content_of_not_found ?_
  rw [pathOf, FileTree.locate_inside_eq hname.toIsName (hname.is_path h.is_path), h.names]
  simp [FileTree.follow, h.proper.not_same, h.proper.not_up, Nat.not_lt.mpr h.proper.short,
    h.missing]

/-- A save can be cut off when the first directory was made. -/
theorem IsBelowMissing.cut_off {first : String} {rest : List String}
    (h : IsBelowMissing tree directory first rest) (stored : StoredCheckpoint) :
    CutOff tree (storeSteps directory stored)
      (tree.put (tree.startOf directory ++ [first]) .directory) := by
  refine .within (.directories ⟨[first], rest, h.names, ?_⟩) _
  simp [FileTree.makeAlong, h.proper.not_same, h.proper.not_up, Nat.not_lt.mpr h.proper.short,
    h.missing]

/-- A job whose file cannot be read is not loaded. -/
theorem load_of_error {table : CheckpointTable} {fault : Failure}
    (h : contentOf tree directory jobId = .error fault) :
    Shelf.load Position ⟨table, tree⟩ (.filesystem directory) jobId = .error fault := by
  simp [Shelf.load, Shelf.read, CheckpointId.of, read, h, bind, Except.bind]

/-- The size of a character that is repeated. -/
theorem size_replicate (c : Char) (n : Nat) :
    (String.ofList (List.replicate n c)).utf8ByteSize = n * c.utf8Size := by
  induction n with
  | zero => simp
  | succ n ih =>
      rw [List.replicate_succ, ← List.singleton_append, String.ofList_append,
        String.utf8ByteSize_append, ih, Nat.succ_mul, Nat.add_comm]
      simp

/-- However many slashes a path consists of, it leads through no names. -/
theorem names_replicate_slash (n : Nat) :
    FilePath.names (String.ofList (List.replicate n '/')) = [] := by
  unfold FilePath.names
  rw [String.toList_ofList]
  induction n with
  | zero => rfl
  | succ n ih =>
      rw [List.replicate_succ', FilePath.parts_append _ List.not_mem_nil, List.filter_append,
        List.map_append, ih]
      rfl

/-- The path of a job's file is no shorter than that of its directory. -/
theorem size_le_path (directory jobId : String) :
    directory.utf8ByteSize ≤ (pathOf directory jobId).utf8ByteSize := by
  unfold pathOf FilePath.inside
  split <;> simp only [String.utf8ByteSize_append] <;> omega

/-- A long name, a long path, and directories that are not there: a job with a long name is not
loaded although its directory is empty, and neither is a job whose directory is spelled at length,
although the root has no checkpoints; a save that cannot make the directory leaves its job behind
unloadable; and a directory that is made can bring checkpoints of other jobs to light. -/
theorem cut_off_out_of_bounds :
    let long := String.ofList (List.replicate 300 'j')
    let root := String.ofList (List.replicate 4096 '/')
    let notes := exampleTree.put ["notes"] (.file "")
    let steps (directory jobId : String) := storeSteps directory (.ofPosition jobId .epoch ⟨32⟩)
    let load (tree : FileTree) (directory : String) :=
      Shelf.load Position ⟨[], tree⟩ (.filesystem directory)
    ('/' ∉ long.toList ∧ (∀ name, bareTree.entry? (["ckpt"] ++ [name]) = none) ∧
      ∃ left, CutOff bareTree (steps "ckpt" long) left ∧
        load left "ckpt" long = .error (.ofCause (.file .nameTooLong))) ∧
    (FilePath.names root = [] ∧ (∀ job, bareTree.entry? [fileName job] = none) ∧
      ∃ left, CutOff bareTree (steps root "orders") left ∧
        load left root "orders" = .error (.ofCause (.file .nameTooLong))) ∧
    ((∀ job, IsJobName "gone/../notes" job → contentOf notes "gone/../notes" job = .ok none) ∧
      ∃ left, CutOff notes (steps "gone/../notes" "orders") left ∧
        load left "gone/../notes" "orders" = .error (.ofCause (.file .notADirectory))) ∧
    ((∀ job, IsJobName "gone/../ckpt" job → contentOf notes "gone/../ckpt" job = .ok none) ∧
      ∃ left, CutOff notes (steps "gone/../ckpt" "invoices") left ∧
        load left "gone/../ckpt" "orders" = .ok (some ⟨16⟩)) := by
  intro long root notes steps load
  have hgone : FileTree.IsProper "gone" := ⟨by decide, by decide, by decide⟩
  have horders (directory : String)
      (hpath : (pathOf directory "orders").utf8ByteSize ≤ FileTree.longestPath) :
      IsJobName directory "orders" := ⟨by decide, by decide, by decide, hpath⟩
  have hchar (c d : Char) (n : Nat) (hne : c ≠ d) :
      c ∉ (String.ofList (List.replicate n d)).toList := by
    rw [String.toList_ofList]
    exact fun hmem => hne (List.eq_of_mem_replicate hmem)
  have hlong : FileTree.longestName < (fileName long).utf8ByteSize := by
    rw [fileName, String.utf8ByteSize_append, String.utf8ByteSize_append, size_replicate]
    decide
  have hroot : FileTree.longestPath < (pathOf root "orders").utf8ByteSize := by
    have hsize : root.utf8ByteSize = 4096 := size_replicate '/' 4096
    exact Nat.lt_of_lt_of_le (by decide : FileTree.longestPath < 4096)
      (hsize.ge.trans (size_le_path root "orders"))
  have hbareRoot (job : String) : bareTree.entry? [fileName job] = none := by
    have hne : (fileName job == "ckpt") = false := by
      have hlast : (fileName job).toList.reverse.head? ≠ "ckpt".toList.reverse.head? := by
        simp [fileName]
      simpa using fun heq : fileName job = "ckpt" => hlast (heq ▸ rfl)
    simp [bareTree, FileTree.entry?, List.lookup_cons, hne]
  have hnotes : IsBelowMissing notes "gone/../notes" "gone" ["..", "notes"] :=
    ⟨⟨by decide, by decide⟩, by decide, hgone, by decide +kernel⟩
  have hckpt : IsBelowMissing notes "gone/../ckpt" "gone" ["..", "ckpt"] :=
    ⟨⟨by decide, by decide⟩, by decide, hgone, by decide +kernel⟩
  have hbare (steps : List Step) (step : Step) : CutOff bareTree (step :: steps) bareTree :=
    .within (.nothing step) steps
  refine ⟨⟨hchar _ _ _ (by decide), bare_tree_entry, bareTree, hbare _ _, load_of_error ?_⟩,
    ⟨names_replicate_slash _, hbareRoot, bareTree, hbare _ _, load_of_error ?_⟩,
    ⟨fun _ => hnotes.absent, _, hnotes.cut_off _, load_of_error ?_⟩,
    fun _ => hckpt.absent, _, hckpt.cut_off _, ?_⟩
  · exact content_of_long_name bare_tree_leads (hchar _ _ _ (by decide)) (hchar _ _ _ (by decide))
      hlong
  · exact content_of_long_path (hchar _ _ _ (by decide)) (by decide) (by decide) hroot
  · exact content_of_refused (by decide +kernel) (by decide)
  · have hleads : (notes.put ["gone"] .directory).Leads "gone/../ckpt" ["ckpt"] :=
      ⟨hckpt.is_path, .into hgone (by decide +kernel) (.up rfl
        (.into ⟨by decide, by decide, by decide⟩ (by decide +kernel) (.here _)))⟩
    have hentry : FileTree.entry? (notes.put ["gone"] .directory)
        (["ckpt"] ++ [fileName "orders"]) =
          exampleTree.entry? (["ckpt"] ++ [fileName "orders"]) := by
      rw [FileTree.entry_put_of_ne (by decide), FileTree.entry_put_of_ne (by decide)]
    have hcontent := content_of_congr example_tree_leads hleads (horders _ (by decide +kernel))
      (horders _ (by decide +kernel)) hentry
    exact ((IsSaved.complete (hcontent.trans example_tree_content)).loaded []).1

/-! ## One save after another -/

/-- Saves of positions one after another, latest first, each of them complete or cut off. -/
inductive Saves (directory : String) (tree : FileTree) :
    List (String × Position) → FileTree → Prop where
  | none : Saves directory tree [] tree
  | more {log : List (String × Position)} {next left : FileTree} {jobId : String} {p : Position}
      {now : Calendar.Instant} (h : Saves directory tree log next)
      (hjob : IsJobName directory jobId)
      (hcut : CutOff next (storeSteps directory (.ofPosition jobId now p)) left) :
      Saves directory tree ((jobId, p) :: log) left

/-- However many saves are cut off, every job goes on from where it would have gone on before all
of them, or from a position that one of them was to save for it. -/
theorem Saves.loaded {log : List (String × Position)} (h : Saves directory tree log left)
    (horderly : IsOrderly tree directory) (table : CheckpointTable) :
    IsOrderly left directory ∧ ∀ job, IsJobName directory job →
      ∃ position?, Shelf.load Position ⟨table, left⟩ (.filesystem directory) job = .ok position? ∧
        (Shelf.load Position ⟨table, tree⟩ (.filesystem directory) job = .ok position? ∨
          ∃ p, position? = some p ∧ (job, p) ∈ log) := by
  induction h with
  | none =>
      refine ⟨horderly, ?_⟩
      intro job hname
      obtain ⟨position?, hsaved⟩ := horderly.saved job hname
      have hload := (hsaved.loaded table).1
      exact ⟨position?, hload, .inl hload⟩
  | @more log next left jobId p now _ hjob hcut ih =>
      obtain ⟨hnext, hloads⟩ := ih
      refine ⟨hnext.cut_off hjob hcut, ?_⟩
      intro job hname
      obtain ⟨position?, hload, hfrom⟩ := hloads job hname
      -- A job that the last save has not touched goes on as after the saves before it.
      have hkept (hsame : contentOf left directory job = contentOf next directory job) :
          ∃ position?,
            Shelf.load Position ⟨table, left⟩ (.filesystem directory) job = .ok position? ∧
            (Shelf.load Position ⟨table, tree⟩ (.filesystem directory) job = .ok position? ∨
              ∃ q, position? = some q ∧ (job, q) ∈ (jobId, p) :: log) := by
        refine ⟨position?, (load_congr hsame).trans hload, hfrom.imp_right ?_⟩
        rintro ⟨q, hq, hmem⟩
        exact ⟨q, hq, List.mem_cons_of_mem _ hmem⟩
      rcases cut_off_facts hnext.ready hjob hcut with huntouched | hstored
      · exact hkept (huntouched.same job hname)
      · by_cases heq : job = jobId
        · subst heq
          have hnew := ((IsSaved.complete hstored.content).loaded table).1
          exact ⟨some p, hnew, .inr ⟨p, rfl, List.mem_cons_self⟩⟩
        · exact hkept (hstored.others job hname heq)

end ChangeFeed.CheckpointDirectory
