import ChangeFeed.Checkpoint.Store
import ChangeFeed.Proofs.Files.Tree

/-!
# Checkpoints in a directory

What is known of the files of jobs in a directory of checkpoints: their names and those of the
temporary files beside them never collide, so that storing the checkpoint of one job touches no
other job's. `CheckpointDirectory.IsReady` says what a directory must be like, and `part_facts`,
`write_facts` and `rename_facts` what each change in the course of storing makes of the checkpoints.
-/

namespace ChangeFeed.CheckpointDirectory

open FileTree (IsFileName longestName longestPath)

variable {tree tree' : FileTree} {directory jobId other : String} {place : List String}

/-! ## Names -/

/-- The name of the temporary file beside a job's file. -/
def temporaryName (jobId : String) : String :=
  fileName jobId ++ ".tmp"

/-- A job whose file in a directory has a name and a path that the file system takes. -/
structure IsJobName (directory jobId : String) : Prop where
  no_slash : '/' ∉ jobId.toList
  no_zero : '\x00' ∉ jobId.toList
  short : (fileName jobId).utf8ByteSize ≤ longestName
  short_path : (pathOf directory jobId).utf8ByteSize ≤ longestPath

/-- A text around a job that is a file name but for its length. -/
structure IsLongName (name : String) : Prop extends FilePath.IsName name where
  not_same : name ≠ "."
  not_up : name ≠ ".."
  no_zero : '\x00' ∉ name.toList

/-- An ending that keeps a file name a file name makes one of a job. -/
theorem is_long_name (hslash : '/' ∉ jobId.toList) (hzero : '\x00' ∉ jobId.toList)
    (ending : String) (hending : '/' ∉ ending.toList ∧ '\x00' ∉ ending.toList) :
    IsLongName ("checkpoint_" ++ jobId ++ ending) := by
  have htext : ("checkpoint_" ++ jobId ++ ending).toList =
      'c' :: ("heckpoint_".toList ++ (jobId.toList ++ ending.toList)) := by
    simp
  have hne (other : String) (hother : other.toList.head? ≠ some 'c') :
      "checkpoint_" ++ jobId ++ ending ≠ other := by
    rintro rfl
    exact hother (by rw [htext]; rfl)
  refine ⟨⟨hne "" (by simp), ?_⟩, hne "." (by simp), hne ".." (by simp), ?_⟩
  · rw [htext]
    simp [hslash, hending.1]
  · rw [htext]
    simp [hzero, hending.2]

/-- A job without slashes has a file with a file name but for its length. -/
theorem file_is_long_name (hslash : '/' ∉ jobId.toList) (hzero : '\x00' ∉ jobId.toList) :
    IsLongName (fileName jobId) :=
  is_long_name hslash hzero ".json" (by decide)

/-- A job's file has a file name. -/
theorem IsJobName.file_name (h : IsJobName directory jobId) :
    IsFileName directory (fileName jobId) := by
  have hlong := file_is_long_name h.no_slash h.no_zero
  exact ⟨hlong.toIsName, ⟨hlong.not_same, hlong.not_up, h.short⟩, hlong.no_zero, h.short_path⟩

/-- The name of a job's temporary file is a file name but for its length. -/
theorem IsJobName.temporary_name (h : IsJobName directory jobId) :
    IsLongName (temporaryName jobId) := by
  have hlong := is_long_name h.no_slash h.no_zero ".json.tmp" (by decide)
  rwa [temporaryName, fileName, String.append_assoc]

/-- The path of the temporary file is that of its name. -/
theorem IsJobName.temporary_path (h : IsJobName directory jobId) :
    temporaryPath (pathOf directory jobId) =
      FilePath.inside directory (temporaryName jobId) := by
  have hname := h.file_name.toIsName
  have hother : fileName jobId ≠ ".json" := by
    intro heq
    have hlength := congrArg (fun name => name.toList.length) heq
    simp [fileName] at hlength
  rw [temporaryPath, pathOf, FilePath.last_name_inside directory hname, if_neg hother,
    FilePath.inside_append, temporaryName]

/-- Jobs have different files. -/
theorem file_name_inj (h : fileName jobId = fileName other) : jobId = other := by
  have htext := congrArg String.toList h
  simp only [fileName, String.toList_append, List.append_assoc] at htext
  exact String.toList_inj.mp (List.append_cancel_right (List.append_cancel_left htext))

/-- No temporary file is the file of a job. -/
theorem file_name_ne_temporary (jobId other : String) : fileName jobId ≠ temporaryName other := by
  intro h
  have hlast := congrArg (fun name => name.toList.reverse.head?) h
  simp [fileName, temporaryName] at hlast

/-! ## What is read -/

/-- What a directory of checkpoints has under the name of a job's file. -/
theorem content_of_leads (h : tree.Leads directory place) (hjob : IsJobName directory jobId) :
    contentOf tree directory jobId =
      match tree.entry? (place ++ [fileName jobId]) with
      | none => .ok none
      | some (.file content) => .ok (some content)
      | some .directory => .error (.ofCause (.file .isADirectory)) := by
  have hlocate : tree.locate (pathOf directory jobId) = .ok (place ++ [fileName jobId]) :=
    h.locate_inside hjob.file_name
  have hpath : tree.hasPath (pathOf directory jobId) =
      .ok (tree.entry? (place ++ [fileName jobId])).isSome := by
    rw [FileTree.hasPath, hlocate]
  cases hentry : tree.entry? (place ++ [fileName jobId]) with
  | none =>
      simp [contentOf, hpath, hentry, bind, Except.bind, pure, Except.pure]
  | some entry =>
      cases entry <;>
        simp [contentOf, hpath, hentry, FileTree.read, hlocate, bind, Except.bind, pure,
          Except.pure, throw, throwThe, MonadExceptOf.throw]

/-- What stands in a directory under the name of a job's file is what matters for the job. -/
theorem content_of_congr {directory' : String} (h : tree.Leads directory place)
    (h' : tree'.Leads directory' place) (hjob : IsJobName directory jobId)
    (hjob' : IsJobName directory' jobId)
    (hentry : tree'.entry? (place ++ [fileName jobId]) = tree.entry? (place ++ [fileName jobId])) :
    contentOf tree' directory' jobId = contentOf tree directory jobId := by
  rw [content_of_leads h hjob, content_of_leads h' hjob', hentry]

/-- Where nothing is found there is no checkpoint. -/
theorem content_of_not_found
    (h : tree.locate (pathOf directory jobId) = .error .notFound) :
    contentOf tree directory jobId = .ok none := by
  have hpath : tree.hasPath (pathOf directory jobId) = .ok false := by
    rw [FileTree.hasPath, h]
  simp [contentOf, hpath, bind, Except.bind, pure, Except.pure]

/-- Where a path is refused nothing is read. -/
theorem content_of_refused {fault : FileFault}
    (h : tree.locate (pathOf directory jobId) = .error fault) (hfault : fault ≠ .notFound) :
    contentOf tree directory jobId = .error (.ofCause (.file fault)) := by
  have hpath : tree.hasPath (pathOf directory jobId) = .error fault := by
    rw [FileTree.hasPath, h]
    cases fault with
    | notFound => exact absurd rfl hfault
    | _ => rfl
  simp [contentOf, hpath, bind, Except.bind]

/-- A job whose file would have a name that is too long cannot be loaded. -/
theorem content_of_long_name (h : tree.Leads directory place) (hslash : '/' ∉ jobId.toList)
    (hzero : '\x00' ∉ jobId.toList) (hlong : longestName < (fileName jobId).utf8ByteSize) :
    contentOf tree directory jobId = .error (.ofCause (.file .nameTooLong)) := by
  have hname := file_is_long_name hslash hzero
  refine content_of_refused ?_ (by decide)
  rw [pathOf, h.locate_eq hname.toIsName hname.no_zero]
  simp [FileTree.follow, hname.not_same, hname.not_up, hlong]

/-- A job whose file would have a path that is too long cannot be loaded. -/
theorem content_of_long_path (hdirectory : '\x00' ∉ directory.toList)
    (hslash : '/' ∉ jobId.toList) (hzero : '\x00' ∉ jobId.toList)
    (hlong : longestPath < (pathOf directory jobId).utf8ByteSize) :
    contentOf tree directory jobId = .error (.ofCause (.file .nameTooLong)) := by
  have hname := file_is_long_name hslash hzero
  exact content_of_refused (tree.locate_of_long
    (FileTree.zero_not_mem_inside hdirectory hname.no_zero) hlong) (by decide)

/-- The checkpoint of a job is that of the text of its file. -/
theorem read_congr
    (h : contentOf tree' directory jobId = contentOf tree directory jobId) :
    read tree' directory jobId = read tree directory jobId := by
  rw [read, read, h]

/-! ## What each change makes of it -/

/-- A directory of checkpoints is there, or it can be made and that brings no checkpoint to
light. -/
def IsReady (tree : FileTree) (directory : String) : Prop :=
  ∃ made, tree.makeDirectories directory = .ok made ∧ ∀ jobId, IsJobName directory jobId →
    contentOf made directory jobId = contentOf tree directory jobId

/-- A directory to which a path leads is ready. -/
theorem ready_of_leads (h : tree.Leads directory place) : IsReady tree directory :=
  ⟨tree, h.make_directories, fun _ _ => rfl⟩

/-- Making a part of a directory keeps it ready and changes no checkpoint. -/
theorem IsReady.part (h : IsReady tree directory) {part : FileTree}
    (hpart : tree.HasMadePart directory part) :
    IsReady part directory ∧ ∀ jobId, IsJobName directory jobId →
      contentOf part directory jobId = contentOf tree directory jobId := by
  obtain ⟨made, hmade, hsame⟩ := h
  have hmade' := hpart.make_directories hmade
  have hcontent : ∀ jobId, IsJobName directory jobId →
      contentOf part directory jobId = contentOf tree directory jobId := by
    intro jobId hjob
    rcases FileTree.make_directories_cases hmade with ⟨place, hleads⟩ | hmissing
    · rw [hleads.part_eq hpart]
    · rcases FileTree.make_directories_cases hmade' with ⟨place, hleads⟩ | hmissing'
      · rw [← hsame jobId hjob, Except.ok.inj (hmade'.symm.trans hleads.make_directories)]
      · rw [content_of_not_found (hmissing _ hjob.file_name),
          content_of_not_found (hmissing' _ hjob.file_name)]
  refine ⟨⟨made, hmade', ?_⟩, hcontent⟩
  intro jobId hjob
  rw [hsame jobId hjob, hcontent jobId hjob]

/-- A temporary file that is located is located in the directory. -/
theorem temporary_location (h : tree.Leads directory place) (hjob : IsJobName directory jobId)
    {location : List String}
    (hlocate : tree.locate (temporaryPath (pathOf directory jobId)) = .ok location) :
    location = place ++ [temporaryName jobId] := by
  have hname := hjob.temporary_name
  rw [hjob.temporary_path, h.locate_eq hname.toIsName hname.no_zero] at hlocate
  simp only [FileTree.follow, if_neg hname.not_same, if_neg hname.not_up] at hlocate
  split at hlocate
  · exact absurd hlocate (by simp)
  · split at hlocate
    · exact absurd hlocate (by simp)
    · exact (Except.ok.inj hlocate).symm

/-- Different names stand for different things in a directory. -/
theorem path_ne {name other : String} (h : name ≠ other) : place ++ [name] ≠ place ++ [other] := by
  simpa using h

/-- The directory that a path leads to has a temporary file with some text. -/
structure HasTemporary (tree : FileTree) (directory : String) (place : List String)
    (jobId text : String) : Prop where
  leads : tree.Leads directory place
  entry : tree.entry? (place ++ [temporaryName jobId]) = some (.file text)

/-- Writing a temporary file makes it and changes no checkpoint. -/
theorem write_facts (h : tree.Leads directory place) (hjob : IsJobName directory jobId)
    {text : String} (hwrite : tree.write (temporaryPath (pathOf directory jobId)) text = .ok tree') :
    HasTemporary tree' directory place jobId text ∧ ∀ other, IsJobName directory other →
      contentOf tree' directory other = contentOf tree directory other := by
  obtain ⟨location, hlocate, hwrite⟩ := Except.bind_eq_ok.mp hwrite
  obtain rfl := temporary_location h hjob hlocate
  have hresult : tree.entry? (place ++ [temporaryName jobId]) ≠ some .directory ∧
      tree' = tree.put (place ++ [temporaryName jobId]) (.file text) := by
    split at hwrite
    · exact absurd hwrite (by simp)
    · rename_i hentry
      exact ⟨fun heq => hentry heq, (Except.pure_eq_ok.mp hwrite).symm⟩
  obtain ⟨hentry, rfl⟩ := hresult
  have hleads := h.put hentry (.file text)
  refine ⟨⟨hleads, FileTree.entry_put_self (by simp) _⟩, ?_⟩
  intro other hother
  exact content_of_congr h hleads hother hother
    (FileTree.entry_put_of_ne (path_ne (file_name_ne_temporary other jobId)) _)

/-- A temporary file takes the place of the job's file unless that is a directory. -/
theorem HasTemporary.rename_eq {text : String}
    (h : HasTemporary tree directory place jobId text) (hjob : IsJobName directory jobId)
    (hlocate : tree.locate (temporaryPath (pathOf directory jobId)) =
      .ok (place ++ [temporaryName jobId])) :
    tree.rename (temporaryPath (pathOf directory jobId)) (pathOf directory jobId) =
      if tree.entry? (place ++ [fileName jobId]) = some .directory then .error .isADirectory
      else .ok ((tree.erase (place ++ [temporaryName jobId])).put (place ++ [fileName jobId])
        (.file text)) := by
  rw [FileTree.rename, hlocate, Except.ok_bind, pathOf, h.leads.locate_inside hjob.file_name,
    Except.ok_bind, h.entry]
  cases tree.entry? (place ++ [fileName jobId]) with
  | none => rfl
  | some entry => cases entry <;> rfl

/-- Renaming a temporary file gives its text to the job and changes no other checkpoint. -/
theorem HasTemporary.rename_facts {text : String}
    (h : HasTemporary tree directory place jobId text) (hjob : IsJobName directory jobId)
    (hrename : tree.rename (temporaryPath (pathOf directory jobId)) (pathOf directory jobId) =
      .ok tree') :
    tree'.Leads directory place ∧ contentOf tree' directory jobId = .ok (some text) ∧
      ∀ other, IsJobName directory other → other ≠ jobId →
        contentOf tree' directory other = contentOf tree directory other := by
  have hlocate : tree.locate (temporaryPath (pathOf directory jobId)) =
      .ok (place ++ [temporaryName jobId]) := by
    obtain ⟨source, hsource, -⟩ := Except.bind_eq_ok.mp hrename
    rw [hsource, temporary_location h.leads hjob hsource]
  rw [h.rename_eq hjob hlocate] at hrename
  split at hrename
  · exact absurd hrename (by simp)
  rename_i hentry
  obtain rfl := Except.ok.inj hrename
  have hne : place ++ [fileName jobId] ≠ place ++ [temporaryName jobId] :=
    path_ne (file_name_ne_temporary jobId jobId)
  have herased : (tree.erase (place ++ [temporaryName jobId])).Leads directory place :=
    h.leads.erase (by simp [h.entry])
  have hleads := herased.put (by rwa [FileTree.entry_erase_of_ne hne]) (.file text)
  refine ⟨hleads, ?_, ?_⟩
  · rw [content_of_leads hleads hjob, FileTree.entry_put_self (by simp)]
  · intro other hother hdiffers
    refine content_of_congr h.leads hleads hother hother ?_
    rw [FileTree.entry_put_of_ne (path_ne fun heq => hdiffers (file_name_inj heq)),
      FileTree.entry_erase_of_ne (path_ne (file_name_ne_temporary other jobId))]

/-! ## A directory without checkpoints -/

/-- A tree with nothing but a directory. -/
def bareTree : FileTree :=
  ⟨[(["ckpt"], .directory)], []⟩

/-- The directory is where its name leads to. -/
theorem bare_tree_leads : bareTree.Leads "ckpt" ["ckpt"] where
  is_path := ⟨by decide, by decide⟩
  descends := .into ⟨by decide, by decide, by decide⟩ rfl (.here _)

/-- Nothing is in the directory. -/
theorem bare_tree_entry (name : String) : bareTree.entry? (["ckpt"] ++ [name]) = none := by
  simp [bareTree, FileTree.entry?, List.lookup_cons]

end ChangeFeed.CheckpointDirectory
