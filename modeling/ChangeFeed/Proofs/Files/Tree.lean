import ChangeFeed.Proofs.Except
import ChangeFeed.Proofs.Files.Path

/-!
# Directories in a tree of files

Where names lead to through directories (`FileTree.Descends`), and what happens when directories are
made along names (`FileTree.Makes`). A path that leads to a directory (`FileTree.Leads`) need not be
made, things in the directory are found there, and the path leads there as long as no directory is
replaced. A directory that could be made and is not there has nothing in it that could be found:
`make_directories_cases`.
-/

/-- Looking a key up among the entries under other keys is looking it up. -/
theorem List.lookup_filter_ne {κ α : Type} [BEq κ] [LawfulBEq κ] [DecidableEq κ]
    {entries : List (κ × α)} {key other : κ} (h : other ≠ key) :
    (entries.filter (·.1 ≠ key)).lookup other = entries.lookup other := by
  induction entries with
  | nil => rfl
  | cons entry entries ih =>
      by_cases hkey : entry.1 = key
      · have hother : (other == entry.1) = false := by simpa [hkey] using h
        rw [List.filter_cons_of_neg (by simp [hkey]), ih, List.lookup_cons, hother]
      · rw [List.filter_cons_of_pos (by simp [hkey]), List.lookup_cons, List.lookup_cons, ih]

namespace ChangeFeed.FileTree

variable {tree made : FileTree} {start place path : List String} {names : List String}

/-! ## Entries -/

/-- What was put under a path stands there. -/
theorem entry_put_self (h : path ≠ []) (entry : FileEntry) :
    FileTree.entry? (tree.put path entry) path = some entry := by
  simp [put, entry?, h]

/-- What stands under other paths stays. -/
theorem entry_put_of_ne {other : List String} (h : other ≠ path) (entry : FileEntry) :
    FileTree.entry? (tree.put path entry) other = tree.entry? other := by
  have hne : (other == path) = false := by simpa using h
  unfold entry? put
  rw [List.lookup_cons, hne]
  dsimp only
  rw [List.lookup_filter_ne h]

/-- What stands under other paths stays when something is taken away. -/
theorem entry_erase_of_ne {other : List String} (h : other ≠ path) :
    FileTree.entry? (tree.erase path) other = tree.entry? other := by
  unfold entry? erase
  rw [List.lookup_filter_ne h]

/-- Nothing stands where something was taken away. -/
theorem entry_erase_self (h : path ≠ []) : FileTree.entry? (tree.erase path) path = none := by
  simp only [erase, entry?, if_neg h, List.lookup_eq_none_iff]
  intro entry hentry
  simpa using fun heq : path = entry.1 => by simp [heq] at hentry

/-- A directory stays a directory when something is put where no directory is. -/
theorem directory_put {other : List String} (hother : tree.entry? other = some .directory)
    (hpath : tree.entry? path ≠ some .directory) (entry : FileEntry) :
    FileTree.entry? (tree.put path entry) other = some .directory := by
  rw [entry_put_of_ne _ entry, hother]
  rintro rfl
  exact hpath hother

/-! ## Following directories -/

/-- A name that stands for something in a directory and is not too long. -/
structure IsProper (name : String) : Prop where
  not_same : name ≠ "."
  not_up : name ≠ ".."
  short : name.utf8ByteSize ≤ longestName

/-- Names lead through directories from one to another. -/
inductive Descends (tree : FileTree) : List String → List String → List String → Prop where
  | here (start : List String) : Descends tree start [] start
  | same {start names place : List String} {name : String} (hname : name = ".")
      (h : Descends tree start names place) : Descends tree start (name :: names) place
  | up {start names place : List String} {name : String} (hname : name = "..")
      (h : Descends tree start.dropLast names place) : Descends tree start (name :: names) place
  | into {start names place : List String} {name : String} (hname : IsProper name)
      (hentry : tree.entry? (start ++ [name]) = some .directory)
      (h : Descends tree (start ++ [name]) names place) :
      Descends tree start (name :: names) place

/-- Behind directories, names are followed from the last of them. -/
theorem Descends.follow_append (h : tree.Descends start names place) {rest : List String}
    (hrest : rest ≠ []) : tree.follow start (names ++ rest) = tree.follow place rest := by
  induction h with
  | here => rfl
  | same hname _ ih => simpa [follow, hname] using ih
  | up hname _ ih => simpa [follow, hname] using ih
  | into hname hentry _ ih =>
      simp [follow, hname.not_same, hname.not_up, Nat.not_lt.mpr hname.short, hrest, hentry, ih]

/-- The names in front of others that lead to a directory lead to one. -/
theorem Descends.front {front back : List String} (h : tree.Descends start (front ++ back) place) :
    ∃ middle, tree.Descends start front middle := by
  induction front generalizing start with
  | nil => exact ⟨start, .here start⟩
  | cons name front ih =>
      cases h with
      | same hname h =>
          obtain ⟨middle, hfront⟩ := ih h
          exact ⟨middle, .same hname hfront⟩
      | up hname h =>
          obtain ⟨middle, hfront⟩ := ih h
          exact ⟨middle, .up hname hfront⟩
      | into hname hentry h =>
          obtain ⟨middle, hfront⟩ := ih h
          exact ⟨middle, .into hname hentry hfront⟩

/-- Names lead to the same directory in a tree that has all directories. -/
theorem Descends.keeps {tree' : FileTree} (h : tree.Descends start names place)
    (hkeeps : ∀ other, tree.entry? other = some .directory → tree'.entry? other = some .directory) :
    tree'.Descends start names place := by
  induction h with
  | here => exact .here _
  | same hname _ ih => exact .same hname ih
  | up hname _ ih => exact .up hname ih
  | into hname hentry _ ih => exact .into hname (hkeeps _ hentry) ih

/-! ## Making directories -/

/-- Directories are made along names where they are missing. -/
inductive Makes : FileTree → List String → List String → FileTree → Prop where
  | here (tree : FileTree) (start : List String) : Makes tree start [] tree
  | same {tree made : FileTree} {start names : List String} {name : String} (hname : name = ".")
      (h : Makes tree start names made) : Makes tree start (name :: names) made
  | up {tree made : FileTree} {start names : List String} {name : String} (hname : name = "..")
      (h : Makes tree start.dropLast names made) : Makes tree start (name :: names) made
  | old {tree made : FileTree} {start names : List String} {name : String}
      (hname : IsProper name) (hentry : tree.entry? (start ++ [name]) = some .directory)
      (h : Makes tree (start ++ [name]) names made) : Makes tree start (name :: names) made
  | new {tree made : FileTree} {start names : List String} {name : String}
      (hname : IsProper name) (hentry : tree.entry? (start ++ [name]) = none)
      (h : Makes (tree.put (start ++ [name]) .directory) (start ++ [name]) names made) :
      Makes tree start (name :: names) made

/-- Making directories succeeds in this way only. -/
theorem makes_of_make_along (h : tree.makeAlong start names = .ok made) :
    Makes tree start names made := by
  induction names generalizing tree start with
  | nil =>
      obtain rfl := Except.ok.inj h
      exact .here _ _
  | cons name names ih =>
      by_cases hsame : name = "."
      · exact .same hsame (ih (by simpa [makeAlong, hsame] using h))
      by_cases hup : name = ".."
      · exact .up hup (ih (by simpa [makeAlong, hup] using h))
      by_cases hlong : longestName < name.utf8ByteSize
      · simp [makeAlong, hsame, hup, hlong] at h
      have hname : IsProper name := ⟨hsame, hup, Nat.le_of_not_lt hlong⟩
      cases hentry : tree.entry? (start ++ [name]) with
      | none =>
          simp only [makeAlong, if_neg hsame, if_neg hup, if_neg hlong, hentry] at h
          exact .new hname hentry (ih h)
      | some entry =>
          cases entry with
          | directory =>
              simp only [makeAlong, if_neg hsame, if_neg hup, if_neg hlong, hentry] at h
              exact .old hname hentry (ih h)
          | file content => simp [makeAlong, hsame, hup, hlong, hentry] at h

/-- Directories that are made are made in this way. -/
theorem Makes.make_along (h : Makes tree start names made) :
    tree.makeAlong start names = .ok made := by
  induction h with
  | here => rfl
  | same hname _ ih => simpa [makeAlong, hname] using ih
  | up hname _ ih => simpa [makeAlong, hname] using ih
  | old hname hentry _ ih | new hname hentry _ ih =>
      simp [makeAlong, hname.not_same, hname.not_up, Nat.not_lt.mpr hname.short, hentry, ih]

/-- Directories that are there need not be made. -/
theorem Descends.makes (h : tree.Descends start names place) : Makes tree start names tree := by
  induction h with
  | here => exact .here _ _
  | same hname _ ih => exact .same hname ih
  | up hname _ ih => exact .up hname ih
  | into hname hentry _ ih => exact .old hname hentry ih

/-- Directories that were there stay. -/
theorem Makes.keeps (h : Makes tree start names made) {other : List String}
    (hother : tree.entry? other = some .directory) : made.entry? other = some .directory := by
  induction h with
  | here => exact hother
  | same _ _ ih => exact ih hother
  | up _ _ ih => exact ih hother
  | old _ _ _ ih => exact ih hother
  | new _ hentry _ ih => exact ih (directory_put hother (by simp [hentry]) .directory)

/-- Where directories were made along names, the names lead to a directory. -/
theorem Makes.descends (h : Makes tree start names made) :
    ∃ place, made.Descends start names place := by
  induction h with
  | here => exact ⟨_, .here _⟩
  | same hname _ ih =>
      obtain ⟨place, hplace⟩ := ih
      exact ⟨place, .same hname hplace⟩
  | up hname _ ih =>
      obtain ⟨place, hplace⟩ := ih
      exact ⟨place, .up hname hplace⟩
  | old hname hentry hmakes ih =>
      obtain ⟨place, hplace⟩ := ih
      exact ⟨place, .into hname (hmakes.keeps hentry) hplace⟩
  | new hname hentry hmakes ih =>
      obtain ⟨place, hplace⟩ := ih
      exact ⟨place, .into hname (hmakes.keeps (entry_put_self (by simp) .directory)) hplace⟩

/-- Along names where directories can be made, either all of them are there, or what is looked for
behind them is not found. -/
theorem Makes.cases (h : Makes tree start names made) :
    (∃ place, tree.Descends start names place) ∨
      ∀ name, tree.follow start (names ++ [name]) = .error .notFound := by
  induction h with
  | here => exact .inl ⟨_, .here _⟩
  | same hname _ ih =>
      rcases ih with ⟨place, hplace⟩ | hmissing
      · exact .inl ⟨place, .same hname hplace⟩
      · exact .inr fun last => by simpa [follow, hname] using hmissing last
  | up hname _ ih =>
      rcases ih with ⟨place, hplace⟩ | hmissing
      · exact .inl ⟨place, .up hname hplace⟩
      · exact .inr fun last => by simpa [follow, hname] using hmissing last
  | old hname hentry _ ih =>
      rcases ih with ⟨place, hplace⟩ | hmissing
      · exact .inl ⟨place, .into hname hentry hplace⟩
      · refine .inr fun name => ?_
        simpa [follow, hname.not_same, hname.not_up, Nat.not_lt.mpr hname.short, hentry]
          using hmissing name
  | new hname hentry _ _ =>
      refine .inr fun name => ?_
      simp [follow, hname.not_same, hname.not_up, Nat.not_lt.mpr hname.short, hentry]

/-- Making directories along the first of some names changes nothing for all of them. -/
theorem Makes.resume {front back : List String} {part : FileTree}
    (hpart : Makes tree start front part) (h : Makes tree start (front ++ back) made) :
    Makes part start (front ++ back) made := by
  induction hpart with
  | here => exact h
  | same hsame _ ih =>
      cases h with
      | same _ h => exact .same hsame (ih h)
      | up hup => exact absurd (hsame.symm.trans hup) (by decide)
      | old hname | new hname => exact absurd hsame hname.not_same
  | up hup _ ih =>
      cases h with
      | same hsame => exact absurd (hup.symm.trans hsame) (by decide)
      | up _ h => exact .up hup (ih h)
      | old hname | new hname => exact absurd hup hname.not_up
  | old hname hentry hpart ih =>
      cases h with
      | same hsame => exact absurd hsame hname.not_same
      | up hup => exact absurd hup hname.not_up
      | old _ _ h => exact .old hname (hpart.keeps hentry) (ih h)
      | new _ hnone => exact absurd (hnone.symm.trans hentry) (by simp)
  | new hname hentry hpart ih =>
      cases h with
      | same hsame => exact absurd hsame hname.not_same
      | up hup => exact absurd hup hname.not_up
      | old _ hsome => exact absurd (hentry.symm.trans hsome) (by simp)
      | new _ _ h => exact .old hname (hpart.keeps (entry_put_self (by simp) .directory)) (ih h)

/-- Making directories does not change where paths start. -/
theorem Makes.working_directory (h : Makes tree start names made) :
    made.workingDirectory = tree.workingDirectory := by
  induction h with
  | here => rfl
  | same _ _ ih => exact ih
  | up _ _ ih => exact ih
  | old _ _ _ ih => exact ih
  | new _ _ _ ih => exact ih

/-- The name that changes nothing may stand at the end or not. -/
theorem makes_append_same :
    Makes tree start (names ++ ["."]) made ↔ Makes tree start names made := by
  constructor
  · intro h
    induction names generalizing tree start with
    | nil =>
        cases h with
        | same _ h => exact h
        | up hup => exact absurd hup (by decide)
        | old hname | new hname => exact absurd rfl hname.not_same
    | cons name names ih =>
        cases h with
        | same hname h => exact .same hname (ih h)
        | up hname h => exact .up hname (ih h)
        | old hname hentry h => exact .old hname hentry (ih h)
        | new hname hentry h => exact .new hname hentry (ih h)
  · intro h
    induction h with
    | here => exact .same rfl (.here _ _)
    | same hname _ ih => exact .same hname ih
    | up hname _ ih => exact .up hname ih
    | old hname hentry _ ih => exact .old hname hentry ih
    | new hname hentry _ ih => exact .new hname hentry ih

/-- A directory is made along the names of its path. -/
theorem make_directories_iff {directory : String} :
    tree.makeDirectories directory = .ok made ↔ IsPath directory ∧
      Makes tree (tree.startOf directory) (FilePath.names directory) made := by
  have hnames : Makes tree (tree.startOf directory) (FilePath.names directory) made ↔
      Makes tree (tree.startOf directory) (namesOf directory) made := by
    rcases FilePath.names_of_eq directory with hnames | hnames
    · rw [hnames]
    · rw [hnames, makes_append_same]
  rw [hnames]
  constructor
  · intro h
    have hpath : IsPath directory := by
      unfold makeDirectories at h
      split at h
      · exact absurd h (by simp)
      · rename_i hzero
        split at h
        · exact absurd h (by simp)
        · rename_i hlong
          exact ⟨by simpa using hzero, Nat.le_of_not_lt hlong⟩
    rw [make_directories_eq tree hpath] at h
    exact ⟨hpath, makes_of_make_along h⟩
  · rintro ⟨hpath, h⟩
    rw [make_directories_eq tree hpath]
    exact h.make_along

/-! ## Paths that lead to directories -/

/-- A path leads to a directory. -/
structure Leads (tree : FileTree) (directory : String) (place : List String) : Prop where
  is_path : IsPath directory
  descends : tree.Descends (tree.startOf directory) (FilePath.names directory) place

/-- A name that can be looked up in the directory of a path. -/
structure IsFileName (directory name : String) : Prop extends
    FilePath.IsName name, IsProper name where
  no_zero : '\x00' ∉ name.toList
  short_path : (FilePath.inside directory name).utf8ByteSize ≤ longestPath

/-- A path in a directory has no zero in it if neither has. -/
theorem zero_not_mem_inside {directory name : String} (hdirectory : '\x00' ∉ directory.toList)
    (hname : '\x00' ∉ name.toList) : '\x00' ∉ (FilePath.inside directory name).toList := by
  unfold FilePath.inside
  split <;> simp_all

/-- A path in a directory is followed from where the directory starts. -/
theorem locate_inside_eq {directory name : String} (hname : FilePath.IsName name)
    (hpath : IsPath (FilePath.inside directory name)) :
    tree.locate (FilePath.inside directory name) =
      tree.follow (tree.startOf directory) (FilePath.names directory ++ [name]) := by
  have hne : FilePath.inside directory name ≠ "" := by
    have hne := hname.not_empty
    unfold FilePath.inside
    split <;> simp_all
  rw [locate_eq tree hne hpath, start_of_inside tree directory hname,
    FilePath.names_of_inside directory hname]

/-- The path of a name that can be looked up is one that the system takes. -/
theorem IsFileName.is_path {directory name : String} (hname : IsFileName directory name)
    (hdirectory : IsPath directory) : IsPath (FilePath.inside directory name) :=
  ⟨zero_not_mem_inside hdirectory.no_zero hname.no_zero, hname.short_path⟩

/-- A name is looked for in the directory that a path leads to, unless the path of the name is too
long. -/
theorem Leads.locate_eq {directory name : String} (h : tree.Leads directory place)
    (hname : FilePath.IsName name) (hzero : '\x00' ∉ name.toList) :
    tree.locate (FilePath.inside directory name) =
      if longestPath < (FilePath.inside directory name).utf8ByteSize then .error .nameTooLong
      else tree.follow place [name] := by
  have hinside := zero_not_mem_inside h.is_path.no_zero hzero
  split
  · rename_i hlong
    exact locate_of_long tree hinside hlong
  · rename_i hshort
    rw [locate_inside_eq hname ⟨hinside, Nat.le_of_not_lt hshort⟩,
      h.descends.follow_append (by simp)]

/-- A name is located in the directory that a path leads to. -/
theorem Leads.locate_inside {directory name : String} (h : tree.Leads directory place)
    (hname : IsFileName directory name) :
    tree.locate (FilePath.inside directory name) = .ok (place ++ [name]) := by
  rw [h.locate_eq hname.toIsName hname.no_zero, if_neg (Nat.not_lt.mpr hname.short_path)]
  simp [follow, hname.not_same, hname.not_up, Nat.not_lt.mpr hname.short]

/-- A path leads to a directory as long as the directories stay. -/
theorem Leads.keeps {tree' : FileTree} {directory : String} (h : tree.Leads directory place)
    (hstart : tree'.workingDirectory = tree.workingDirectory)
    (hkeeps : ∀ other, tree.entry? other = some .directory → tree'.entry? other = some .directory) :
    tree'.Leads directory place := by
  have hsame : tree'.startOf directory = tree.startOf directory := by
    unfold startOf
    rw [hstart]
  exact ⟨h.is_path, hsame ▸ h.descends.keeps hkeeps⟩

/-- A path leads to a directory when something is put where no directory is. -/
theorem Leads.put {directory : String} (h : tree.Leads directory place)
    (hpath : tree.entry? path ≠ some .directory) (entry : FileEntry) :
    (tree.put path entry).Leads directory place :=
  h.keeps rfl fun _ hother => directory_put hother hpath entry

/-- A path leads to a directory when something else than a directory is taken away. -/
theorem Leads.erase {directory : String} (h : tree.Leads directory place)
    (hpath : tree.entry? path ≠ some .directory) : (tree.erase path).Leads directory place := by
  refine h.keeps rfl ?_
  intro other hother
  rw [entry_erase_of_ne, hother]
  rintro rfl
  exact hpath hother

/-- A directory to which a path leads need not be made. -/
theorem Leads.make_directories {directory : String} (h : tree.Leads directory place) :
    tree.makeDirectories directory = .ok tree :=
  make_directories_iff.mpr ⟨h.is_path, h.descends.makes⟩

/-- The path of a directory that was made leads to it. -/
theorem make_directories_leads {directory : String}
    (h : tree.makeDirectories directory = .ok made) : ∃ place, made.Leads directory place := by
  obtain ⟨hpath, hmakes⟩ := make_directories_iff.mp h
  obtain ⟨place, hplace⟩ := hmakes.descends
  have hsame : made.startOf directory = tree.startOf directory := by
    unfold startOf
    rw [hmakes.working_directory]
  exact ⟨place, hpath, hsame ▸ hplace⟩

/-- The path of a directory that can be made leads to it, or nothing is found in it. -/
theorem make_directories_cases {directory : String}
    (h : tree.makeDirectories directory = .ok made) :
    (∃ place, tree.Leads directory place) ∨ ∀ name, IsFileName directory name →
      tree.locate (FilePath.inside directory name) = .error .notFound := by
  obtain ⟨hpath, hmakes⟩ := make_directories_iff.mp h
  rcases hmakes.cases with ⟨place, hplace⟩ | hmissing
  · exact .inl ⟨place, hpath, hplace⟩
  · refine .inr ?_
    intro name hname
    rw [locate_inside_eq hname.toIsName (hname.is_path hpath), hmissing]

/-- A tree in which some of the directories of a path were made. -/
def HasMadePart (tree : FileTree) (directory : String) (part : FileTree) : Prop :=
  ∃ front back, FilePath.names directory = front ++ back ∧
    tree.makeAlong (tree.startOf directory) front = .ok part

/-- Nothing of a directory is made to which the path leads. -/
theorem Leads.part_eq {directory : String} {part : FileTree} (h : tree.Leads directory place)
    (hpart : tree.HasMadePart directory part) : part = tree := by
  obtain ⟨front, back, hnames, hmade⟩ := hpart
  obtain ⟨middle, hmiddle⟩ := (hnames ▸ h.descends : tree.Descends _ (front ++ back) _).front
  exact Except.ok.inj (hmade.symm.trans hmiddle.makes.make_along)

/-- A directory can be made as before when a part of it was made. -/
theorem HasMadePart.make_directories {directory : String} {part : FileTree}
    (hpart : tree.HasMadePart directory part) (h : tree.makeDirectories directory = .ok made) :
    part.makeDirectories directory = .ok made := by
  obtain ⟨front, back, hnames, hmade⟩ := hpart
  obtain ⟨hpath, hmakes⟩ := make_directories_iff.mp h
  have hfront := makes_of_make_along hmade
  have hsame : part.startOf directory = tree.startOf directory := by
    unfold startOf
    rw [hfront.working_directory]
  refine make_directories_iff.mpr ⟨hpath, ?_⟩
  rw [hnames] at hmakes
  rw [hsame, hnames]
  exact hfront.resume hmakes

end ChangeFeed.FileTree
