import ChangeFeed.Files.Basic

/-!
# The names of a path

A path in a directory leads through the names of the directory and then on to one name more
(`FilePath.names_of_inside`), whether or not a slash ends the directory and even if the directory
is written as nothing at all.
-/

namespace ChangeFeed

namespace FilePath

/-- The names of a path, without the one that asks for a directory. -/
def names (path : String) : List String :=
  ((Text.parts '/' path.toList).filter fun part => !part.isEmpty).map String.ofList

/-- A name that stands for one thing in a directory. -/
structure IsName (name : String) : Prop where
  not_empty : name ≠ ""
  no_slash : '/' ∉ name.toList

/-- A path leads through its names, and then perhaps through the name that changes nothing. -/
theorem names_of_eq (path : String) :
    FileTree.namesOf path = names path ∨ FileTree.namesOf path = names path ++ ["."] := by
  unfold FileTree.namesOf
  dsimp only
  split
  · exact .inr rfl
  · exact .inl rfl

/-- A path in a directory is the name, or the name behind a slash behind a directory with the same
names. -/
theorem inside_cases (directory name : String) :
    (directory = "" ∧ inside directory name = name) ∨
      ∃ front, (inside directory name).toList = front ++ '/' :: name.toList ∧
        ((directory.toList = front ∧ front ≠ []) ∨ directory.toList = front ++ ['/']) := by
  unfold inside
  split
  · rename_i hdirectory
    rcases hdirectory with hempty | hslash
    · have hempty : directory = "" := String.isEmpty_iff.mp hempty
      exact .inl ⟨hempty, by rw [hempty, String.empty_append]⟩
    · obtain ⟨front, hfront⟩ : ['/'] <:+ directory.toList := by
        simpa [← String.endsWith_toSlice] using hslash
      refine .inr ⟨front, ?_, .inr hfront.symm⟩
      rw [String.toList_append, ← hfront, List.append_assoc]
      rfl
  · rename_i hdirectory
    refine .inr ⟨directory.toList, by simp, .inl ⟨rfl, ?_⟩⟩
    intro hnil
    exact hdirectory (.inl (by simpa using hnil))

/-- The parts of a text behind which a separator and a text without one stand. -/
theorem parts_append (front : List Char) {name : List Char} (h : '/' ∉ name) :
    Text.parts '/' (front ++ '/' :: name) = Text.parts '/' front ++ [name] := by
  rw [Text.parts, List.splitOn_append_cons_self, List.splitOn_eq_singleton h]
  rfl

/-- The parts of a path in a directory: the last one is the name, and those before it that are not
empty are those of the directory. -/
theorem parts_inside (directory : String) {name : String} (h : IsName name) :
    ∃ front, Text.parts '/' (inside directory name).toList = front ++ [name.toList] ∧
      (front.filter fun part => !part.isEmpty).map String.ofList = names directory := by
  rcases inside_cases directory name with ⟨rfl, hinside⟩ | ⟨front, hinside, hdirectory⟩
  · refine ⟨[], ?_, rfl⟩
    rw [hinside, Text.parts, List.splitOn_eq_singleton h.no_slash]
    rfl
  · refine ⟨Text.parts '/' front, by rw [hinside, parts_append front h.no_slash], ?_⟩
    rcases hdirectory with ⟨hdirectory, -⟩ | hdirectory
    · rw [names, hdirectory]
    · rw [names, hdirectory, parts_append front (List.not_mem_nil)]
      simp

/-- The names of a path in a directory. -/
theorem names_of_inside (directory : String) {name : String} (h : IsName name) :
    FileTree.namesOf (inside directory name) = names directory ++ [name] := by
  obtain ⟨front, hparts, hnames⟩ := parts_inside directory h
  have hne : name.toList ≠ [] := fun hnil => h.not_empty (String.toList_eq_nil_iff.mp hnil)
  unfold FileTree.namesOf
  dsimp only
  rw [hparts, List.filter_append, List.map_append, hnames, if_neg (by simp [hne])]
  simp [hne]

/-- The last name of a path in a directory. -/
theorem last_name_inside (directory : String) {name : String} (h : IsName name) :
    lastName (inside directory name) = name := by
  obtain ⟨front, hparts, -⟩ := parts_inside directory h
  rw [lastName, hparts]
  simp

/-- A path in a directory can be continued. -/
theorem inside_append (directory name ending : String) :
    inside directory name ++ ending = inside directory (name ++ ending) := by
  unfold inside
  split <;> simp only [String.append_assoc]

end FilePath

namespace FileTree

/-- Where a path starts. -/
def startOf (tree : FileTree) (path : String) : List String :=
  match path.toList with
  | '/' :: _ => []
  | _ => tree.workingDirectory

/-- A path in a directory starts where the directory does. -/
theorem start_of_inside (tree : FileTree) (directory : String) {name : String}
    (h : FilePath.IsName name) :
    tree.startOf (FilePath.inside directory name) = tree.startOf directory := by
  rcases FilePath.inside_cases directory name with ⟨rfl, hinside⟩ | ⟨front, hinside, hdirectory⟩
  · rw [hinside]
    unfold startOf
    split
    · rename_i rest hslash
      exact absurd (hslash ▸ List.mem_cons_self) h.no_slash
    · rfl
  · unfold startOf
    rw [hinside]
    cases front with
    | nil =>
        rcases hdirectory with ⟨-, hne⟩ | hdirectory
        · exact absurd rfl hne
        · rw [hdirectory]
          rfl
    | cons c front =>
        rcases hdirectory with ⟨hdirectory, -⟩ | hdirectory
        · rw [hdirectory]
          by_cases hc : c = '/' <;> simp [hc]
        · rw [hdirectory]
          by_cases hc : c = '/' <;> simp [hc]

/-- A path with a slash in front starts at the root. -/
theorem start_of_slash (tree : FileTree) {path : String} {rest : List Char}
    (h : path.toList = '/' :: rest) : tree.startOf path = [] := by
  rw [startOf, h]
  rfl

/-- Other paths start in the working directory. -/
theorem start_of_other (tree : FileTree) {path : String}
    (h : ∀ rest, path.toList ≠ '/' :: rest) : tree.startOf path = tree.workingDirectory := by
  unfold startOf
  split
  · rename_i rest hslash
    exact absurd hslash (h rest)
  · rfl

/-- A path as the system takes it. -/
structure IsPath (path : String) : Prop where
  no_zero : '\x00' ∉ path.toList
  short : path.utf8ByteSize ≤ longestPath

/-- A path that is not empty is followed from its start along its names. -/
theorem locate_eq (tree : FileTree) {path : String} (hne : path ≠ "") (hpath : IsPath path) :
    tree.locate path = tree.follow (tree.startOf path) (namesOf path) := by
  unfold locate
  rw [if_neg (by simpa using hpath.no_zero), if_neg (Nat.not_lt.mpr hpath.short)]
  split
  · rename_i hnil
    exact absurd (String.toList_eq_nil_iff.mp hnil) hne
  · rename_i hslash
    rw [start_of_slash tree hslash]
  · rename_i hslash
    rw [start_of_other tree hslash]

/-- A path that is too long is refused, whatever it leads to. -/
theorem locate_of_long (tree : FileTree) {path : String} (hzero : '\x00' ∉ path.toList)
    (hlong : longestPath < path.utf8ByteSize) : tree.locate path = .error .nameTooLong := by
  rw [locate, if_neg (by simpa using hzero), if_pos hlong]

/-- Directories are made from the start of a path along its names. -/
theorem make_directories_eq (tree : FileTree) {path : String} (hpath : IsPath path) :
    tree.makeDirectories path = tree.makeAlong (tree.startOf path) (namesOf path) := by
  unfold makeDirectories
  rw [if_neg (by simpa using hpath.no_zero), if_neg (Nat.not_lt.mpr hpath.short)]
  split
  · rename_i hslash
    rw [start_of_slash tree hslash]
  · rename_i hslash
    rw [start_of_other tree hslash]

end FileTree

end ChangeFeed
