import ChangeFeed.Failure
import ChangeFeed.Text.Cut
import ChangeFeed.Text.Utf8

/-!
# Files and directories

A tree of files as a table of absolute paths. A path is looked up name by name: every name but the
last must be a directory that exists. Writing a file may make it but never its directory. A path
that is too long is refused as it is written, whatever it leads to.
-/

namespace ChangeFeed

/-- What stands under a path. -/
inductive FileEntry where
  | directory
  | file (content : String)
  deriving DecidableEq, Repr

/-- A tree of files. The root is always a directory. -/
structure FileTree where
  entries : List (List String × FileEntry)
  /-- Where paths that do not start with a slash start. -/
  workingDirectory : List String
  deriving DecidableEq

namespace FileTree

/-- The longest name in bytes. -/
def longestName : Nat := 255

/-- The longest path in bytes. -/
def longestPath : Nat := 4095

/-- What stands under an absolute path. -/
def entry? (tree : FileTree) (path : List String) : Option FileEntry :=
  if path = [] then some .directory else tree.entries.lookup path

/-- Puts an entry under a path, in the place of what stood there. -/
def put (tree : FileTree) (path : List String) (entry : FileEntry) : FileTree :=
  { tree with entries := (path, entry) :: tree.entries.filter (·.1 ≠ path) }

/-- Takes away what stands under a path. -/
def erase (tree : FileTree) (path : List String) : FileTree :=
  { tree with entries := tree.entries.filter (·.1 ≠ path) }

/-- The names of a path. A slash at the end asks for a directory, like the name `.`. -/
def namesOf (path : String) : List String :=
  let parts := Text.parts '/' path.toList
  let names := (parts.filter fun part => !part.isEmpty).map String.ofList
  if names ≠ [] ∧ parts.getLast? = some [] then names ++ ["."] else names

/-- Follows names from a directory. The last name need not exist. -/
def follow (tree : FileTree) : List String → List String → Except FileFault (List String)
  | directory, [] => .ok directory
  | directory, name :: rest =>
    if name = "." then follow tree directory rest
    else if name = ".." then follow tree directory.dropLast rest
    else if longestName < name.utf8ByteSize then .error .nameTooLong
    else
      let path := directory ++ [name]
      if rest = [] then .ok path
      else
        match tree.entry? path with
        | none => .error .notFound
        | some (.file _) => .error .notADirectory
        | some .directory => follow tree path rest

/-- The absolute path that a path stands for. -/
def locate (tree : FileTree) (path : String) : Except FileFault (List String) :=
  if path.toList.contains '\x00' then .error .invalidName
  else if longestPath < path.utf8ByteSize then .error .nameTooLong
  else
    match path.toList with
    | [] => .error .notFound
    | '/' :: _ => tree.follow [] (namesOf path)
    | _ => tree.follow tree.workingDirectory (namesOf path)

/-- Whether something stands under a path. -/
def hasPath (tree : FileTree) (path : String) : Except FileFault Bool :=
  match tree.locate path with
  | .ok location => .ok (tree.entry? location).isSome
  | .error .notFound => .ok false
  | .error fault => .error fault

/-- The content of a file. -/
def read (tree : FileTree) (path : String) : Except FileFault String := do
  let location ← tree.locate path
  match tree.entry? location with
  | some (.file content) => return content
  | some .directory => throw .isADirectory
  | none => throw .notFound

/-- Gives a file a new content; the file need not exist. -/
def write (tree : FileTree) (path content : String) : Except FileFault FileTree := do
  let location ← tree.locate path
  match tree.entry? location with
  | some .directory => throw .isADirectory
  | _ => return tree.put location (.file content)

/-- Adds to the end of a file; the file need not exist. -/
def append (tree : FileTree) (path content : String) : Except FileFault FileTree := do
  let location ← tree.locate path
  match tree.entry? location with
  | some .directory => throw .isADirectory
  | some (.file old) => return tree.put location (.file (old ++ content))
  | none => return tree.put location (.file content)

/-- Moves a file in the place of another. -/
def rename (tree : FileTree) (source target : String) : Except FileFault FileTree := do
  let sourceLocation ← tree.locate source
  let targetLocation ← tree.locate target
  match tree.entry? sourceLocation, tree.entry? targetLocation with
  | none, _ => throw .notFound
  | some .directory, _ => throw .isADirectory
  | some (.file _), some .directory => throw .isADirectory
  | some (.file content), _ => return (tree.erase sourceLocation).put targetLocation (.file content)

/-- Makes the directories that the names lead through, as far as they are missing. -/
def makeAlong (tree : FileTree) : List String → List String → Except FileFault FileTree
  | _, [] => .ok tree
  | directory, name :: rest =>
    if name = "." then makeAlong tree directory rest
    else if name = ".." then makeAlong tree directory.dropLast rest
    else if longestName < name.utf8ByteSize then .error .nameTooLong
    else
      let path := directory ++ [name]
      match tree.entry? path with
      | none => makeAlong (tree.put path .directory) path rest
      | some .directory => makeAlong tree path rest
      | some (.file _) => .error (if rest = [] then .alreadyExists else .notADirectory)

/-- Makes a directory and the directories above it, as far as they are missing. -/
def makeDirectories (tree : FileTree) (path : String) : Except FileFault FileTree :=
  if path.toList.contains '\x00' then .error .invalidName
  else if longestPath < path.utf8ByteSize then .error .nameTooLong
  else
    match path.toList with
    | '/' :: _ => tree.makeAlong [] (namesOf path)
    | _ => tree.makeAlong tree.workingDirectory (namesOf path)

/-- The names in a directory. -/
def namesIn (tree : FileTree) (path : String) : List String :=
  match tree.locate path with
  | .error _ => []
  | .ok location =>
    tree.entries.filterMap fun (path, _) =>
      if path.dropLast = location then path.getLast? else none

end FileTree

/-! ## Paths as texts -/

namespace FilePath

/-- The path of a name in a directory. -/
def inside (directory name : String) : String :=
  if directory.isEmpty ∨ directory.endsWith "/" then directory ++ name
  else directory ++ "/" ++ name

/-- The last name of a path. -/
def lastName (path : String) : String :=
  String.ofList ((Text.parts '/' path.toList).getLastD [])

end FilePath

end ChangeFeed
