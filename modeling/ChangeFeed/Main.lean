import ChangeFeed.Command.Answer

/-!
# The command line

Takes the files that a command names into a tree, lets the command work on the tree, prints its
answer, and puts the files that have changed back.
-/

namespace ChangeFeed.Main

/-- The files that a command may read or add to, as far as they are known from a tree. A job file
names more of them. -/
def filesOf (tree : FileTree) : Command → List String
  | .nameSlot _ _ => []
  | .showCheckpoint jobId directory => [CheckpointDirectory.pathOf directory jobId]
  | .run options =>
    let named := options.jobFile.toList ++ options.output.toList
    match options.settings tree with
    | .error _ => named
    | .ok settings =>
      let checkpoint := match settings.checkpoint with
        | .memory => []
        | .filesystem directory => [CheckpointDirectory.pathOf directory settings.jobId]
      named ++ settings.schemaFile.toList ++ checkpoint

/-- The directories that a path leads through. -/
def directoriesOf (path : String) : List String :=
  let parts := Text.parts '/' path.toList
  (List.range parts.length).filterMap fun count =>
    let front := Text.joined "/" ((parts.take count).map String.ofList)
    if front.isEmpty then none else some front

/-- Takes a directory into a tree, if it exists. -/
def takeDirectory (tree : FileTree) (path : String) : IO FileTree := do
  try
    let location ← IO.FS.realPath path
    if ← location.isDir then return (tree.makeDirectories path).toOption.getD tree
    else return tree
  catch _ => return tree

/-- Takes a file into a tree, with the directories above it, as far as they exist. -/
def takeFile (tree : FileTree) (path : String) : IO FileTree := do
  let tree ← (directoriesOf path).foldlM takeDirectory tree
  let tree ← takeDirectory tree path
  try
    let content ← IO.FS.readFile path
    return (tree.write path content).toOption.getD tree
  catch _ => return tree

/-- Puts a file back. -/
def putBack (path : List String) (content : String) : IO Unit :=
  IO.FS.writeFile ("/" ++ Text.joined "/" path) content

/-- Puts the files back that are new or have changed. -/
def putChanges (before after : FileTree) : IO Unit :=
  after.entries.forM fun (path, entry) => do
    match entry with
    | .file content =>
      if before.entries.lookup path ≠ some (.file content) then putBack path content
    | .directory => return ()

/-- The values of the variables that count. -/
def takeEnvironment : IO (String → Option String) := do
  let values ← Command.knownVariables.mapM fun name => do return (name, ← IO.getEnv name)
  return fun name => (values.lookup name).join

/-- A tree of no files, with the current directory. -/
def emptyTree : IO FileTree := do
  let current ← IO.currentDir
  let tree : FileTree := ⟨[], FileTree.namesOf current.toString⟩
  return (tree.makeDirectories current.toString).toOption.getD tree

/-- Answers arguments. -/
def run (arguments : List String) : IO UInt32 := do
  let environment ← takeEnvironment
  let command := Command.read environment arguments
  let load (tree : FileTree) : IO FileTree :=
    match command with
    | .ok command => (filesOf tree command).foldlM takeFile tree
    | .error _ => return tree
  let tree ← load (← load (← emptyTree))
  let host : Host := ⟨⟨[], tree⟩, Calendar.Instant.epoch, none, ""⟩
  let (answer, host) := Command.answer environment host arguments
  IO.print answer.printed
  IO.eprint answer.told
  putChanges tree host.shelf.tree
  return answer.code.toUInt32

end ChangeFeed.Main

/-- Runs the command line. -/
def main (arguments : List String) : IO UInt32 :=
  ChangeFeed.Main.run arguments
