import ChangeFeed.Command.Basic
import ChangeFeed.Command.Host

/-!
# Answers of the command line

What a command prints and the code that it ends with: 0 if all went well, 1 after a failure, and 2
if its arguments are wrong.
-/

namespace ChangeFeed

/-- What a command answers. -/
structure Answer where
  code : Nat
  /-- What goes to the standard output. -/
  printed : String
  /-- What goes to the standard error. -/
  told : String
  deriving DecidableEq, Repr

namespace Answer

/-- A failure in one line. -/
def lineOf (failure : Failure) : String :=
  "Error: " ++ Text.joined ": " failure.told ++ "\n"

/-- The answer after a failure. -/
def ofFailure (printed : String) (failure : Failure) : Answer :=
  ⟨1, printed, lineOf failure⟩

/-- The answer to wrong arguments; whoever asks for help gets it. -/
def ofUsage (fault : Command.UsageFault) : Answer :=
  if fault = .help then ⟨0, fault.message ++ "\n", ""⟩
  else ⟨2, "", "error: " ++ fault.message ++ "\n"⟩

end Answer

namespace Command

/-- The line that shows a checkpoint. -/
def lineOfCheckpoint (file : CheckpointFile) (position : Position) : String :=
  file.id.source ++ ":" ++ position.write ++ " (saved " ++ file.createdAt.spell ++ ")\n"

/-- Shows the checkpoint of a job. -/
def checkpointLine (tree : FileTree) (jobId directory : String) : Except Failure String := do
  match ← CheckpointDirectory.loadFile tree directory jobId with
  | some file => return lineOfCheckpoint file (← file.state? Position)
  | none =>
    throw (.ofMessage ("No checkpoint for job '" ++ jobId ++ "' in " ++ directory))

/-- Runs a job. -/
def runJob (host : Host) (options : RunOptions) : Answer × Host :=
  let opened : Except Failure (JobSettings × Host) := do
    let settings ← options.settings host.shelf.tree
    let host ← host.openOutput options.output
    return (settings, host)
  match opened with
  | .error failure => (.ofFailure host.printed failure, host)
  | .ok (settings, host) =>
    match host.runJob settings with
    | (.ok _, host) => (⟨0, host.printed, ""⟩, host)
    | (.error (.failure failure), host) => (.ofFailure host.printed failure, host)
    | (.error (.channel fault), host) => (⟨101, host.printed, fault.message ++ "\n"⟩, host)

/-- Does what a command asks for. -/
def perform (host : Host) : Command → Answer × Host
  | .run options => runJob host options
  | .showCheckpoint jobId directory =>
    match checkpointLine host.shelf.tree jobId directory with
    | .ok line => (⟨0, line, ""⟩, host)
    | .error failure => (.ofFailure "" failure, host)
  | .nameSlot database jobId => (⟨0, SlotName.ofJob database jobId ++ "\n", ""⟩, host)

/-- Answers arguments in an environment. -/
def answer (environment : String → Option String) (host : Host) (arguments : List String) :
    Answer × Host :=
  match read environment arguments with
  | .error fault => (.ofUsage fault, host)
  | .ok command => perform host command

end Command

end ChangeFeed
