/-!
# Failures

What ends an operation for its caller: a chain of causes from the outermost context to the root.
Causes whose wording is not part of this library stand as marks of their kind.
-/

namespace ChangeFeed

/-- Why the file system refused. -/
inductive FileFault where
  | notFound
  | notADirectory
  | isADirectory
  | alreadyExists
  | invalidName
  | nameTooLong
  | other
  deriving DecidableEq, Repr

/-- The name of a file fault. -/
def FileFault.name : FileFault → String
  | .notFound => "NotFound"
  | .notADirectory => "NotADirectory"
  | .isADirectory => "IsADirectory"
  | .alreadyExists => "AlreadyExists"
  | .invalidName => "InvalidInput"
  | .nameTooLong => "InvalidFilename"
  | .other => "Other"

/-- The wording of a file fault. -/
def FileFault.message : FileFault → String
  | .notFound => "No such file or directory (os error 2)"
  | .notADirectory => "Not a directory (os error 20)"
  | .isADirectory => "Is a directory (os error 21)"
  | .alreadyExists => "File exists (os error 17)"
  | .invalidName => "file name contained an unexpected NUL byte"
  | .nameTooLong => "File name too long (os error 36)"
  | .other => "other error"

/-- One element of a chain of causes. -/
inductive Cause where
  | message (text : String)
  /-- A text that is no document of the wanted shape. -/
  | document
  /-- A text that is no job file. -/
  | jobFile
  | file (fault : FileFault)
  /-- Nobody listens at the other end. -/
  | refused
  /-- A task that ended by breaking an assumption of its own. -/
  | broken
  /-- A database fault, with the code that the server gave to it. -/
  | database (code : Option String)
  deriving DecidableEq

/-- A cause as it is shown. -/
def Cause.shown : Cause → String
  | .message text => text
  | .document => "<json>"
  | .jobFile => "<toml>"
  | .file fault => "<io " ++ fault.name ++ ">"
  | .refused => "<io ConnectionRefused>"
  | .broken => "<panic>"
  | .database (some code) => "<postgres " ++ code ++ ">"
  | .database none => "<postgres>"

/-- A cause as it is told to whoever uses the command line. -/
def Cause.told : Cause → String
  | .file fault => fault.message
  | .refused => "Connection refused (os error 111)"
  | .message text => text
  | .document => "not a document of the wanted shape"
  | .jobFile => "not a job file"
  | .broken => "a task broke down"
  | .database none => "database failure"
  | .database (some code) => "database failure " ++ code

/-- A chain of causes, outermost first. -/
structure Failure where
  chain : List Cause
  deriving DecidableEq

namespace Failure

/-- A failure that one sentence explains. -/
def ofMessage (text : String) : Failure := ⟨[.message text]⟩

/-- A failure with one cause. -/
def ofCause (cause : Cause) : Failure := ⟨[cause]⟩

/-- The failure in a wider context. -/
def within (context : String) (failure : Failure) : Failure :=
  ⟨.message context :: failure.chain⟩

/-- The chain in words. -/
def shown (failure : Failure) : List String :=
  failure.chain.map Cause.shown

/-- The chain in the words of the command line. -/
def told (failure : Failure) : List String :=
  failure.chain.map Cause.told

end Failure

/-- Adds a context to the failure of a result. -/
def inContext {α : Type} (context : String) (result : Except Failure α) : Except Failure α :=
  result.mapError (Failure.within context)

end ChangeFeed
