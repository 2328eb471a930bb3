import ChangeFeed.Command.Arguments
import ChangeFeed.Job.Settings

/-!
# Commands

What the command line can be asked for: to run a job, to show the checkpoint of a job, and to name
the slot of a job.
-/

namespace ChangeFeed

/-- How a job is described on the command line. -/
structure RunOptions where
  /-- The job file; the options that describe a job do not count then. -/
  jobFile : Option String
  connection : Option String
  jobId : Option String
  plugin : Plugin
  tables : List String
  schema : String
  grouped : Bool
  checkpointDirectory : String
  /-- The file that records are added to, in place of the standard output. -/
  output : Option String
  deriving DecidableEq

/-- A command. -/
inductive Command where
  | run (options : RunOptions)
  | showCheckpoint (jobId directory : String)
  | nameSlot (database jobId : String)
  deriving DecidableEq

namespace Command

/-- The options of a run. -/
def runRules : Rules :=
  [("config", .path), ("connection-string", .single), ("job-id", .single), ("plugin", .single),
    ("tables", .many), ("schema", .single), ("no-transaction-grouping", .switch),
    ("checkpoint-dir", .path), ("output", .path)]

/-- The variable of the environment that stands in for the connection. -/
def connectionVariable : String := "WAL_INGEST_CONNECTION_STRING"

/-- The variable of the environment that stands in for the job. -/
def jobVariable : String := "WAL_INGEST_JOB_ID"

/-- The variables of the environment that count. -/
def knownVariables : List String := [connectionVariable, jobVariable]

/-- The directory of checkpoints that the options name. -/
def directoryOf (options : Options) : String :=
  (options.value? "checkpoint-dir").getD CheckpointStorage.defaultDirectory

/-- The plugin that the options name. -/
def pluginOf (options : Options) : Except UsageFault Plugin :=
  match options.value? "plugin" with
  | none => .ok .default
  | some name =>
    match Plugin.ofName? name with
    | some plugin => .ok plugin
    | none => .error (.invalidValue "plugin" (Plugin.unknownMessage name))

/-- The run that options describe. Without a job file, the connection and the job must be named,
by options or by the environment. -/
def runOf (environment : String → Option String) (options : Options) :
    Except UsageFault Command := do
  let plugin ← pluginOf options
  let jobFile := options.value? "config"
  let connection := (options.value? "connection-string").or (environment connectionVariable)
  let jobId := (options.value? "job-id").or (environment jobVariable)
  if jobFile.isNone ∧ connection.isNone then throw (.missing "connection-string")
  if jobFile.isNone ∧ jobId.isNone then throw (.missing "job-id")
  return .run {
    jobFile := jobFile
    connection := connection
    jobId := jobId
    plugin := plugin
    tables := options.values "tables"
    schema := (options.value? "schema").getD "public"
    grouped := !options.has "no-transaction-grouping"
    checkpointDirectory := directoryOf options
    output := options.value? "output" }

/-- The command that arguments give in an environment. -/
def read (environment : String → Option String) : List String → Except UsageFault Command
  | [] => .error .noCommand
  | "run" :: rest => do runOf environment (← Options.read runRules rest)
  | "slot-name" :: rest => do
    let options ← Options.read [("database", .single), ("job-id", .single)] rest
    return .nameSlot (← options.value "database") (← options.value "job-id")
  | ["checkpoint"] => .error .noCommand
  | "checkpoint" :: "show" :: rest => do
    let options ← Options.read [("job-id", .single), ("checkpoint-dir", .path)] rest
    return .showCheckpoint (← options.value "job-id") (directoryOf options)
  | "checkpoint" :: name :: _ => .error (faultOf name)
  | name :: _ => .error (faultOf name)
where
  /-- What is wrong with a word in the place of a command. -/
  faultOf (name : String) : UsageFault :=
    if ["help", "-h", "--help"].contains name then .help else .unknownCommand name

end Command

/-- The settings of the job that the options of a run describe. -/
def RunOptions.settings (o : RunOptions) (tree : FileTree) : Except Failure JobSettings := do
  match o.jobFile, o.connection, o.jobId with
  | some path, _, _ => JobSettings.ofFile tree path
  | none, none, _ => throw (.ofMessage "--connection-string is required")
  | none, _, none => throw (.ofMessage "--job-id is required")
  | none, some connection, some jobId =>
    let settings := { JobSettings.ofSource jobId (.standard connection) with
      plugin := o.plugin
      tables := o.tables
      schema := o.schema
      grouped := o.grouped
      checkpoint := .filesystem o.checkpointDirectory }
    settings.validate
    return settings

end ChangeFeed
