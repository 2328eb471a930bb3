import ChangeFeed.Job.Schedule

/-!
# The host of a command

The files that a command works on and the texts that it prints. Nothing listens on the host or
beyond it, so a job gets no further than to its first connection.
-/

namespace ChangeFeed

/-- A host. -/
structure Host where
  shelf : Shelf
  /-- The moment that checkpoints are stamped with. -/
  now : Calendar.Instant
  /-- The file that lines are added to; without one they are printed. -/
  output : Option String
  /-- What was printed. -/
  printed : String

namespace Host

/-- Adds a line to the output. -/
def writeLine (host : Host) (line : String) : Except FileFault Unit × Host :=
  match host.output with
  | none => (.ok (), { host with printed := host.printed ++ line ++ "\n" })
  | some path =>
    match host.shelf.tree.append path (line ++ "\n") with
    | .ok tree => (.ok (), { host with shelf := { host.shelf with tree := tree } })
    | .error fault => (.error fault, host)

/-- The host as surroundings of a job. -/
def surroundings : Surroundings Host where
  connect settings host :=
    let silent (target : Connection.Target) : Except Cause Unit :=
      .error (target.silence host.shelf.tree)
    (Connection.connect silent settings, host)
  server _ host := (.lost, host)
  content path host := host.shelf.tree.read path
  load storage jobId host := host.shelf.load Position storage jobId
  save storage jobId position host :=
    let (shelf, result) := host.shelf.save storage jobId host.now position
    (result, { host with shelf := shelf })
  write line host := host.writeLine line
  flush host := (.ok (), host)

/-- Opens the output: a file is made if it is missing. -/
def openOutput (host : Host) (output : Option String) : Except Failure Host :=
  match output with
  | none => .ok { host with output := none }
  | some path =>
    match host.shelf.tree.append path "" with
    | .ok tree => .ok { host with output := some path, shelf := { host.shelf with tree := tree } }
    | .error fault =>
      .error ((Failure.ofCause (.file fault)).within ("Failed to open output " ++ path))

/-- Runs a job to its end. -/
def runJob (host : Host) (settings : JobSettings) : Except StartFault Position × Host :=
  match Job.start surroundings settings host with
  | (.error fault, host) => (.error fault, host)
  | (.ok job, _) =>
    let job := job.runWithin surroundings Job.manyTurns
    ((job.result?.getD (.error Job.unfinished)).mapError .failure, job.world)

end Host

end ChangeFeed
