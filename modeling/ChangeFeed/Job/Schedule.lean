import ChangeFeed.Job.Run

/-!
# A schedule for the parts of a job

The order in which the parts take turns when no time passes: the read loop runs on until it waits
for something, then the applier and the persister run dry, and only then does the awaited thing
come about. So whatever the read loop learns from the server, everything that it read before is
written. The persister is told to end when the others have ended.
-/

namespace ChangeFeed.Job

variable {σ : Type}

/-- Whether the read loop goes on without waiting for anything. -/
def isBusy (job : Job σ) : Bool :=
  match job.pipeline.loop.control, job.session with
  | .opening _, _ => false
  | .confirming _, _ => false
  | .polling _, some session => session.log.next.isSome
  | .pushing _ _ _, _ => false
  | .idling _, _ => false
  | .backingOff, _ => false
  | .closing _, _ => false
  | .finished _, _ => false
  | _, _ => true

/-- A turn that waits for nothing. -/
def advance (s : Surroundings σ) (job : Job σ) : Option (Job σ) :=
  if job.isBusy then job.turnLoop s
  else job.turnApplier s <|> job.turnPersister s false

/-- A turn that something is waited for. -/
def await (s : Surroundings σ) (job : Job σ) : Option (Job σ) :=
  job.turnLoop s <|> job.turn .wrapUp

/-- Takes at most a number of turns. -/
def runWithin (s : Surroundings σ) : Nat → Job σ → Job σ
  | 0, job => job
  | fuel + 1, job =>
    match job.advance s <|> job.await s with
    | some job => runWithin s fuel job
    | none => job

/-- More turns than are ever waited for. -/
def manyTurns : Nat := 10000000

/-- What is said about a job that has not ended when nobody waits for it any more. -/
def unfinished : Failure :=
  .ofMessage "the job did not end"

end ChangeFeed.Job
