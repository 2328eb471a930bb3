import ChangeFeed.Job.Schedule
import ChangeFeed.Rehearsal.Site

/-!
# Rehearsals of a job

A job on a rehearsed site. It is asked to stop after a number of looks at the changes, at a moment
when everything that it read is written.
-/

namespace ChangeFeed.Rehearsal

/-- A run of a job. -/
structure JobRun where
  job : Job Site
  /-- After how many looks at the changes the job is asked to stop. -/
  looks : Nat
  /-- Whether it was asked. -/
  isStopped : Bool

namespace JobRun

/-- Asks the job to stop, if it has looked at the changes often enough. -/
def stopWhenSeen (r : JobRun) : Option JobRun :=
  if r.isStopped ∨ r.job.pipeline.loop.isFinished ∨ r.job.world.peeks < r.looks then none
  else r.job.stop.map fun job => { r with job := job, isStopped := true }

/-- The next thing that happens, unless all is over. -/
def move (r : JobRun) : Option JobRun :=
  let withJob (job : Job Site) : JobRun := { r with job := job }
  (r.job.advance Site.surroundings).map withJob
    <|> r.stopWhenSeen
    <|> (r.job.await Site.surroundings).map withJob

/-- Lets at most a number of things happen. -/
def settleWithin : Nat → JobRun → JobRun
  | 0, r => r
  | fuel + 1, r =>
    match r.move with
    | some r => settleWithin fuel r
    | none => r

/-- Lets everything happen. -/
def settle (r : JobRun) : JobRun :=
  r.settleWithin Job.manyTurns

end JobRun

/-- How a rehearsal of a job went. -/
structure JobReport where
  result : Except StartFault Position
  /-- Whether the job was asked to stop. -/
  isStopped : Bool
  site : Site

/-- Rehearses a job that is asked to stop after a number of looks at the changes. -/
def JobReport.ofRun (settings : JobSettings) (looks : Nat) (site : Site) : JobReport :=
  match Job.start Site.surroundings settings site with
  | (.error fault, site) => ⟨.error fault, false, site⟩
  | (.ok job, _) =>
    let run := (JobRun.mk job looks false).settle
    let result := run.job.result?.getD (.error Job.unfinished)
    ⟨result.mapError .failure, run.isStopped, run.job.world⟩

end ChangeFeed.Rehearsal
