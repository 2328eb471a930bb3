import ChangeFeed.Failure
import ChangeFeed.Position

/-!
# The checkpoint persister

The persister saves the position that was acknowledged last, at regular times and once more at its
end, and tells what it has saved on the durable feed. A position that is not beyond the last saved
one is not saved, and a save that fails is tried again with the position of that time.
-/

namespace ChangeFeed

/-- What a persister sees when it looks around. -/
structure Acknowledged where
  /-- The position that was acknowledged last. -/
  position : Position
  /-- Whether nobody is left to acknowledge anything. -/
  isClosed : Bool
  /-- Whether the persister is told to end. -/
  endAsked : Bool
  deriving DecidableEq

namespace Persister

/-- The control point of a persister. -/
inductive Control where
  /-- About to make its timer. -/
  | starting
  /-- Waiting for the timer or for the order to end. -/
  | waiting
  /-- Waiting for the store to take a position. -/
  | saving (target : Position)
  /-- Waiting for the store to take the last position. -/
  | savingLast (target : Position)
  | finished (result : Except Failure Unit)
  /-- There is no timer without time between its ticks. -/
  | broken

end Persister

/-- A checkpoint persister. -/
structure Persister where
  /-- The greatest position that is known to be saved: what the durable feed carries. -/
  durable : Position
  control : Persister.Control

/-- What the world answers to a persister. -/
inductive PersisterEvent where
  /-- Nothing: the persister goes on by itself. -/
  | next
  /-- The wait is over. -/
  | woke
  /-- The store has answered. -/
  | saved (result : Except Failure Unit)

namespace Persister

/-- A persister that starts when a position is already saved. -/
def start (durable : Position) : Persister :=
  ⟨durable, .starting⟩

/-- The context of a failure of the last save. -/
def lastSaveContext (target : Position) : String :=
  "Failed to save final checkpoint " ++ target.write

/-- The persister goes to its end, by way of a last save if there is something to save. -/
def finish (p : Persister) (seen : Acknowledged) : Persister :=
  if p.durable < seen.position then { p with control := .savingLast seen.position }
  else { p with control := .finished (.ok ()) }

/-- The persister after a tick is dealt with. -/
def rest (p : Persister) (seen : Acknowledged) : Persister :=
  if seen.isClosed then p.finish seen else { p with control := .waiting }

/-- One transition of a persister whose timer has a number of milliseconds between its ticks.
There is none for an event that the control point does not wait for. -/
def step (interval : Nat) (seen : Acknowledged) (p : Persister) (event : PersisterEvent) :
    Option Persister :=
  match p.control, event with
  | .starting, .next =>
    some { p with control := if interval = 0 then .broken else .waiting }
  | .waiting, .woke =>
    if seen.endAsked then some (p.finish seen)
    else if p.durable < seen.position then some { p with control := .saving seen.position }
    else some (p.rest seen)
  | .saving target, .saved (.ok ()) => some ({ p with durable := target }.rest seen)
  | .saving _, .saved (.error _) => some (p.rest seen)
  | .savingLast target, .saved (.ok ()) => some ⟨target, .finished (.ok ())⟩
  | .savingLast target, .saved (.error failure) =>
    some { p with control := .finished (.error (failure.within (lastSaveContext target))) }
  | _, _ => none

/-- Whether the persister has ended, in whatever way. -/
def isFinished (p : Persister) : Bool :=
  match p.control with
  | .finished _ => true
  | .broken => true
  | _ => false

/-- How a persister has ended. -/
inductive Outcome where
  | ended (result : Except Failure Unit)
  | broken

/-- How the persister has ended, if it has. -/
def outcome? (p : Persister) : Option Outcome :=
  match p.control with
  | .finished result => some (.ended result)
  | .broken => some .broken
  | _ => none

end Persister

end ChangeFeed
