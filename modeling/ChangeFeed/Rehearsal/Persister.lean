import ChangeFeed.Checkpoint.Persister
import ChangeFeed.Rehearsal.Clock

/-!
# Rehearsals of a persister

A persister that saves to a scripted store in rehearsed time. The script says which of the saves
fail, and how; those behind its end succeed.
-/

namespace ChangeFeed.Rehearsal

/-- A rehearsal of a persister. -/
structure PersisterRun where
  /-- The milliseconds between the ticks. -/
  interval : Nat
  persister : Persister
  acknowledged : Acknowledged
  now : Nat
  /-- When the next tick is. -/
  due : Nat
  /-- How the next saves fail. -/
  faults : List (Option Failure)
  /-- How often a save was tried. -/
  attempts : Nat
  stored : Option Position

namespace PersisterRun

/-- A rehearsal that is about to start. -/
def start (interval : Nat) (durable : Position) (faults : List (Option Failure)) :
    PersisterRun :=
  ⟨interval, .start durable, ⟨durable, false, false⟩, 0, 0, faults, 0, none⟩

/-- Gives an event to the persister. -/
def give (r : PersisterRun) (event : PersisterEvent) : Option PersisterRun :=
  (r.persister.step r.interval r.acknowledged event).map fun p => { r with persister := p }

/-- Lets the store answer. -/
def save (r : PersisterRun) (target : Position) : Option PersisterRun :=
  let tried := { r with attempts := r.attempts + 1, faults := r.faults.tail }
  match r.faults with
  | some failure :: _ => tried.give (.saved (.error failure))
  | _ => { tried with stored := some target }.give (.saved (.ok ()))

/-- Lets one thing happen, if anything can happen now. -/
def move (r : PersisterRun) : Option PersisterRun :=
  match r.persister.control with
  | .starting => { r with due := r.now }.give .next
  | .waiting =>
    if r.acknowledged.endAsked then r.give .woke
    else if r.due ≤ r.now then { r with due := r.now + r.interval }.give .woke
    else none
  | .saving target => r.save target
  | .savingLast target => r.save target
  | .finished _ => none
  | .broken => none

/-- Lets at most a number of things happen. -/
def settleWithin : Nat → PersisterRun → PersisterRun
  | 0, r => r
  | fuel + 1, r =>
    match r.move with
    | some r => settleWithin fuel r
    | none => r

/-- Lets everything happen that can happen now: the start, a tick with its save, and the last save
are five steps at most. -/
def settle (r : PersisterRun) : PersisterRun :=
  r.settleWithin 5

/-- When the next tick is, if the persister waits for it. -/
def due? (r : PersisterRun) : Option Nat :=
  match r.persister.control with
  | .waiting => some r.due
  | _ => none

instance : Timed PersisterRun where
  now := now
  due? := due?
  arrive t r := { r with now := t }.settle
  isOver r := r.persister.isFinished

/-- Publishes a position, unless nobody is left to publish anything. -/
def publish (r : PersisterRun) (position : Position) : PersisterRun :=
  if r.acknowledged.isClosed then r
  else { r with acknowledged := { r.acknowledged with position := position } }

/-- Tells the persister to end. -/
def cancel (r : PersisterRun) : PersisterRun :=
  { r with acknowledged := { r.acknowledged with endAsked := true } }

/-- Takes away whoever publishes positions. -/
def dropSource (r : PersisterRun) : PersisterRun :=
  { r with acknowledged := { r.acknowledged with isClosed := true } }

end PersisterRun

end ChangeFeed.Rehearsal
