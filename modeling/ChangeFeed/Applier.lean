import ChangeFeed.Failure
import ChangeFeed.Json.Write
import ChangeFeed.Record.Document

/-!
# The applier

The applier writes every record that it receives as a line, in order. It flushes the output when a
number of records is written or no further record waits, and once more at its end; after a flush
it acknowledges the position of the record that it wrote last, if that is an advance.
-/

namespace ChangeFeed

namespace Applier

/-- The control point of an applier. -/
inductive Control where
  /-- Waiting for a record or for the end of the channel. -/
  | receiving
  /-- Waiting for the output to take a record. -/
  | writing (record : Record)
  /-- Waiting for the output to flush; whether that is the last time. -/
  | flushing (isLast : Bool)
  | finished (result : Except Failure Nat)

end Applier

/-- An applier. -/
structure Applier where
  /-- The position that it acknowledged last: everything it wrote up to there is flushed. -/
  acknowledged : Position
  /-- The records that are written and flushed. -/
  written : Nat
  /-- The records that are written and not flushed. -/
  unflushed : Nat
  /-- The position of the record that it wrote last. -/
  last : Option Position
  control : Applier.Control

/-- What the world answers to an applier. -/
inductive ApplierEvent where
  | received (record : Record)
  /-- The channel is closed and empty. -/
  | ended
  /-- The output has taken a record or not, and the channel is empty at that moment or not. -/
  | wrote (result : Except FileFault Unit) (isDrained : Bool)
  | flushed (result : Except FileFault Unit)

namespace Applier

/-- How many records an applier writes between flushes if nothing else is said. -/
def defaultFlushEvery : Nat := 1000

/-- An applier that starts when a position is already acknowledged. -/
def start (acknowledged : Position) : Applier :=
  ⟨acknowledged, 0, 0, none, .receiving⟩

/-- The line of a record. -/
def lineOf (record : Record) : String :=
  record.toJson.render

/-- The end of an applier that cannot go on. -/
def fail (a : Applier) (context : String) (fault : FileFault) : Applier :=
  { a with control := .finished (.error ((Failure.ofCause (.file fault)).within context)) }

/-- The applier after it wrote a record. -/
def count (a : Applier) (record : Record) : Applier :=
  { a with unflushed := a.unflushed + 1, last := some record.position }

/-- The applier after a flush. -/
def acknowledge (a : Applier) : Applier :=
  { a with
    acknowledged := a.last.elim a.acknowledged (max a.acknowledged)
    written := a.written + a.unflushed
    unflushed := 0 }

/-- One transition of an applier that flushes every so many records. There is none for an event
that the control point does not wait for. -/
def step (flushEvery : Nat) (a : Applier) (event : ApplierEvent) : Option Applier :=
  match a.control, event with
  | .receiving, .received record => some { a with control := .writing record }
  | .receiving, .ended => some { a with control := .flushing true }
  | .writing record, .wrote (.ok ()) isDrained =>
    let a := a.count record
    if flushEvery ≤ a.unflushed ∨ isDrained then some { a with control := .flushing false }
    else some { a with control := .receiving }
  | .writing _, .wrote (.error fault) _ => some (a.fail "Failed to write record" fault)
  | .flushing isLast, .flushed (.ok ()) =>
    let a := a.acknowledge
    some { a with control := if isLast then .finished (.ok a.written) else .receiving }
  | .flushing _, .flushed (.error fault) => some (a.fail "Failed to flush output" fault)
  | _, _ => none

/-- Whether the applier has ended. -/
def isFinished (a : Applier) : Bool :=
  match a.control with
  | .finished _ => true
  | _ => false

/-- How the applier has ended: the number of records that are written and flushed. -/
def result? (a : Applier) : Option (Except Failure Nat) :=
  match a.control with
  | .finished result => some result
  | _ => none

end Applier

end ChangeFeed
