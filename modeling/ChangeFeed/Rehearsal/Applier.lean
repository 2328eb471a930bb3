import ChangeFeed.Applier

/-!
# Rehearsals of an applier

An applier that finds all its records waiting and writes them to a scripted output, of which one
write and one flush may fail.
-/

namespace ChangeFeed.Rehearsal

/-- A rehearsal of an applier. -/
structure ApplierRun where
  flushEvery : Nat
  applier : Applier
  waiting : List Record
  /-- Which write fails, counted from one. -/
  badWrite : Option Nat
  /-- Which flush fails, counted from one. -/
  badFlush : Option Nat
  /-- How often a write was tried. -/
  writes : Nat
  /-- How often a flush was tried. -/
  flushes : Nat
  lines : List String

namespace ApplierRun

/-- A rehearsal that is about to start. -/
def start (flushEvery : Nat) (acknowledged : Position) (records : List Record)
    (badWrite badFlush : Option Nat) : ApplierRun :=
  ⟨max 1 flushEvery, .start acknowledged, records, badWrite, badFlush, 0, 0, []⟩

/-- Gives an event to the applier. -/
def give (r : ApplierRun) (event : ApplierEvent) : Option ApplierRun :=
  (r.applier.step r.flushEvery event).map fun a => { r with applier := a }

/-- Lets one thing happen. -/
def move (r : ApplierRun) : Option ApplierRun :=
  match r.applier.control with
  | .receiving =>
    match r.waiting with
    | record :: rest => { r with waiting := rest }.give (.received record)
    | [] => r.give .ended
  | .writing record =>
    let r := { r with writes := r.writes + 1 }
    if r.badWrite = some r.writes then r.give (.wrote (.error .other) r.waiting.isEmpty)
    else { r with lines := r.lines ++ [Applier.lineOf record] }.give
      (.wrote (.ok ()) r.waiting.isEmpty)
  | .flushing _ =>
    let r := { r with flushes := r.flushes + 1 }
    r.give (.flushed (if r.badFlush = some r.flushes then .error .other else .ok ()))
  | .finished _ => none

/-- Lets at most a number of things happen. -/
def settleWithin : Nat → ApplierRun → ApplierRun
  | 0, r => r
  | fuel + 1, r =>
    match r.move with
    | some r => settleWithin fuel r
    | none => r

/-- Lets the applier run to its end: three steps for a record and two for the end. -/
def settle (r : ApplierRun) : ApplierRun :=
  r.settleWithin (3 * r.waiting.length + 2)

end ApplierRun

end ChangeFeed.Rehearsal
