import ChangeFeed.Plugin.Fault

/-!
# Grouping events by transaction

A grouped buffer holds the events of an open transaction back until its commit and then gives them
out as one batch, stamped with the numbers of the commit. A buffer that does not group gives every
event out at once, except for the beginnings of transactions.
-/

namespace ChangeFeed

/-- The events of a transaction that is still open. -/
structure OpenTransaction where
  xid : Option UInt64
  csn : Option UInt64
  /-- The events so far, in order. -/
  events : List Event

/-- An event with the numbers of its transaction's commit. A row keeps its own transaction
number. -/
def Event.stamp (xid csn : Option UInt64) : Event → Event
  | .row r => .row { r with csn := csn, xid := r.xid.or xid }
  | other => other

/-- The batch of a transaction that commits. -/
def OpenTransaction.commit (t : OpenTransaction) (position : Position)
    (xid csn : Option UInt64) (time : Option Calendar.Instant) : List Event :=
  let csn := csn.or t.csn
  let xid := xid.or t.xid
  t.events.map (Event.stamp xid csn) ++ [.commit position xid csn time]

/-- A buffer between the decoder and the converter. -/
structure TransactionBuffer where
  grouped : Bool
  /-- The open transaction, if there is one. -/
  current : Option OpenTransaction

namespace TransactionBuffer

/-- A buffer without events. -/
def empty (grouped : Bool) : TransactionBuffer := ⟨grouped, none⟩

/-- Whether no transaction is open. -/
def isIdle (b : TransactionBuffer) : Bool :=
  b.current.isNone

/-- The events that are held back. -/
def held (b : TransactionBuffer) : List Event :=
  match b.current with
  | none => []
  | some transaction => transaction.events

/-- The number of events that are held back. -/
def pending (b : TransactionBuffer) : Nat :=
  b.held.length

/-- Forgets an open transaction; a new session sends it again from its beginning. -/
def reset (b : TransactionBuffer) : TransactionBuffer :=
  { b with current := none }

/-- What the buffer does with an event: a batch that is ready, or nothing yet. -/
def offer (b : TransactionBuffer) (event : Event) :
    Except DecodeError (TransactionBuffer × Option (List Event)) :=
  if b.grouped then
    match b.current, event with
    | none, .begin _ xid csn => .ok ({ b with current := some ⟨xid, csn, []⟩ }, none)
    | none, .placeholder position => .ok (b, some [.placeholder position])
    | none, event => .error (.outsideTransaction event.kindName event.position)
    | some t, .begin position _ _ => .error (.malformed position (.nestedBegin t.xid))
    | some t, .commit position xid csn time =>
      .ok ({ b with current := none }, some (t.commit position xid csn time))
    | some t, event =>
      .ok ({ b with current := some { t with events := t.events ++ [event] } }, none)
  else
    match event with
    | .begin _ _ _ => .ok (b, none)
    | event => .ok (b, some [event])

end TransactionBuffer

end ChangeFeed
