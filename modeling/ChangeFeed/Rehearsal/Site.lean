import ChangeFeed.Job.Run

/-!
# Rehearsed surroundings of a job

A tree of files, and a server that listens on one socket and keeps one slot over a list of
changes. A look at the changes gives those behind the slot, unless the script makes it fail. The
output never fails.
-/

namespace ChangeFeed.Rehearsal

/-- A change that the server has logged. -/
structure Change where
  position : Position
  row : List Cell

/-- The surroundings of a job. -/
structure Site where
  shelf : Shelf
  /-- The moment that checkpoints are stamped with. -/
  now : Calendar.Instant
  /-- The path of the socket on which the server listens, if there is a server. -/
  socket : Option String
  /-- The position of the slot, if it was created. -/
  slot : Option Position
  changes : List Change
  /-- The answers to questions about tables. -/
  lookups : List Reply
  /-- Codes and messages with which looks at the changes fail. -/
  peekFaults : List (Option (String × String))
  /-- The looks at the changes that did not fail. -/
  peeks : Nat
  /-- What was written to the output. -/
  lines : List String

namespace Site

/-- The changes behind the slot, but no more than a number of them. -/
def pending (site : Site) (limit : Nat) : List (List Cell) :=
  let position := site.slot.getD .zero
  ((site.changes.filter fun change => position < change.position).take limit).map Change.row

/-- Answers a look at the changes. -/
def peek (site : Site) (limit : Nat) : Reply × Site :=
  let later := { site with peekFaults := site.peekFaults.tail }
  match site.peekFaults with
  | some (code, message) :: _ => (.refused code message, later)
  | _ => (.rows (site.pending limit), { later with peeks := later.peeks + 1 })

/-- Answers a question about tables. -/
def lookUp (site : Site) : Reply × Site :=
  (site.lookups.headD (.rows []), { site with lookups := site.lookups.tail })

/-- The server: a slot is created at the start of the log and never moves back. -/
def server : Server Site := fun statement site =>
  match statement with
  | .findSlot _ =>
    let rows := site.slot.elim [] fun p => [[.text Plugin.testDecoding.name, .text p.write]]
    (.rows rows, site)
  | .createSlot _ _ => (.rows [[.text Position.zero.write]], { site with slot := some .zero })
  | .advanceSlot _ position =>
    (.rows [[.null]], { site with slot := some (max (site.slot.getD .zero) position) })
  | .peekChanges _ limit _ => site.peek limit
  | .listColumns _ => site.lookUp
  | .listPrimaryKeys _ => site.lookUp

/-- What answers at a target: the server on its socket, and nobody elsewhere. -/
def attempt (site : Site) (target : Connection.Target) : Except Cause Unit :=
  if site.socket.map .socket = some target then .ok ()
  else .error (target.silence site.shelf.tree)

/-- The site as surroundings of a job. -/
def surroundings : Surroundings Site where
  connect settings site := (Connection.connect site.attempt settings, site)
  server := server
  content path site := site.shelf.tree.read path
  load storage jobId site := site.shelf.load Position storage jobId
  save storage jobId position site :=
    let (shelf, result) := site.shelf.save storage jobId site.now position
    (result, { site with shelf := shelf })
  write line site := (.ok (), { site with lines := site.lines ++ [line] })
  flush site := (.ok (), site)

/-- The site for a new run, of which nothing in memory is left. -/
def anew (site : Site) : Site :=
  { site with shelf := { site.shelf with table := [] }, peeks := 0, lines := [] }

end Site

end ChangeFeed.Rehearsal
