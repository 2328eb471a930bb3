import ChangeFeed.Proofs.Applier.Transition
import ChangeFeed.Proofs.Json.Line
import ChangeFeed.Proofs.Record.Document
import ChangeFeed.Proofs.Text.Utf8

/-!
# The lines of an applier

An applier together with what its output has taken. Every record that it wrote stands on a line of
its own, from which it is read back: `Applier.Writing.reads_back`, for all records whose values hold
no floating-point numbers and that are not nested too deeply. A write that fails may leave some of
its line in the output, which no line break ends.
-/

namespace ChangeFeed

/-- The byte that ends a line. -/
def lineEnd : UInt8 := 10

/-- The record that a line holds. -/
def Record.ofLine? (line : List UInt8) : Option Record := do
  let cs ← (Text.ofUtf8 line).toOption
  Record.ofJson? (← Json.readChars cs)

namespace Applier

/-- The bytes of the line of a record. -/
def bytesOf (record : Record) : List UInt8 :=
  Text.toUtf8 (lineOf record).toList

/-- The bytes that the output is given for a record. -/
def outputOf (record : Record) : List UInt8 :=
  Text.toUtf8 (lineOf record ++ "\n").toList

/-- The output is given the line of a record and the end of that line. -/
theorem output_of_eq (record : Record) : outputOf record = bytesOf record ++ [lineEnd] := by
  rw [outputOf, String.toList_append, Text.toUtf8, List.flatMap_append]
  rfl

/-- There is no line break in the line of a record without floating-point numbers. -/
theorem line_end_not_mem {record : Record} (h : record.IsExact) : lineEnd ∉ bytesOf record := by
  intro hmem
  obtain ⟨c, hc, hbyte⟩ := List.mem_flatMap.mp hmem
  have hbreak : c.toNat = 10 := Text.to_nat_of_mem_encode hbyte (by decide)
  have hline := Json.is_line_render _ (Record.is_plain_to_json h) c
    (by simpa [lineOf, Json.render] using hc)
  omega

/-- A record without floating-point numbers is read back from its line. -/
theorem of_line_bytes {record : Record} (h : record.IsExact)
    (hheight : record.toJson.height ≤ Json.depthLimit) :
    Record.ofLine? (bytesOf record) = some record := by
  have hread : Json.readChars (lineOf record).toList = some record.toJson :=
    Json.read_render (Record.is_plain_to_json h) hheight
  rw [Record.ofLine?, bytesOf, Text.of_utf8_to_utf8]
  simp [Except.toOption, hread, Record.of_json_to_json h hheight]

/-- Lines are found where they end, and behind them what no line break ends. -/
theorem split_lines {records : List Record} (h : ∀ record ∈ records, lineEnd ∉ bytesOf record)
    {rest : List UInt8} (hrest : lineEnd ∉ rest) :
    (records.flatMap outputOf ++ rest).splitOn lineEnd = records.map bytesOf ++ [rest] := by
  induction records with
  | nil => exact List.splitOn_eq_singleton hrest
  | cons record records ih =>
      obtain ⟨hrecord, hrecords⟩ := List.forall_mem_cons.mp h
      have htext : (record :: records).flatMap outputOf ++ rest =
          bytesOf record ++ lineEnd :: (records.flatMap outputOf ++ rest) := by
        simp [output_of_eq]
      rw [htext, List.splitOn_append_cons_self_of_not_mem hrecord, ih hrecords]
      rfl

/-- An applier that has ended stands at that end. -/
theorem control_of_result {a : Applier} {result : Except Failure Nat}
    (h : a.result? = some result) : a.control = .finished result := by
  unfold result? at h
  split at h
  · rename_i hcontrol
    exact hcontrol.trans (congrArg _ (Option.some.inj h))
  · exact absurd h nofun

/-! ## What an output takes -/

/-- An applier and its output. -/
structure Writing where
  applier : Applier
  /-- The records that the applier has received. -/
  received : List Record
  /-- The records whose lines the output has taken. -/
  taken : List Record
  output : List UInt8

namespace Writing

/-- What happens to an applier: an event, and how much of its line a write that fails leaves in the
output. -/
structure Move where
  event : ApplierEvent
  torn : Nat

/-- The records that an applier receives. -/
def receivedBy : ApplierEvent → List Record
  | .received record => [record]
  | _ => []

/-- The records whose lines the output takes. -/
def takenBy : Control → ApplierEvent → List Record
  | .writing record, .wrote (.ok ()) _ => [record]
  | _, _ => []

/-- What the output takes. -/
def outputBy : Control → Move → List UInt8
  | .writing record, ⟨.wrote (.ok ()) _, _⟩ => outputOf record
  | .writing record, ⟨.wrote (.error _) _, torn⟩ => (bytesOf record).take torn
  | _, _ => []

/-- An applier that starts with an empty output. -/
def start (acknowledged : Position) : Writing :=
  ⟨.start acknowledged, [], [], []⟩

/-- One transition of an applier with its output. -/
def step (flushEvery : Nat) (w : Writing) (move : Move) : Option Writing :=
  (w.applier.step flushEvery move.event).map fun applier =>
    { applier := applier
      received := w.received ++ receivedBy move.event
      taken := w.taken ++ takenBy w.applier.control move.event
      output := w.output ++ outputBy w.applier.control move }

/-- A run of an applier with its output. -/
def run (flushEvery : Nat) (w : Writing) (moves : List Move) : Option Writing :=
  moves.foldlM (step flushEvery) w

/-- The record that an applier has in hand. -/
def inHand : Control → List Record
  | .writing record => [record]
  | _ => []

/-- The output is in order: it holds the lines of what was taken, and at most the beginning of one
line more. -/
structure IsOrderly (w : Writing) : Prop where
  taken : w.taken <+: w.received
  output : ∃ torn, w.output = w.taken.flatMap outputOf ++ torn ∧
    (torn = [] ∨ ∃ record ∈ w.received, torn <+: bytesOf record)
  /-- Without a failure nothing is torn, and only what is in hand is not taken. -/
  whole : (∀ failure, w.applier.control ≠ .finished (.error failure)) →
    w.output = w.taken.flatMap outputOf ∧ w.received = w.taken ++ inHand w.applier.control ∧
      w.applier.written + w.applier.unflushed = w.taken.length
  count : ∀ n, w.applier.control = .finished (.ok n) → n = w.taken.length

variable {flushEvery : Nat} {w w' : Writing} {move : Move}

/-- An output is in order if nothing has failed. -/
theorem IsOrderly.of_whole
    (houtput : w.output = w.taken.flatMap outputOf)
    (hreceived : w.received = w.taken ++ inHand w.applier.control)
    (hwritten : w.applier.written + w.applier.unflushed = w.taken.length)
    (hcount : ∀ n, w.applier.control = .finished (.ok n) → n = w.taken.length) : w.IsOrderly where
  taken := hreceived ▸ List.prefix_append _ _
  output := ⟨[], by rw [houtput, List.append_nil], .inl rfl⟩
  whole _ := ⟨houtput, hreceived, hwritten⟩
  count := hcount

/-- Every transition keeps the output in order. -/
theorem IsOrderly.step (h : w.IsOrderly) (hstep : w.step flushEvery move = some w') :
    w'.IsOrderly := by
  obtain ⟨applier, hmoves, rfl⟩ := Option.map_eq_some_iff.mp hstep
  have hmoves := moves_of_step hmoves
  obtain ⟨a, received, taken, output⟩ := w
  obtain ⟨event, torn⟩ := move
  have hgoes : ∀ failure, a.control ≠ .finished (.error failure) := by
    intro failure hcontrol
    exact absurd (hmoves.not_finished.symm.trans (is_finished_iff.mpr ⟨_, hcontrol⟩)) (by simp)
  obtain ⟨houtput, hreceived, hwritten⟩ := h.whole hgoes
  dsimp only at hmoves houtput hreceived hwritten
  cases hmoves with
  | receives hcontrol =>
      refine .of_whole ?_ ?_ ?_ nofun <;>
        simp [receivedBy, takenBy, outputBy, inHand, hcontrol, houtput, hreceived, hwritten]
  | ends hcontrol =>
      refine .of_whole ?_ ?_ ?_ nofun <;>
        simp [receivedBy, takenBy, outputBy, inHand, hcontrol, houtput, hreceived, hwritten]
  | writes hcontrol hnext =>
      refine .of_whole ?_ ?_ ?_ ?_
      · simp [takenBy, outputBy, hcontrol, houtput]
      · rcases hnext with rfl | rfl <;> simp [receivedBy, takenBy, hcontrol, hreceived, inHand]
      · simp [takenBy, hcontrol, Applier.count, ← hwritten, Nat.add_assoc]
      · rcases hnext with rfl | rfl <;> exact nofun
  | flushes hcontrol =>
      refine .of_whole ?_ ?_ ?_ nofun <;>
        simp [receivedBy, takenBy, outputBy, inHand, hcontrol, houtput, hreceived, hwritten,
          Applier.acknowledge]
  | flushesLast hcontrol =>
      refine .of_whole ?_ ?_ ?_ ?_ <;>
        simp [receivedBy, takenBy, outputBy, inHand, hcontrol, houtput, hreceived, hwritten,
          Applier.acknowledge]
  | fails hevent _ =>
      have hnone : receivedBy event = [] ∧ takenBy a.control event = [] := by
        rcases hevent with ⟨_, rfl⟩ | rfl
        · exact ⟨rfl, by cases a.control <;> rfl⟩
        · exact ⟨rfl, by cases a.control <;> rfl⟩
      have htorn : outputBy a.control ⟨event, torn⟩ = [] ∨
          ∃ record ∈ received, outputBy a.control ⟨event, torn⟩ <+: bytesOf record := by
        rcases hevent with ⟨_, rfl⟩ | rfl
        · cases hcontrol : a.control with
          | writing record =>
              rw [hcontrol] at hreceived
              exact .inr ⟨record, by simp [hreceived, inHand], List.take_prefix _ _⟩
          | _ => exact .inl rfl
        · exact .inl (by cases a.control <;> rfl)
      refine ⟨?_, ⟨outputBy a.control ⟨event, torn⟩, ?_, ?_⟩, fun hnot => absurd rfl (hnot _), nofun⟩
      · simpa [hnone] using h.taken
      · simp [hnone, houtput]
      · simpa [hnone] using htorn

/-- Every run keeps the output in order. -/
theorem IsOrderly.run (h : w.IsOrderly) {moves : List Move}
    (hrun : w.run flushEvery moves = some w') : w'.IsOrderly := by
  induction moves generalizing w with
  | nil => exact Option.some.inj hrun ▸ h
  | cons move rest ih =>
      obtain ⟨next, hstep, hrest⟩ := Option.bind_eq_some_iff.mp hrun
      exact ih (h.step hstep) hrest

/-- The output of an applier that starts is in order. -/
theorem orderly_start (acknowledged : Position) : (start acknowledged).IsOrderly :=
  .of_whole rfl rfl rfl nofun

/-! ## Records read back -/

/-- Runs one after the other are a run. -/
theorem run_append (w : Writing) (moves more : List Move) :
    w.run flushEvery (moves ++ more) = (w.run flushEvery moves).bind (run flushEvery · more) :=
  List.foldlM_append

/-- An applier that waits for a record can receive and write it. After a flush it waits again. -/
theorem exists_run_record (hcontrol : w.applier.control = .receiving) (record : Record) :
    ∃ moves w', w.run flushEvery moves = some w' ∧ w'.applier.control = .receiving ∧
      w'.received = w.received ++ [record] := by
  let taking : Writing :=
    ⟨{ w.applier with control := .writing record }, w.received ++ [record], w.taken, w.output⟩
  let flushing : Writing :=
    ⟨{ w.applier.count record with control := .flushing false }, w.received ++ [record],
      w.taken ++ [record], w.output ++ outputOf record⟩
  let waiting : Writing :=
    ⟨{ (w.applier.count record).acknowledge with control := .receiving }, w.received ++ [record],
      w.taken ++ [record], w.output ++ outputOf record⟩
  have hreceived : w.step flushEvery ⟨.received record, 0⟩ = some taking := by
    simp [step, Applier.step, hcontrol, receivedBy, takenBy, outputBy, taking]
  have hwrote : taking.step flushEvery ⟨.wrote (.ok ()) true, 0⟩ = some flushing := by
    simp [step, Applier.step, receivedBy, takenBy, outputBy, taking, flushing, Applier.count]
  have hflushed : flushing.step flushEvery ⟨.flushed (.ok ()), 0⟩ = some waiting := by
    simp [step, Applier.step, receivedBy, takenBy, outputBy, flushing, waiting,
      Applier.acknowledge, Applier.count]
  refine ⟨[⟨.received record, 0⟩, ⟨.wrote (.ok ()) true, 0⟩, ⟨.flushed (.ok ()), 0⟩], waiting, ?_,
    rfl, rfl⟩
  simp [run, hreceived, hwrote, hflushed]

/-- An applier that waits for a record can receive and write any records, and end well then. -/
theorem exists_run (hcontrol : w.applier.control = .receiving) (records : List Record) :
    ∃ moves w' n, w.run flushEvery moves = some w' ∧ w'.applier.result? = some (.ok n) ∧
      w'.received = w.received ++ records := by
  induction records generalizing w with
  | nil =>
      let ending : Writing := { w with applier := { w.applier with control := .flushing true } }
      have hended : w.step flushEvery ⟨.ended, 0⟩ = some ending := by
        simp [step, Applier.step, hcontrol, receivedBy, takenBy, outputBy, ending]
      have hflushed : ∃ w', ending.step flushEvery ⟨.flushed (.ok ()), 0⟩ = some w' ∧
          w'.applier.result? = some (.ok (w.applier.written + w.applier.unflushed)) ∧
          w'.received = w.received := by
        simp [step, Applier.step, receivedBy, ending, Applier.result?, Applier.acknowledge]
      obtain ⟨w', hstep, hresult, hreceived⟩ := hflushed
      refine ⟨[⟨.ended, 0⟩, ⟨.flushed (.ok ()), 0⟩], w', _, ?_, hresult, by simpa using hreceived⟩
      simp [run, hended, hstep]
  | cons record rest ih =>
      obtain ⟨moves, next, hrun, hwaits, hreceived⟩ := exists_run_record hcontrol record
      obtain ⟨more, w', n, hmore, hresult, hrest⟩ := ih hwaits
      refine ⟨moves ++ more, w', n, ?_, hresult, by simp [hrest, hreceived]⟩
      rw [run_append, hrun]
      exact hmore

/-- Any records whose values hold no floating-point numbers and that are not nested too deeply can
be written, and are read back from the output of any applier that has received them: at every moment
its lines are the records that it wrote, one for each and in order, and once it has ended well those
are all records and nothing is behind the last line. -/
theorem reads_back (flushEvery : Nat) (acknowledged : Position) (records : List Record)
    (hexact : ∀ record ∈ records,
      record.IsExact ∧ record.toJson.height ≤ Json.depthLimit) :
    (∃ moves w n, (start acknowledged).run flushEvery moves = some w ∧ w.received = records ∧
      w.applier.result? = some (.ok n)) ∧
    ∀ moves w, (start acknowledged).run flushEvery moves = some w → w.received = records →
      ∃ lines rest, w.output.splitOn lineEnd = lines ++ [rest] ∧
        lines.map Record.ofLine? = w.taken.map some ∧ w.taken <+: records ∧
        ∀ n, w.applier.result? = some (.ok n) →
          w.taken = records ∧ n = records.length ∧ rest = [] := by
  constructor
  · obtain ⟨moves, w, n, hrun, hresult, hreceived⟩ : ∃ moves w n,
        (start acknowledged).run flushEvery moves = some w ∧ w.applier.result? = some (.ok n) ∧
          w.received = (start acknowledged).received ++ records := exists_run rfl records
    exact ⟨moves, w, n, hrun, hreceived, hresult⟩
  · rintro moves w hrun rfl
    have horderly := (orderly_start acknowledged).run hrun
    obtain ⟨torn, houtput, htorn⟩ := horderly.output
    have htaken : ∀ record ∈ w.taken, record.IsExact ∧ record.toJson.height ≤ Json.depthLimit :=
      fun record hrecord => hexact record (horderly.taken.subset hrecord)
    have hrest : lineEnd ∉ torn := by
      rcases htorn with rfl | ⟨record, hrecord, hstart⟩
      · exact List.not_mem_nil
      · exact fun hmem => line_end_not_mem (hexact record hrecord).1 (hstart.subset hmem)
    refine ⟨w.taken.map bytesOf, torn, ?_, ?_, horderly.taken, fun n hresult => ?_⟩
    · rw [houtput]
      exact split_lines (fun record hrecord => line_end_not_mem (htaken record hrecord).1) hrest
    · rw [List.map_map]
      exact List.map_congr_left fun record hrecord =>
        of_line_bytes (htaken record hrecord).1 (htaken record hrecord).2
    · have hcontrol := control_of_result hresult
      obtain ⟨hwhole, hreceived, -⟩ := horderly.whole fun failure hfailed =>
        absurd (hcontrol.symm.trans hfailed) nofun
      have hall : w.received = w.taken := by simpa [hcontrol, inHand] using hreceived
      refine ⟨hall.symm, hall ▸ horderly.count n hcontrol, ?_⟩
      exact List.append_cancel_left ((houtput.symm.trans hwhole).trans (List.append_nil _).symm)

end Writing

end Applier

/-- An update with values of many kinds, and the transaction that it is part of: line breaks in texts
and in bytes, a document, arrays of arrays, a leap second, and years before 0 and behind 9999. -/
def Record.samples : List Record :=
  [.data {
      table := "public.item"
      operation := .update
      before := [⟨"id", .uuid ⟨0x6ba7b8109dad11d180b400c04fd430c8⟩, true⟩]
      after := [
        ⟨"note", .text "one\ntwo \"three\" \u2028\x00", false⟩,
        ⟨"price", .decimal "12.50" 10 2, false⟩,
        ⟨"raw", .bytes [0, 10, 255], false⟩,
        ⟨"parts", .array [.array [.varChar "\n" 3, .null] (.varChar 3), .unchanged]
          (.array (.varChar 3)), false⟩,
        ⟨"extra", .jsonb (.object [("a", .list [.null, .integer (-9223372036854775808)]),
          ("b", .object [("", .text "\r\n")])]), false⟩,
        ⟨"since", .date ⟨-43, 3, 15, by decide⟩, false⟩,
        ⟨"until", .zonedDateTime ⟨⟨12024, 12, 31, by decide⟩, ⟨23, 59, 60, 500000000, by decide⟩⟩,
          false⟩]
      uniqueKeys := ["id"]
      xid := some 18446744073709551615
      csn := none
      position := ⟨0x16B3748⟩ },
    .transaction ⟨some 18446744073709551615, none,
      some ⟨⟨1969, 7, 20, by decide⟩, ⟨20, 17, 40, 1, by decide⟩⟩, ⟨0x16B3800⟩⟩]

namespace Applier.Writing

/-- The records of an update are read back from the lines that were written for them. -/
theorem reads_back_samples :
    (∀ record ∈ Record.samples, record.IsExact ∧ record.toJson.height ≤ Json.depthLimit) ∧
      ∃ moves w lines, (start .zero).run 1000 moves = some w ∧ w.received = Record.samples ∧
        w.output.splitOn lineEnd = lines ++ [[]] ∧
        lines.map Record.ofLine? = Record.samples.map some := by
  have hexact : ∀ record ∈ Record.samples,
      record.IsExact ∧ record.toJson.height ≤ Json.depthLimit := by
    simp only [Record.samples, List.forall_mem_cons]
    have hcanonical (document : Json)
        (h : document = .object [("a", .list [.null, .integer (-9223372036854775808)]),
          ("b", .object [("", .text "\r\n")])]) : document.canonical? = some document := by
      rw [h]
      rfl
    refine ⟨⟨?_, ?_⟩, ⟨trivial, ?_⟩, fun _ h => absurd h List.not_mem_nil⟩
    · simp [Record.IsExact, Value.IsExact, Value.AreExact, Json.IsPlain, Json.ArePlain,
        Json.AreFieldsPlain, Json.IsWhole, hcanonical _ rfl]
    · simp [Record.toJson, DataRecord.fields, Column.toJson, Value.toJson, Value.toJsonList,
        Value.kindWith, Value.bareKind, ColumnType.toJson, Position.toJson, Json.ofOptional,
        wordJson, Json.height, Json.heightOfFields, Json.heightOfItems, Json.depthLimit]
    · simp [Record.toJson, TransactionRecord.fields, Position.toJson, Json.ofOptional, wordJson,
        Json.height, Json.heightOfFields, Json.depthLimit]
  obtain ⟨⟨moves, w, n, hrun, hreceived, hresult⟩, hall⟩ :=
    reads_back 1000 .zero Record.samples hexact
  obtain ⟨lines, rest, hsplit, hlines, -, hend⟩ := hall moves w hrun hreceived
  obtain ⟨htaken, -, rfl⟩ := hend n hresult
  exact ⟨hexact, moves, w, lines, hrun, hreceived, hsplit, htaken ▸ hlines⟩

end Applier.Writing

end ChangeFeed
