import ChangeFeed.Proofs.Applier.Course

/-!
# Which records an acknowledgement covers

The batches that an applier flushes follow from the arrivals alone (`batchesOf`). Of each batch
only the last record is offered for acknowledgement, so `Course.acknowledges_ends` gives the
position that is acknowledged in the end as the greatest of those, and says which records it covers:
all of them where positions do not decrease, but not where a record is written last in its batch
behind one with a greater position (`Course.leaves_greater`).
-/

namespace ChangeFeed.Applier

/-! ## Batches -/

/-- The batches into which arrivals fall behind the records of an open batch. A record closes its
batch if that is full then or the channel is empty; the end of the channel closes the last batch,
which may hold no record. -/
def batchesOf (flushEvery : Nat) (batch : List Record) : List (Record × Bool) → List (List Record)
  | [] => [batch]
  | (record, isDrained) :: rest =>
    if flushEvery ≤ batch.length + 1 ∨ isDrained then
      (batch ++ [record]) :: batchesOf flushEvery [] rest
    else batchesOf flushEvery (batch ++ [record]) rest

/-- The last records of batches. -/
def endsOf (batches : List (List Record)) : List Record :=
  batches.filterMap List.getLast?

/-- The greatest of a position and those of records. -/
def greatest (initial : Position) (records : List Record) : Position :=
  records.foldl (fun position record => max position record.position) initial

variable {flushEvery : Nat} {initial position : Position}

@[simp]
theorem ends_of_append (bs cs : List (List Record)) : endsOf (bs ++ cs) = endsOf bs ++ endsOf cs :=
  List.filterMap_append

@[simp]
theorem greatest_append (records more : List Record) :
    greatest initial (records ++ more) = greatest (greatest initial records) more :=
  List.foldl_append

/-- What the greatest position is not before. -/
theorem le_greatest_iff {records : List Record} :
    position ≤ greatest initial records ↔
      position ≤ initial ∨ ∃ record ∈ records, position ≤ record.position := by
  induction records generalizing initial with
  | nil => simp [greatest]
  | cons record rest ih =>
      have hstep : greatest initial (record :: rest) =
          greatest (max initial record.position) rest := rfl
      rw [hstep, ih, le_max_iff, List.exists_mem_cons_iff, or_assoc]

/-- Another batch adds the position of its last record, if it has one. -/
theorem greatest_concat (batches : List (List Record)) (batch : List Record) :
    greatest initial (endsOf (batches ++ [batch])) =
      batch.getLast?.elim (greatest initial (endsOf batches))
        fun record => max (greatest initial (endsOf batches)) record.position := by
  rw [ends_of_append, greatest_append]
  cases hlast : batch.getLast? <;> simp [endsOf, greatest, hlast]

/-- How the batches so far continue to those of all arrivals, for an applier that stands at a
control point. -/
def Continues (flushEvery : Nat) (arrivals : List (Record × Bool)) (b : Batches) : Control → Prop
  | .receiving | .writing _ => ∀ rest,
    batchesOf flushEvery [] (arrivals ++ rest) = b.flushed ++ batchesOf flushEvery b.waiting rest
  | .flushing false => ∀ rest,
    batchesOf flushEvery [] (arrivals ++ rest) =
      b.flushed ++ b.waiting :: batchesOf flushEvery [] rest
  | .flushing true => batchesOf flushEvery [] arrivals = b.flushed ++ [b.waiting]
  | .finished (.ok _) => batchesOf flushEvery [] arrivals = b.flushed
  | .finished (.error _) => True

/-- A record that is written closes its batch or leaves it open. -/
theorem Continues.wrote {arrivals : List (Record × Bool)} {b : Batches} {record : Record}
    (h : Continues flushEvery arrivals b (.writing record)) (isDrained : Bool) :
    Continues flushEvery (arrivals ++ [(record, isDrained)]) (b.add (.wrote record isDrained))
      (if flushEvery ≤ b.waiting.length + 1 ∨ isDrained then .flushing false else .receiving) := by
  have hnext (rest : List (Record × Bool)) :
      batchesOf flushEvery [] (arrivals ++ [(record, isDrained)] ++ rest) =
        b.flushed ++ batchesOf flushEvery b.waiting ((record, isDrained) :: rest) := by
    rw [List.append_assoc]
    exact h _
  split
  · rename_i hcloses
    intro rest
    rw [hnext, batchesOf, if_pos hcloses]
    rfl
  · rename_i hopen
    intro rest
    rw [hnext, batchesOf, if_neg hopen]
    rfl

/-- What holds of an applier that has made batches of arrivals. -/
structure IsBatched (flushEvery : Nat) (initial : Position) (a : Applier)
    (arrivals : List (Record × Bool)) (b : Batches) : Prop where
  unflushed : b.waiting.length = a.unflushed
  acknowledged : a.acknowledged = greatest initial (endsOf b.flushed)
  /-- The last of the records that wait is the last one written. -/
  waiting : ∀ record, b.waiting.getLast? = some record → a.last = some record.position
  /-- Where no record waits, the last one was offered for acknowledgement. -/
  offered : b.waiting = [] → ∀ position ∈ a.last, position ≤ a.acknowledged
  continues : Continues flushEvery arrivals b a.control

variable {a : Applier} {arrivals : List (Record × Bool)} {b : Batches}

/-- An applier that starts has no batches. -/
theorem is_batched_start (flushEvery : Nat) (initial : Position) :
    IsBatched flushEvery initial (.start initial) [] ⟨[], []⟩ where
  unflushed := rfl
  acknowledged := rfl
  waiting _ h := absurd h nofun
  offered _ _ h := absurd h nofun
  continues _ := rfl

/-- A record that is written waits in its batch. -/
theorem IsBatched.wrote (h : IsBatched flushEvery initial a arrivals b) {record : Record}
    (hcontrol : a.control = .writing record) (isDrained : Bool) :
    IsBatched flushEvery initial
      { a.count record with
        control := if flushEvery ≤ a.unflushed + 1 ∨ isDrained then .flushing false
          else .receiving }
      (arrivals ++ [(record, isDrained)]) (b.add (.wrote record isDrained)) where
  unflushed := by simp [Batches.add, count, h.unflushed]
  acknowledged := h.acknowledged
  waiting last hlast := by
    obtain rfl : record = last := by simpa [Batches.add] using hlast
    rfl
  offered hnone := absurd hnone (by simp [Batches.add])
  continues := by
    rw [← h.unflushed]
    exact (hcontrol ▸ h.continues).wrote isDrained

/-- A flush offers the last record that was written. -/
theorem last_le_acknowledge (a : Applier) :
    ∀ position ∈ a.last, position ≤ a.acknowledge.acknowledged := by
  intro position hposition
  have hlast : a.last = some position := hposition
  simp [acknowledge, hlast]

/-- A flush acknowledges the last record of its batch. -/
theorem IsBatched.acknowledge (h : IsBatched flushEvery initial a arrivals b) :
    a.acknowledge.acknowledged = greatest initial (endsOf (b.flushed ++ [b.waiting])) := by
  rw [greatest_concat, ← h.acknowledged]
  cases hlast : b.waiting.getLast? with
  | some record => simp [Applier.acknowledge, h.waiting record hlast]
  | none =>
      -- No record waits, so the last one is offered again.
      have hoffered := h.offered (List.getLast?_eq_none_iff.mp hlast)
      cases hposition : a.last with
      | none => simp [Applier.acknowledge, hposition]
      | some position => simpa [Applier.acknowledge, hposition] using hoffered

/-- A flush makes a batch of the records that wait. -/
theorem IsBatched.flushed (h : IsBatched flushEvery initial a arrivals b) {next : Control}
    (hcontinues : Continues flushEvery arrivals (b.add .flushed) next) :
    IsBatched flushEvery initial { a.acknowledge with control := next } arrivals
      (b.add .flushed) where
  unflushed := rfl
  acknowledged := h.acknowledge
  waiting _ hlast := absurd hlast nofun
  offered _ := last_le_acknowledge a
  continues := hcontinues

/-- An applier that writes and flushes nothing keeps its batches. -/
theorem IsBatched.silent (h : IsBatched flushEvery initial a arrivals b) {next : Control}
    (hcontinues : Continues flushEvery arrivals b next) :
    IsBatched flushEvery initial { a with control := next } arrivals b where
  unflushed := h.unflushed
  acknowledged := h.acknowledged
  waiting := h.waiting
  offered := h.offered
  continues := hcontinues

namespace Course

variable {c c' : Course} {move : Writing.Move}

/-- What a transition adds to the deeds of a course. -/
theorem deeds_of_step (h : c.step flushEvery move = some c') :
    c.writing.applier.step flushEvery move.event = some c'.writing.applier ∧
      arrivalsIn c'.deeds =
        arrivalsIn c.deeds ++ arrivalsIn (deedsBy c.writing.applier.control move.event) ∧
      Batches.ofDeeds c'.deeds =
        (deedsBy c.writing.applier.control move.event).foldl Batches.add
          (Batches.ofDeeds c.deeds) := by
  obtain ⟨writing, hwriting, rfl⟩ := Option.map_eq_some_iff.mp h
  obtain ⟨after, happlier, rfl⟩ := Option.map_eq_some_iff.mp hwriting
  refine ⟨happlier, by simp [arrivals_in_news], ?_⟩
  -- What is acknowledged belongs to no batch.
  unfold news Batches.ofDeeds
  split <;> simp [List.foldl_append, Batches.add]

/-- The applier of a course has made batches of its arrivals. -/
def MakesBatches (flushEvery : Nat) (initial : Position) (c : Course) : Prop :=
  IsBatched flushEvery initial c.writing.applier (arrivalsIn c.deeds) (Batches.ofDeeds c.deeds)

/-- Every transition keeps the batches. -/
theorem MakesBatches.step (h : c.MakesBatches flushEvery initial)
    (hstep : c.step flushEvery move = some c') : c'.MakesBatches flushEvery initial := by
  obtain ⟨happlier, harrivals, hbatches⟩ := deeds_of_step hstep
  rw [MakesBatches, harrivals, hbatches]
  have hmoves := moves_of_step happlier
  have hcontinues := h.continues
  obtain ⟨event, torn⟩ := move
  dsimp only at happlier hmoves ⊢
  generalize c'.writing.applier = after at happlier hmoves ⊢
  cases hmoves with
  | receives hcontrol =>
      rw [hcontrol] at hcontinues
      show IsBatched flushEvery initial _ (arrivalsIn c.deeds ++ []) (Batches.ofDeeds c.deeds)
      rw [List.append_nil]
      exact h.silent hcontinues
  | ends hcontrol =>
      rw [hcontrol] at hcontinues
      show IsBatched flushEvery initial _ (arrivalsIn c.deeds ++ []) (Batches.ofDeeds c.deeds)
      rw [List.append_nil]
      refine h.silent ?_
      simpa [Continues, batchesOf] using hcontinues []
  | @writes record isDrained next hcontrol hnext =>
      have hdeeds : deedsBy c.writing.applier.control (.wrote (.ok ()) isDrained) =
          [.wrote record isDrained] := by rw [hcontrol]; rfl
      have hafter := Option.some.inj
        (happlier.symm.trans (step_wrote hcontrol flushEvery isDrained))
      rw [hafter, hdeeds]
      exact h.wrote hcontrol isDrained
  | flushes hcontrol =>
      rw [hcontrol] at hcontinues
      show IsBatched flushEvery initial _ (arrivalsIn c.deeds ++ [])
        ((Batches.ofDeeds c.deeds).add .flushed)
      rw [List.append_nil]
      refine h.flushed ?_
      simpa [Continues, Batches.add] using hcontinues
  | flushesLast hcontrol =>
      rw [hcontrol] at hcontinues
      show IsBatched flushEvery initial _ (arrivalsIn c.deeds ++ [])
        ((Batches.ofDeeds c.deeds).add .flushed)
      rw [List.append_nil]
      exact h.flushed hcontinues
  | @fails event context fault hevent _ =>
      have hdeeds : deedsBy c.writing.applier.control event = [.failed] := by
        rcases hevent with ⟨_, rfl⟩ | rfl <;> rfl
      rw [hdeeds]
      show IsBatched flushEvery initial _ (arrivalsIn c.deeds ++ []) (Batches.ofDeeds c.deeds)
      rw [List.append_nil]
      exact h.silent trivial

/-- A course that has started makes batches. -/
theorem makes_batches_run {moves : List Writing.Move}
    (hrun : (start initial).run flushEvery moves = some c) :
    c.MakesBatches flushEvery initial := by
  have hstart : (start initial).MakesBatches flushEvery initial :=
    is_batched_start flushEvery initial
  exact run_keeps (fun _ _ _ h hstep => h.step hstep) hstart hrun

/-! ## The main result -/

/-- What holds of a course that has ended well: its batches are those of its arrivals, it has
acknowledged the greatest position of the last records of these, and that covers every record where
positions do not decrease. -/
structure AcknowledgesEnds (flushEvery : Nat) (initial : Position) (c : Course) : Prop where
  batches : (Batches.ofDeeds c.deeds).flushed = batchesOf flushEvery [] (arrivalsIn c.deeds)
  received : (batchesOf flushEvery [] (arrivalsIn c.deeds)).flatten = c.writing.received
  acknowledged : c.writing.applier.acknowledged =
    greatest initial (endsOf (batchesOf flushEvery [] (arrivalsIn c.deeds)))
  covers_iff : ∀ record ∈ c.writing.received,
    record.position ≤ c.writing.applier.acknowledged ↔ record.position ≤ initial ∨
      ∃ last ∈ endsOf (batchesOf flushEvery [] (arrivalsIn c.deeds)),
        record.position ≤ last.position
  covers_ascending :
    (c.writing.received.Pairwise fun earlier later => earlier.position ≤ later.position) →
      ∀ record ∈ c.writing.received, record.position ≤ c.writing.applier.acknowledged

/-- A list of records whose positions do not decrease ends with a greatest one. -/
theorem le_last_of_ascending {records : List Record} {last : Record}
    (h : records.Pairwise fun earlier later => earlier.position ≤ later.position)
    (hlast : records.getLast? = some last) :
    ∀ record ∈ records, record.position ≤ last.position := by
  obtain ⟨before, rfl⟩ := List.getLast?_eq_some_iff.mp hlast
  intro record hrecord
  rcases List.mem_append.mp hrecord with hrecord | hrecord
  · exact (List.pairwise_append.mp h).2.2 record hrecord last (List.mem_singleton_self last)
  · rw [List.mem_singleton.mp hrecord]

/-- A course that ends well acknowledges the ends of its batches. -/
theorem MakesBatches.ends_acknowledged (h : c.MakesBatches flushEvery initial)
    (haccounts : c.Accounts initial) {n : Nat}
    (hresult : c.writing.applier.result? = some (.ok n)) :
    c.AcknowledgesEnds flushEvery initial := by
  have hover := result_eq_some_iff.mp hresult
  have hbatches : batchesOf flushEvery [] (arrivalsIn c.deeds) =
      (Batches.ofDeeds c.deeds).flushed := by
    have hcontinues := h.continues
    rwa [hover] at hcontinues
  have hreceived := (haccounts.is_safe.whole n hresult).2.1
  have hacknowledged := h.acknowledged
  refine {
    batches := hbatches.symm
    received := hbatches ▸ hreceived
    acknowledged := hbatches ▸ hacknowledged
    covers_iff := ?_
    covers_ascending := ?_ }
  · intro record _
    rw [hacknowledged, hbatches, le_greatest_iff]
  · intro hascending record hrecord
    have hwritten : c.writing.received = writtenIn c.deeds := by
      rw [← hreceived, ← flushed_append_waiting, haccounts.flushed n hover, List.append_nil]
    cases hlast : c.writing.received.getLast? with
    | none => exact absurd hrecord (by simp [List.getLast?_eq_none_iff.mp hlast])
    | some last =>
        refine (le_last_of_ascending hascending hlast record hrecord).trans ?_
        refine h.offered (haccounts.flushed n hover) last.position ?_
        rw [haccounts.last, ← hwritten, hlast]
        rfl

/-- Any records can be written in any pattern of arrivals. Over every course that ends well, the
position that is acknowledged in the end is the greatest of the initial one and those of the records
that were written last before a flush, where a flush follows a record when enough are written since
the last one or the channel is empty, and the last flush follows the end of the channel. So it
covers a record exactly if one of these does, and every record if positions do not decrease. -/
theorem acknowledges_ends (flushEvery : Nat) (initial : Position) :
    (∀ arrivals, ∃ moves c, (start initial).run flushEvery moves = some c ∧
      arrivalsIn c.deeds = arrivals ∧
      c.writing.applier.result? = some (.ok arrivals.length)) ∧
    ∀ moves c n, (start initial).run flushEvery moves = some c →
      c.writing.applier.result? = some (.ok n) → c.AcknowledgesEnds flushEvery initial := by
  refine ⟨exists_course flushEvery initial, ?_⟩
  intro moves c n hrun hresult
  exact (makes_batches_run hrun).ends_acknowledged (accounts_run hrun) hresult

/-- An applier writes two records and ends well, and what it has acknowledged is before the first of
them: the second, which closes their batch, is before the first. -/
theorem leaves_greater :
    ∃ c, (start .zero).run defaultFlushEvery
        [⟨.received (.placeholder ⟨0x30⟩), 0⟩, ⟨.wrote (.ok ()) false, 0⟩,
          ⟨.received (.placeholder ⟨0x20⟩), 0⟩, ⟨.wrote (.ok ()) true, 0⟩, ⟨.flushed (.ok ()), 0⟩,
          ⟨.ended, 0⟩, ⟨.flushed (.ok ()), 0⟩] = some c ∧
      c.writing.applier.result? = some (.ok 2) ∧
      ∃ record ∈ writtenIn c.deeds, ¬ record.position ≤ c.writing.applier.acknowledged := by
  refine ⟨_, rfl, rfl, .placeholder ⟨0x30⟩, List.mem_cons_self, ?_⟩
  show ¬ (⟨0x30⟩ : Position) ≤ ⟨0x20⟩
  decide

end Course

end ChangeFeed.Applier
