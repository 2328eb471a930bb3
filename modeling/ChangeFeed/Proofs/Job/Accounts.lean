import ChangeFeed.Applier
import ChangeFeed.Proofs.Feed.Coverage
import ChangeFeed.Proofs.Feed.Trail

/-!
# The accounts of an applier

An applier knows a number of records and the position of the last one. What it does not know is
which records these are: those that are kept, because they were flushed, and those that wait for
the next flush. `Applier.Accounts` relates both to the trail of the feed, whose channel the applier
empties, and to the output. What the applier's acknowledgement is worth follows from them
(`Accounts.kept_up_to`): everything up to there is kept.
-/

namespace ChangeFeed

open LoggedTransaction

/-- A transaction was delivered: one of the runs has made records of it, and their lines are
flushed in order. -/
def LoggedTransaction.IsDelivered (runs : List FeedContext) (flushed : List String)
    (t : LoggedTransaction) : Prop :=
  ∃ c ∈ runs, ∃ records, t.IsConverted c records ∧
    (records.map Applier.lineOf).Sublist flushed

/-- What was delivered stays so, whatever is flushed later and whoever runs then. -/
theorem LoggedTransaction.IsDelivered.later {runs runs' : List FeedContext}
    {flushed flushed' : List String} {t : LoggedTransaction} (h : t.IsDelivered runs flushed)
    (hruns : runs ⊆ runs') (hflushed : flushed.Sublist flushed') :
    t.IsDelivered runs' flushed' := by
  obtain ⟨c, hc, records, hrecords, hlines⟩ := h
  exact ⟨c, hruns hc, records, hrecords, hlines.trans hflushed⟩

namespace Applier

/-- The record that an applier is about to write. -/
def inHand : Control → List Record
  | .writing record => [record]
  | _ => []

/-- The accounts of an applier that has started at a position: the records that are kept and those
that wait, in the order in which they left the channel. -/
structure Accounts (start : Position) (trail : List Happening) (pending flushed : List String)
    (kept waiting : List Record) (a : Applier) : Prop where
  kept_prefix : kept <+: Trail.pushed trail
  taken : a.isFinished = false → Trail.taken trail = kept ++ waiting ++ inHand a.control
  flushed : (kept.map lineOf).Sublist flushed
  pending : a.isFinished = false → (waiting.map lineOf).Sublist pending
  acknowledged : a.acknowledged = start ∨ ∃ r ∈ kept, r.position = a.acknowledged
  start_le : start ≤ a.acknowledged
  last : ∀ p, a.last = some p → ∃ r ∈ kept ++ waiting, r.position = p

variable {start : Position} {trail trail' : List Happening} {pending flushed : List String}
  {kept waiting : List Record} {a : Applier}

/-- An applier that starts has nothing to account for. -/
theorem accounts_start (start : Position) (pending flushed : List String) :
    Accounts start [] pending flushed [] [] (.start start) where
  kept_prefix := List.nil_prefix
  taken _ := rfl
  flushed := List.nil_sublist _
  pending _ := List.nil_sublist _
  acknowledged := .inl rfl
  start_le := le_refl _
  last _ h := absurd h (by simp [Applier.start])

/-- The accounts stay as they are while the feed goes on. -/
theorem Accounts.goes_on (h : Accounts start trail pending flushed kept waiting a)
    (trail' : List Happening) (hpushed : Trail.pushed trail <+: Trail.pushed trail')
    (htaken : Trail.taken trail' = Trail.taken trail) :
    Accounts start trail' pending flushed kept waiting a where
  kept_prefix := h.kept_prefix.trans hpushed
  taken hgoes := htaken.trans (h.taken hgoes)
  flushed := h.flushed
  pending := h.pending
  acknowledged := h.acknowledged
  start_le := h.start_le
  last := h.last

/-- The accounts of an applier that is over do not depend on the channel. -/
theorem Accounts.over {after : Applier} (h : Accounts start trail pending flushed kept waiting a)
    (hpushed : Trail.pushed trail' = Trail.pushed trail) (hover : after.isFinished = true)
    (hacknowledged : after.acknowledged = a.acknowledged) (hlast : after.last = a.last) :
    Accounts start trail' pending flushed kept waiting after where
  kept_prefix := hpushed ▸ h.kept_prefix
  taken hgoes := absurd (hover.symm.trans hgoes) (by simp)
  flushed := h.flushed
  pending hgoes := absurd (hover.symm.trans hgoes) (by simp)
  acknowledged := hacknowledged ▸ h.acknowledged
  start_le := hacknowledged ▸ h.start_le
  last := hlast ▸ h.last

/-- Receiving a record takes it in hand. -/
theorem Accounts.received {r : Record} (h : Accounts start trail pending flushed kept waiting a)
    (hcontrol : a.control = .receiving) :
    Accounts start (trail ++ [.received r]) pending flushed kept waiting
      { a with control := .writing r } where
  kept_prefix := by
    rw [Trail.pushed_append]
    exact h.kept_prefix.trans (List.prefix_append _ _)
  taken _ := by
    have hgoes : a.isFinished = false := by rw [isFinished, hcontrol]
    rw [Trail.taken_append, h.taken hgoes, hcontrol]
    simp [inHand, Trail.taken]
  flushed := h.flushed
  pending _ := h.pending (by rw [isFinished, hcontrol])
  acknowledged := h.acknowledged
  start_le := h.start_le
  last := h.last

/-- At the end of the channel nothing is in hand. -/
theorem Accounts.ended {isLast : Bool} (h : Accounts start trail pending flushed kept waiting a)
    (hcontrol : a.control = .receiving) :
    Accounts start trail pending flushed kept waiting { a with control := .flushing isLast } where
  kept_prefix := h.kept_prefix
  taken _ := by
    rw [h.taken (by rw [isFinished, hcontrol]), hcontrol]
    rfl
  flushed := h.flushed
  pending _ := h.pending (by rw [isFinished, hcontrol])
  acknowledged := h.acknowledged
  start_le := h.start_le
  last := h.last

/-- A record that was written waits for the next flush. -/
theorem Accounts.wrote {r : Record} {next : Control}
    (h : Accounts start trail pending flushed kept waiting a) (hcontrol : a.control = .writing r)
    (hnext : inHand next = []) :
    Accounts start trail (pending ++ [lineOf r]) flushed kept (waiting ++ [r])
      { a.count r with control := next } where
  kept_prefix := h.kept_prefix
  taken _ := by
    have hafter : kept ++ waiting ++ [r] = kept ++ (waiting ++ [r]) ++ inHand next := by
      rw [hnext, List.append_nil, List.append_assoc]
    rw [h.taken (by rw [isFinished, hcontrol]), hcontrol]
    exact hafter
  flushed := h.flushed
  pending _ := by
    rw [List.map_append]
    exact (h.pending (by rw [isFinished, hcontrol])).append (List.Sublist.refl _)
  acknowledged := h.acknowledged
  start_le := h.start_le
  last p hp := by
    obtain rfl : r.position = p := Option.some.inj hp
    exact ⟨r, by simp, rfl⟩

/-- Records that waited are kept after a flush. -/
theorem Accounts.flush {isLast : Bool} {next : Control}
    (h : Accounts start trail pending flushed kept waiting a)
    (hcontrol : a.control = .flushing isLast) (hnext : inHand next = [])
    (hpushed : Trail.taken trail <+: Trail.pushed trail) :
    Accounts start trail [] (flushed ++ pending) (kept ++ waiting) []
      { a.acknowledge with control := next } := by
  have hgoes : a.isFinished = false := by rw [isFinished, hcontrol]
  -- An applier that flushes has nothing in hand, so all that was taken is flushed now.
  have htaken : Trail.taken trail = kept ++ waiting := by
    rw [h.taken hgoes, hcontrol]
    simp [inHand]
  refine {
    kept_prefix := htaken ▸ hpushed
    taken := fun _ => by simp [htaken, hnext]
    flushed := ?_
    pending := fun _ => List.nil_sublist _
    acknowledged := ?_
    start_le := ?_
    last := fun p hp => by simpa using h.last p hp }
  · rw [List.map_append]
    exact h.flushed.append (h.pending hgoes)
  · have hkept : a.acknowledged = start ∨ ∃ r ∈ kept ++ waiting, r.position = a.acknowledged :=
      h.acknowledged.imp_right fun ⟨r, hr, hp⟩ => ⟨r, List.mem_append_left _ hr, hp⟩
    cases hlast : a.last with
    | none => simpa [acknowledge, hlast] using hkept
    | some p =>
        simp only [acknowledge, hlast, Option.elim_some]
        rcases max_choice a.acknowledged p with hmax | hmax
        · rw [hmax]
          exact hkept
        · rw [hmax]
          exact .inr (h.last p hlast)
  · cases hlast : a.last with
    | none => simpa [acknowledge, hlast] using h.start_le
    | some p => simpa [acknowledge, hlast] using .inl h.start_le

/-- Acknowledging never goes back. -/
theorem le_acknowledge (a : Applier) : a.acknowledged ≤ a.acknowledge.acknowledged := by
  cases hlast : a.last with
  | none => simp [acknowledge, hlast]
  | some p => simp [acknowledge, hlast]

/-- Everything up to the position that an applier acknowledges is among the records that are kept,
where the feed pushes in order, or was delivered before. -/
theorem Accounts.kept_up_to {server : SlotServer} {c : FeedContext}
    {delivered : LoggedTransaction → Prop} (h : Accounts start trail pending flushed kept waiting a)
    (horder : InOrder server c delivered (Trail.pushed trail))
    (hstart : server.UpTo delivered start) :
    server.UpTo (IsGiven c delivered kept) a.acknowledged := by
  rcases h.acknowledged with heq | ⟨r, hr, heq⟩
  · rw [heq]
    exact hstart.imp fun _ ht => .inl ht
  · rw [← heq]
    exact horder.up_to_of_mem h.kept_prefix hr

/-- What is among the records that are kept, or was delivered before, is delivered. -/
theorem Accounts.delivered_of_given {c : FeedContext} {runs : List FeedContext} {old : List String}
    {t : LoggedTransaction} (h : Accounts start trail pending flushed kept waiting a)
    (hc : c ∈ runs) (hold : old.Sublist flushed) (ht : t.IsGiven c (IsDelivered runs old) kept) :
    t.IsDelivered runs flushed := by
  rcases ht with ht | ⟨records, hrecords, hkept⟩
  · exact ht.later (List.Subset.refl _) hold
  · exact ⟨c, hc, records, hrecords, (hkept.map lineOf).trans h.flushed⟩

end Applier

end ChangeFeed
