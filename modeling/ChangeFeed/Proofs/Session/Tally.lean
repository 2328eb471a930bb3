import ChangeFeed.Proofs.Position.Order
import ChangeFeed.Session.DeliveryLog

/-!
# What a log knows of delivered messages

A log keeps of the messages that it delivered one entry for every longest run of messages that
name the same transaction. `tally` computes the entries from the messages; delivering a message
extends it at the end (`deliver_tally`), and `tally_eq_cons` reads the first entry back: which
messages it stands for, and why the next one does not belong to it.
-/

namespace ChangeFeed.DeliveryLog

/-- Counts a message that precedes what is counted already. -/
def countBefore (message : Message) : List DeliveredTransaction → List DeliveredTransaction
  | [] => [⟨message.xid, message.position, 1⟩]
  | t :: ts =>
    if t.xid = message.xid then
      { t with last := max message.position t.last, messages := t.messages + 1 } :: ts
    else ⟨message.xid, message.position, 1⟩ :: t :: ts

/-- The entries of a log that has delivered messages. -/
def tally : List Message → List DeliveredTransaction
  | [] => []
  | message :: rest => countBefore message (tally rest)

/-- Messages leave at least one entry. -/
theorem eq_nil_of_tally_eq_nil {ms : List Message} (h : tally ms = []) : ms = [] := by
  cases ms with
  | nil => rfl
  | cons m rest =>
      rw [tally] at h
      unfold countBefore at h
      split at h
      · exact absurd h (List.cons_ne_nil _ _)
      · split at h <;> exact absurd h (List.cons_ne_nil _ _)

/-- Behind the last entry there is nothing to look at, so an earlier one stays as it is. -/
theorem deliver_cons (message : Message) (t u : DeliveredTransaction)
    (us : List DeliveredTransaction) :
    deliver message (t :: u :: us) = t :: deliver message (u :: us) := rfl

/-- It does not matter which end of the messages is counted first. -/
theorem deliver_count_before (m x : Message) (ts : List DeliveredTransaction) :
    deliver m (countBefore x ts) = countBefore x (deliver m ts) := by
  match ts with
  | [] =>
      by_cases hx : x.xid = m.xid
      · simp [countBefore, deliver, hx]
      · have hm : m.xid ≠ x.xid := fun h => hx h.symm
        simp [countBefore, deliver, hx, hm]
  | [t] =>
      by_cases hx : t.xid = x.xid
      · by_cases hm : t.xid = m.xid
        · simp only [countBefore, deliver, if_pos hx, if_pos hm, max_assoc]
        · simp only [countBefore, deliver, if_pos hx, if_neg hm]
      · by_cases hm : t.xid = m.xid
        · simp only [countBefore, deliver, if_neg hx, if_pos hm]
        · simp only [countBefore, deliver, if_neg hx, if_neg hm]
  | t :: u :: us =>
      rw [deliver_cons]
      by_cases hx : t.xid = x.xid
      · simp only [countBefore, if_pos hx, deliver_cons]
      · simp only [countBefore, if_neg hx, deliver_cons]

/-- Delivering a message counts it behind the messages before it. -/
theorem deliver_tally (ms : List Message) (m : Message) :
    deliver m (tally ms) = tally (ms ++ [m]) := by
  induction ms with
  | nil => rfl
  | cons x rest ih => rw [List.cons_append, tally, tally, deliver_count_before, ih]

/-- An entry stands for messages: they name its transaction, it counts them, and its end is the
greatest of their positions. -/
structure StandsFor (t : DeliveredTransaction) (run : List Message) : Prop where
  xid_eq : ∀ m ∈ run, m.xid = t.xid
  length_eq : run.length = t.messages
  position_le : ∀ m ∈ run, m.position ≤ t.last
  exists_last : ∃ m ∈ run, m.position = t.last

/-- An entry for one message. -/
theorem StandsFor.single (m : Message) : StandsFor ⟨m.xid, m.position, 1⟩ [m] where
  xid_eq _ hn := congrArg Message.xid (List.mem_singleton.mp hn)
  length_eq := rfl
  position_le _ hn := (congrArg Message.position (List.mem_singleton.mp hn)).le
  exists_last := ⟨m, List.mem_singleton_self m, rfl⟩

/-- An entry extended by a message before the others. -/
theorem StandsFor.cons {t : DeliveredTransaction} {run : List Message} (h : StandsFor t run)
    {m : Message} (hm : t.xid = m.xid) :
    StandsFor { t with last := max m.position t.last, messages := t.messages + 1 } (m :: run) where
  xid_eq := by
    intro n hn
    rcases List.mem_cons.mp hn with rfl | hn
    · exact hm.symm
    · exact h.xid_eq n hn
  length_eq := by simp [h.length_eq]
  position_le := by
    intro n hn
    rcases List.mem_cons.mp hn with rfl | hn
    · exact le_max_left _ _
    · exact (h.position_le n hn).trans (le_max_right _ _)
  exists_last := by
    obtain ⟨n, hn, hlast⟩ := h.exists_last
    rcases max_choice m.position t.last with hmax | hmax
    · exact ⟨m, List.mem_cons_self, hmax.symm⟩
    · exact ⟨n, List.mem_cons_of_mem _ hn, hlast.trans hmax.symm⟩

/-- An entry stands for at least one message. -/
theorem StandsFor.ne_nil {t : DeliveredTransaction} {run : List Message} (h : StandsFor t run) :
    run ≠ [] := by
  obtain ⟨m, hm, _⟩ := h.exists_last
  exact List.ne_nil_of_mem hm

/-- Whether messages go on with a transaction. -/
def GoesOn (xid : Option UInt64) (ms : List Message) : Prop :=
  ∃ m rest, ms = m :: rest ∧ m.xid = xid

/-- The first entry stands for the first messages, and the next message does not belong to it. -/
theorem tally_eq_cons {ms : List Message} {t : DeliveredTransaction}
    {ts : List DeliveredTransaction} (h : tally ms = t :: ts) :
    ∃ run rest, ms = run ++ rest ∧ StandsFor t run ∧ tally rest = ts ∧ ¬ GoesOn t.xid rest := by
  induction ms generalizing t ts with
  | nil => exact absurd h (List.cons_ne_nil t ts).symm
  | cons m rest ih =>
      rw [tally] at h
      cases hrest : tally rest with
      | nil =>
          have hnil : rest = [] := eq_nil_of_tally_eq_nil hrest
          rw [hrest] at h
          obtain ⟨rfl, rfl⟩ := List.cons.inj h
          refine ⟨[m], [], by rw [hnil]; rfl, .single m, rfl, ?_⟩
          rintro ⟨n, more, hmore, _⟩
          exact absurd hmore (List.cons_ne_nil n more).symm
      | cons u us =>
          obtain ⟨run, more, rfl, hrun, hmore, hstop⟩ := ih hrest
          rw [hrest, countBefore] at h
          split at h
          · rename_i hxid
            obtain ⟨rfl, rfl⟩ := List.cons.inj h
            exact ⟨m :: run, more, rfl, hrun.cons hxid, hmore, hstop⟩
          · -- The name changes here, so the message stands alone.
            rename_i hxid
            obtain ⟨rfl, rfl⟩ := List.cons.inj h
            refine ⟨[m], run ++ more, rfl, .single m, hrest, ?_⟩
            rintro ⟨n, tail, htail, hn⟩
            obtain ⟨first, others, rfl⟩ := List.exists_cons_of_ne_nil hrun.ne_nil
            obtain ⟨rfl, -⟩ := List.cons.inj htail
            exact hxid ((hrun.xid_eq _ List.mem_cons_self).symm.trans hn)

end ChangeFeed.DeliveryLog
