import ChangeFeed.Proofs.Session.Tally
import Mathlib.Data.List.Chain
import Mathlib.Data.List.Forall2

/-!
# What a log keeps count of

A log takes pages, returns messages and releases transactions in any order, and nothing is said
about what the pages hold: they may repeat messages, lose some, or mix transactions. `Counts` is
the invariant that survives all this: the entries of the log are the tally of the messages that it
has returned last, and it has counted as many. `History.accounts_for_run` draws from it what a
user of the log relies on, and what a release does from there.
-/

namespace ChangeFeed.DeliveryLog

/-- The number of messages that entries count. -/
def counted : List DeliveredTransaction → Nat
  | [] => 0
  | t :: ts => t.messages + counted ts

@[simp]
theorem counted_nil : counted [] = 0 := rfl

@[simp]
theorem counted_cons (t : DeliveredTransaction) (ts : List DeliveredTransaction) :
    counted (t :: ts) = t.messages + counted ts := rfl

@[simp]
theorem counted_append (ts us : List DeliveredTransaction) :
    counted (ts ++ us) = counted ts + counted us := by
  induction ts with
  | nil => exact (Nat.zero_add _).symm
  | cons t ts ih => simp only [List.cons_append, counted_cons, ih, Nat.add_assoc]

/-! ## The next message -/

/-- The next message of a log is the first pending one, and it is then delivered. -/
theorem next_eq_some {log after : DeliveryLog} {message : Message}
    (h : log.next = some (message, after)) :
    ∃ pending, log.pending = message :: pending ∧
      after = ⟨pending, deliver message log.delivered, log.consumed + 1⟩ := by
  unfold next at h
  split at h
  · exact absurd h (by simp)
  · rename_i m pending hpending
    obtain ⟨rfl, rfl⟩ := Prod.mk.inj (Option.some.inj h)
    exact ⟨pending, hpending, rfl⟩

/-- A log has no next message exactly if none is pending. -/
theorem next_eq_none_iff {log : DeliveryLog} : log.next = none ↔ log.pending = [] := by
  unfold next
  split <;> simp [*]

/-! ## Tallies -/

/-- The entries of a tally stand for consecutive runs of the messages. -/
theorem exists_runs_of_tally {held : List Message} {entries : List DeliveredTransaction}
    (h : tally held = entries) :
    ∃ runs, List.Forall₂ StandsFor entries runs ∧ runs.flatten = held := by
  induction entries generalizing held with
  | nil => exact ⟨[], .nil, (eq_nil_of_tally_eq_nil h).symm⟩
  | cons t ts ih =>
      obtain ⟨run, rest, rfl, hrun, hrest, -⟩ := tally_eq_cons h
      obtain ⟨runs, hruns, rfl⟩ := ih hrest
      exact ⟨run :: runs, .cons hrun hruns, rfl⟩

/-- Neighbouring entries of a tally name different transactions. -/
theorem names_differ_of_tally {held : List Message} {entries : List DeliveredTransaction}
    (h : tally held = entries) : entries.IsChain fun t u => t.xid ≠ u.xid := by
  induction entries generalizing held with
  | nil => exact .nil
  | cons t ts ih =>
      obtain ⟨_, rest, rfl, -, hrest, hstop⟩ := tally_eq_cons h
      cases ts with
      | nil => exact .singleton t
      | cons u us =>
          refine .cons_cons ?_ (ih hrest)
          intro hsame
          -- The messages behind the first entry start with one that names the second.
          obtain ⟨run, later, rfl, hrun, -, -⟩ := tally_eq_cons hrest
          obtain ⟨m, others, rfl⟩ := List.exists_cons_of_ne_nil hrun.ne_nil
          exact hstop ⟨m, others ++ later, rfl,
            (hrun.xid_eq m List.mem_cons_self).trans hsame.symm⟩

/-- A tally counts every message. -/
theorem counted_of_runs {entries : List DeliveredTransaction} {runs : List (List Message)}
    (h : List.Forall₂ StandsFor entries runs) : counted entries = runs.flatten.length := by
  induction h with
  | nil => rfl
  | cons hrun _ ih => simp [ih, hrun.length_eq]

/-- Every entry of a tally counts a message. -/
theorem messages_pos_of_runs {entries : List DeliveredTransaction} {runs : List (List Message)}
    (h : List.Forall₂ StandsFor entries runs) : ∀ t ∈ entries, 0 < t.messages := by
  induction h with
  | nil => exact List.forall_mem_nil _
  | cons hrun _ ih =>
      exact List.forall_mem_cons.mpr ⟨hrun.length_eq ▸ List.length_pos_iff.mpr hrun.ne_nil, ih⟩

/-! ## Releases -/

/-- An only entry is not complete where the next pending message goes on with its transaction;
any other first entry is complete. -/
theorem is_first_complete_iff {pending : List Message} {t : DeliveredTransaction}
    {rest : List DeliveredTransaction} {consumed : Nat} :
    isFirstComplete ⟨pending, t :: rest, consumed⟩ = true ↔
      ¬ (rest = [] ∧ GoesOn t.xid pending) := by
  cases rest with
  | cons u us => simp [isFirstComplete]
  | nil =>
      cases pending with
      | nil => simp [isFirstComplete, GoesOn]
      | cons m pending => simp [isFirstComplete, GoesOn, ← ne_eq, ne_comm]

/-- The first entry, if it ends by a position, is the last one and its transaction is pending. -/
def StopsAt (position : Position) (log : DeliveryLog) : Prop :=
  ∀ t rest, log.delivered = t :: rest → t.last ≤ position → rest = [] ∧ GoesOn t.xid log.pending

/-- A release takes entries off the front of a log and says where the last of them ends. -/
structure Releases (position : Position) (log : DeliveryLog) (removed : List DeliveredTransaction)
    (released : Option Position) (after : DeliveryLog) : Prop where
  pending_eq : after.pending = log.pending
  delivered_eq : log.delivered = removed ++ after.delivered
  consumed_eq : after.consumed = log.consumed - counted removed
  last_le : ∀ t ∈ removed, t.last ≤ position
  released_eq : released = removed.getLast?.map DeliveredTransaction.last
  /-- The last entry stays while the next pending message goes on with its transaction. -/
  keeps_open : ∀ t, log.delivered.getLast? = some t → GoesOn t.xid log.pending →
    after.delivered.getLast? = some t
  /-- Nothing else that ends by the position stays at the front. -/
  stops : StopsAt position after

/-- Nothing is released where the first entry must stay or where there is none. -/
theorem releases_nothing {position : Position} {log : DeliveryLog} (h : StopsAt position log) :
    Releases position log [] none log where
  pending_eq := rfl
  delivered_eq := rfl
  consumed_eq := rfl
  last_le _ ht := absurd ht List.not_mem_nil
  released_eq := rfl
  keeps_open _ ht _ := ht
  stops := h

/-- Releasing entry by entry takes entries off the front. -/
theorem release_along_releases (position : Position) (pending : List Message)
    (delivered : List DeliveredTransaction) (consumed : Nat) (earlier : Option Position) :
    ∃ removed released, Releases position ⟨pending, delivered, consumed⟩ removed released
        (releaseAlong position pending delivered consumed earlier).1 ∧
      (releaseAlong position pending delivered consumed earlier).2 = released.or earlier := by
  induction delivered generalizing consumed earlier with
  | nil => exact ⟨[], none, releases_nothing nofun, rfl⟩
  | cons t rest ih =>
      rw [releaseAlong]
      split
      · rename_i hfirst
        obtain ⟨hle, hcomplete⟩ := hfirst
        obtain ⟨removed, released, h, heq⟩ := ih (consumed - t.messages) (some t.last)
        refine ⟨t :: removed, some (released.getD t.last), ?_, ?_⟩
        · exact {
            pending_eq := h.pending_eq
            delivered_eq := congrArg (t :: ·) h.delivered_eq
            consumed_eq := by rw [h.consumed_eq, Nat.sub_sub, counted_cons]
            last_le := List.forall_mem_cons.mpr ⟨hle, h.last_le⟩
            released_eq := by
              rw [h.released_eq, List.getLast?_cons]
              cases removed.getLast? <;> rfl
            keeps_open := by
              intro u hu hgoes
              cases rest with
              | nil =>
                  obtain rfl : t = u := by simpa using hu
                  exact absurd ⟨rfl, hgoes⟩ (is_first_complete_iff.mp hcomplete)
              | cons v vs => exact h.keeps_open u (by simpa using hu) hgoes
            stops := h.stops }
        · rw [heq]
          cases released <;> rfl
      · rename_i hstop
        refine ⟨[], none, releases_nothing ?_, rfl⟩
        intro u us hu hle
        obtain ⟨rfl, rfl⟩ := List.cons.inj hu
        by_contra hnot
        exact hstop ⟨hle, is_first_complete_iff.mpr hnot⟩

/-- A release takes entries off the front of any log. -/
theorem exists_releases (log : DeliveryLog) (position : Position) :
    ∃ removed, Releases position log removed (log.releaseThrough position).2
      (log.releaseThrough position).1 := by
  obtain ⟨removed, released, hreleases, heq⟩ :=
    release_along_releases position log.pending log.delivered log.consumed none
  have hreleased : (log.releaseThrough position).2 = released := by
    rw [releaseThrough, heq, Option.or_none]
  exact ⟨removed, hreleased ▸ hreleases⟩

/-- A release leaves a log alone where it stops at once. -/
theorem StopsAt.release_eq {position : Position} {log : DeliveryLog} (h : StopsAt position log) :
    log.releaseThrough position = (log, none) := by
  obtain ⟨pending, delivered, consumed⟩ := log
  cases delivered with
  | nil => rfl
  | cons t rest =>
      have hstop : ¬ (t.last ≤ position ∧ isFirstComplete ⟨pending, t :: rest, consumed⟩ = true) :=
        fun ⟨hle, hcomplete⟩ => is_first_complete_iff.mp hcomplete (h t rest rfl hle)
      exact if_neg hstop

/-! ## The invariant -/

/-- The entries of a log are the tally of the messages that it holds for returned, and it has
counted these. -/
structure Counts (held : List Message) (log : DeliveryLog) : Prop where
  delivered_eq : log.delivered = tally held
  consumed_eq : log.consumed = held.length

variable {held : List Message} {log : DeliveryLog}

/-- A log has counted as many messages as its entries. -/
theorem Counts.consumed_eq_counted (h : Counts held log) :
    log.consumed = counted log.delivered := by
  obtain ⟨runs, hruns, hheld⟩ := exists_runs_of_tally h.delivered_eq.symm
  rw [counted_of_runs hruns, hheld, h.consumed_eq]

/-- Taking a page, whatever it holds, does not change what was counted. -/
theorem Counts.accept_page (h : Counts held log) (page : List Message) :
    Counts held (log.acceptPage page) :=
  ⟨h.delivered_eq, h.consumed_eq⟩

/-- A message that is returned is counted. -/
theorem Counts.next {message : Message} {after : DeliveryLog} (h : Counts held log)
    (hnext : log.next = some (message, after)) : Counts (held ++ [message]) after := by
  obtain ⟨pending, -, rfl⟩ := next_eq_some hnext
  exact ⟨by rw [← deliver_tally, ← h.delivered_eq], by simp [← h.consumed_eq]⟩

/-- What is behind the first entries of a tally is the tally of the messages behind theirs. -/
theorem exists_suffix_of_tally {removed rest : List DeliveredTransaction}
    (h : tally held = removed ++ rest) :
    ∃ gone kept, held = gone ++ kept ∧ gone.length = counted removed ∧ tally kept = rest := by
  induction removed generalizing held with
  | nil => exact ⟨[], held, rfl, rfl, h⟩
  | cons t ts ih =>
      obtain ⟨run, later, rfl, hrun, hlater, -⟩ := tally_eq_cons h
      obtain ⟨gone, kept, rfl, hgone, hkept⟩ := ih hlater
      refine ⟨run ++ gone, kept, (List.append_assoc _ _ _).symm, ?_, hkept⟩
      rw [List.length_append, hgone, hrun.length_eq, counted_cons]

/-- A release of a log that counts takes no more off the count than it holds. -/
theorem Counts.counted_le {position : Position} {removed : List DeliveredTransaction}
    {released : Option Position} {after : DeliveryLog} (h : Counts held log)
    (hreleases : Releases position log removed released after) :
    counted removed ≤ log.consumed := by
  rw [h.consumed_eq_counted, hreleases.delivered_eq, counted_append]
  exact Nat.le_add_right _ _

/-- Behind a release the log still counts the messages that it holds. -/
theorem Counts.release {position : Position} {removed : List DeliveredTransaction}
    {released : Option Position} {after : DeliveryLog} (h : Counts held log)
    (hreleases : Releases position log removed released after) :
    ∃ gone kept, held = gone ++ kept ∧ gone.length = counted removed ∧ Counts kept after := by
  obtain ⟨gone, kept, rfl, hgone, hkept⟩ :=
    exists_suffix_of_tally (h.delivered_eq.symm.trans hreleases.delivered_eq)
  refine ⟨gone, kept, rfl, hgone, hkept.symm, ?_⟩
  rw [hreleases.consumed_eq, h.consumed_eq, List.length_append, hgone, Nat.add_sub_cancel_left]

/-! ## Histories -/

/-- What is done with a log. -/
inductive Use where
  /-- A page is taken. -/
  | page (messages : List Message)
  /-- The next message is returned. -/
  | next
  | release (position : Position)

/-- A log and the messages that it has returned. -/
structure History where
  log : DeliveryLog
  returned : List Message

namespace History

/-- A new log. -/
def start : History := ⟨.empty, []⟩

/-- One use of the log. -/
def step (h : History) : Use → History
  | .page messages => { h with log := h.log.acceptPage messages }
  | .next => h.log.next.elim h fun (message, log) => ⟨log, h.returned ++ [message]⟩
  | .release position => { h with log := (h.log.releaseThrough position).1 }

/-- The log after it was used. -/
def run (h : History) (uses : List Use) : History :=
  uses.foldl step h

/-- The log counts messages that it has returned last. -/
def IsCounting (h : History) : Prop :=
  ∃ held, held <:+ h.returned ∧ Counts held h.log

variable {h : History}

/-- Every use keeps the count. -/
theorem IsCounting.step (hcounting : h.IsCounting) (use : Use) : (h.step use).IsCounting := by
  obtain ⟨held, ⟨earlier, hreturned⟩, hcounts⟩ := hcounting
  cases use with
  | page messages => exact ⟨held, ⟨earlier, hreturned⟩, hcounts.accept_page messages⟩
  | next =>
      cases hnext : h.log.next with
      | none =>
          have hsame : h.step .next = h := by simp [History.step, hnext]
          rw [hsame]
          exact ⟨held, ⟨earlier, hreturned⟩, hcounts⟩
      | some found =>
          obtain ⟨message, after⟩ := found
          have hafter : h.step .next = ⟨after, h.returned ++ [message]⟩ := by
            simp [History.step, hnext]
          rw [hafter]
          refine ⟨held ++ [message], ⟨earlier, ?_⟩, hcounts.next hnext⟩
          rw [← List.append_assoc, hreturned]
  | release position =>
      obtain ⟨removed, hreleases⟩ := h.log.exists_releases position
      obtain ⟨gone, kept, rfl, -, hkept⟩ := hcounts.release hreleases
      refine ⟨kept, ⟨earlier ++ gone, ?_⟩, hkept⟩
      rw [List.append_assoc]
      exact hreturned

/-- Every sequence of uses keeps the count. -/
theorem IsCounting.run (hcounting : h.IsCounting) (uses : List Use) :
    (h.run uses).IsCounting := by
  induction uses generalizing h with
  | nil => exact hcounting
  | cons use rest ih => exact ih (hcounting.step use)

/-- What holds of a log, however it was used. -/
structure Accounts (h : History) : Prop where
  consumed_eq : h.log.consumed = counted h.log.delivered
  names_differ : h.log.delivered.IsChain fun t u => t.xid ≠ u.xid
  messages_pos : ∀ t ∈ h.log.delivered, 0 < t.messages
  /-- The entries stand for what was returned last: each for messages that name its transaction, as
  many as it counts, and ends at the greatest of their positions. -/
  stands_for : ∃ runs, List.Forall₂ StandsFor h.log.delivered runs ∧ runs.flatten <:+ h.returned
  /-- No release takes more messages off the count than it holds. -/
  releases : ∀ position, ∃ removed, counted removed ≤ h.log.consumed ∧
    Releases position h.log removed (h.log.releaseThrough position).2
      (h.log.releaseThrough position).1

/-- A log that counts accounts for what it has returned. -/
theorem IsCounting.accounts (hcounting : h.IsCounting) : h.Accounts := by
  obtain ⟨held, hreturned, hcounts⟩ := hcounting
  obtain ⟨runs, hruns, hheld⟩ := exists_runs_of_tally hcounts.delivered_eq.symm
  refine {
    consumed_eq := hcounts.consumed_eq_counted
    names_differ := names_differ_of_tally hcounts.delivered_eq.symm
    messages_pos := messages_pos_of_runs hruns
    stands_for := ⟨runs, hruns, hheld ▸ hreturned⟩
    releases := ?_ }
  intro position
  obtain ⟨removed, hreleases⟩ := h.log.exists_releases position
  exact ⟨removed, hcounts.counted_le hreleases, hreleases⟩

/-- Whatever pages a log takes, and in whatever order it returns messages and releases transactions,
its count is that of its entries, neighbouring entries name different transactions, and every entry
counts at least one message and ends at the greatest position of those that it stands for. A release
up to a position removes entries that end by there off the front, says where the last of them ends,
and goes on until an entry ends behind the position or is last and its transaction is pending. -/
theorem accounts_for_run (uses : List Use) : (start.run uses).Accounts :=
  IsCounting.accounts (IsCounting.run ⟨[], List.suffix_refl _, rfl, rfl⟩ uses)

end History

end ChangeFeed.DeliveryLog
