import ChangeFeed.Proofs.Session.Bookkeeping
import ChangeFeed.Proofs.Session.SlotServer

/-!
# A log in step with its server

`Agrees` relates a delivery log to the slot that it is about. The messages that were returned are
those of the transactions that the slot has passed since a base, and then those that the log holds
for delivered; these and the pending ones are the messages of whole transactions at the head of
the slot. Delivering, taking a page and releasing keep it, and a release ends with a commit
(`Agrees.release`), because the name of a transaction changes only where another one starts.
-/

namespace ChangeFeed

open LoggedTransaction

/-- A change of name happens between transactions. -/
theorem LoggedTransaction.split_at_change {read : List LoggedTransaction} {run tail : List Message}
    {xid : Option UInt64} (h : messagesOf read = run ++ tail) (hrun : ∀ m ∈ run, m.xid = xid)
    (htail : ¬ DeliveryLog.GoesOn xid tail) :
    ∃ done todo, read = done ++ todo ∧ messagesOf done = run ∧ messagesOf todo = tail := by
  induction read generalizing run with
  | nil =>
      obtain ⟨rfl, rfl⟩ := List.append_eq_nil_iff.mp h.symm
      exact ⟨[], [], rfl, rfl, rfl⟩
  | cons t rest ih =>
      cases run with
      | nil => exact ⟨[], t :: rest, rfl, rfl, h⟩
      | cons m run =>
          rw [messages_of_cons] at h
          rcases List.append_eq_append_iff.mp h with ⟨more, hmore, hrest⟩ | ⟨more, hmore, hrest⟩
          · have hxid : ∀ n ∈ more, n.xid = xid := fun n hn =>
              hrun n (hmore ▸ List.mem_append_right _ hn)
            obtain ⟨done, todo, rfl, hdone, htodo⟩ := ih hrest hxid
            exact ⟨t :: done, todo, rfl, by rw [messages_of_cons, hdone, hmore], htodo⟩
          · cases more with
            | nil =>
                refine ⟨[t], rest, rfl, ?_, by simpa using hrest.symm⟩
                simpa using hmore
            | cons n more =>
                -- The run would end inside the transaction, whose next message has the same name.
                have hsame : n.xid = m.xid :=
                  xid_of_mem_messages (t := t) (by simp [hmore]) (by simp [hmore])
                exact absurd ⟨n, _, hrest, hsame.trans (hrun m List.mem_cons_self)⟩ htail

namespace SlotServer

/-- Where transactions at the head of the slot end, the transactions behind a position are cut
into them and the rest. -/
theorem cut_at_last (s : SlotServer) {p q : Position} {done todo : List LoggedTransaction}
    (h : s.past p = done ++ todo) {t : LoggedTransaction} (ht : t ∈ done) (hq : q = t.position)
    (hlast : ∀ u ∈ done, u.position ≤ q) :
    p < q ∧ s.between p q = done ∧ s.past q = todo := by
  have hpq : p < q := hq ▸ (mem_past.mp (h ▸ List.mem_append_left todo ht)).2
  have hsorted := s.past_ascending p
  rw [h] at hsorted
  have hpast : s.past q = todo := by
    have hcut : s.past q = (s.past p).filter fun u => q < u.position := by
      rw [← s.between_append_past hpq.le, List.filter_append]
      have hnone : (s.between p q).filter (fun u => q < u.position) = [] := by
        rw [List.filter_eq_nil_iff]
        intro u hu
        simp only [between, List.mem_filter, decide_eq_true_eq] at hu
        simpa using hu.2.2
      have hall : (s.past q).filter (fun u => q < u.position) = s.past q := by
        rw [List.filter_eq_self]
        intro u hu
        simpa using (mem_past.mp hu).2
      rw [hnone, hall, List.nil_append]
    have hdone : done.filter (fun u => q < u.position) = [] := by
      rw [List.filter_eq_nil_iff]
      intro u hu
      simpa using hlast u hu
    have htodo : todo.filter (fun u => q < u.position) = todo := by
      rw [List.filter_eq_self]
      intro u hu
      simpa [hq] using (List.pairwise_append.mp hsorted).2.2 t ht u hu
    rw [hcut, h, List.filter_append, hdone, htodo, List.nil_append]
  have hbetween : s.between p q ++ s.past q = done ++ todo :=
    (s.between_append_past hpq.le).trans h
  rw [hpast] at hbetween
  exact ⟨hpq, List.append_cancel_right hbetween, hpast⟩

end SlotServer

namespace DeliveryLog

/-- A log agrees with a slot at a position: since a base, the messages returned are those of the
transactions up to the slot and then those held for delivered. -/
structure Agrees (server : SlotServer) (base slot : Position) (returned held : List Message)
    (log : DeliveryLog) : Prop where
  /-- The slot has not moved or stands at a commit. -/
  slot_reached : base = slot ∨ base < slot ∧ ∃ t ∈ server.committed, t.position = slot
  /-- What is held and what is pending make up whole transactions at the head of the slot. -/
  read : ∃ read, read <+: server.past slot ∧ messagesOf read = held ++ log.pending
  delivered_eq : log.delivered = tally held
  consumed_eq : log.consumed = held.length
  returned_eq : returned = messagesOf (server.between base slot) ++ held

variable {server : SlotServer} {base slot : Position} {returned held : List Message}
  {log : DeliveryLog}

/-- A log that agrees with a slot counts the messages that it holds. -/
theorem Agrees.counts (h : Agrees server base slot returned held log) : Counts held log :=
  ⟨h.delivered_eq, h.consumed_eq⟩

/-- The slot is not behind the base. -/
theorem Agrees.base_le (h : Agrees server base slot returned held log) : base ≤ slot := by
  rcases h.slot_reached with h | h
  · exact h.le
  · exact h.1.le

/-- A new log agrees with a slot that stands at the base. -/
theorem Agrees.empty (server : SlotServer) (base : Position) :
    Agrees server base base [] [] .empty where
  slot_reached := .inl rfl
  read := ⟨[], List.nil_prefix, rfl⟩
  delivered_eq := rfl
  consumed_eq := rfl
  returned_eq := by simp

/-- The slot has not gone past every commit. -/
theorem Agrees.reached (h : Agrees server base slot returned held log) :
    slot ≤ base ∨ ∃ c ∈ server.committed, slot ≤ c.position :=
  h.slot_reached.imp (fun heq => heq.ge) fun ⟨_, c, hc, heq⟩ => ⟨c, hc, heq.ge⟩

/-- What was returned is a prefix of what is behind the base. -/
theorem Agrees.returned_prefix (h : Agrees server base slot returned held log) :
    returned <+: messagesOf (server.past base) := by
  obtain ⟨read, hread, hheld⟩ := h.read
  have hprefix : held <+: messagesOf (server.past slot) :=
    (List.prefix_append held log.pending).trans (hheld ▸ messages_of_prefix hread)
  rw [h.returned_eq, ← server.between_append_past h.base_le, messages_of_append]
  exact (List.prefix_append_right_inj _).mpr hprefix

/-- Delivering the next message returns it. -/
theorem Agrees.next {message : Message} {after : DeliveryLog}
    (h : Agrees server base slot returned held log) (hnext : log.next = some (message, after)) :
    Agrees server base slot (returned ++ [message]) (held ++ [message]) after := by
  obtain ⟨hdelivered, hconsumed⟩ := h.counts.next hnext
  obtain ⟨pending, hpending, rfl⟩ := next_eq_some hnext
  obtain ⟨read, hread, hheld⟩ := h.read
  exact {
    slot_reached := h.slot_reached
    read := ⟨read, hread, by simpa [hpending] using hheld⟩
    delivered_eq := hdelivered
    consumed_eq := hconsumed
    returned_eq := by rw [h.returned_eq, List.append_assoc] }

/-- A log without pending messages takes a page. -/
theorem Agrees.accept_page (h : Agrees server base slot returned held log)
    (hpending : log.pending = []) (limit : Nat) :
    Agrees server base slot returned held
      (log.acceptPage (messagesOf (SlotServer.page limit (server.past slot)))) := by
  obtain ⟨read, hread, hheld⟩ := h.read
  rw [hpending, List.append_nil] at hheld
  refine { h with read := ?_ }
  rcases List.prefix_or_prefix_of_prefix (SlotServer.page_prefix limit _) hread with hle | hle
  · -- The page holds nothing that was not delivered before.
    obtain ⟨rest, hrest⟩ := messages_of_prefix hle
    refine ⟨read, hread, ?_⟩
    have hlength : (messagesOf (SlotServer.page limit (server.past slot))).length ≤
        held.length := by
      rw [← hheld, ← hrest, List.length_append]
      omega
    simp only [acceptPage, hpending, List.length_nil, Nat.add_zero, h.consumed_eq,
      List.drop_eq_nil_of_le hlength, hheld, List.append_nil]
  · -- The page starts with what was delivered before, and the rest of it is new.
    obtain ⟨rest, hrest⟩ := messages_of_prefix hle
    refine ⟨_, SlotServer.page_prefix limit _, ?_⟩
    simp only [acceptPage, hpending, List.length_nil, Nat.add_zero, h.consumed_eq, ← hrest, hheld,
      List.drop_left, List.nil_append]

/-- A page that adds nothing and is longer than what was delivered shows that all was
returned. -/
theorem Agrees.returned_all (h : Agrees server base slot returned held log)
    (hpending : log.pending = []) {limit : Nat} (hlimit : log.consumed < limit)
    (hpage : (log.acceptPage
      (messagesOf (SlotServer.page limit (server.past slot)))).pending = []) :
    returned = messagesOf (server.past base) := by
  have hdrop : (messagesOf (SlotServer.page limit (server.past slot))).length ≤
      held.length := by
    simpa [acceptPage, hpending, h.consumed_eq] using hpage
  have hall : SlotServer.page limit (server.past slot) = server.past slot :=
    SlotServer.page_eq_of_short (by have := h.consumed_eq; omega)
  obtain ⟨read, hread, hheld⟩ := h.read
  rw [hpending, List.append_nil] at hheld
  have hprefix : held <+: messagesOf (server.past slot) := hheld ▸ messages_of_prefix hread
  have hheld' : held = messagesOf (server.past slot) :=
    hprefix.eq_of_length_le (by rw [← hall]; exact hdrop)
  rw [h.returned_eq, hheld', ← messages_of_append, server.between_append_past h.base_le]

/-- What follows a first entry that is complete belongs to another transaction. -/
theorem stops_of_complete {t : DeliveredTransaction} {rest : List DeliveredTransaction}
    {later pending : List Message} {consumed : Nat} (hlater : tally later = rest)
    (hstop : ¬ GoesOn t.xid later)
    (hcomplete : isFirstComplete ⟨pending, t :: rest, consumed⟩ = true) :
    ¬ GoesOn t.xid (later ++ pending) := by
  rintro ⟨m, more, hmore, hm⟩
  cases later with
  | nil =>
      -- The entry is the only one, so it is complete because of the pending message.
      obtain rfl : rest = [] := hlater.symm
      rw [List.nil_append] at hmore
      simp [isFirstComplete, hmore, hm] at hcomplete
  | cons n others =>
      obtain ⟨rfl, -⟩ := List.cons.inj hmore
      exact hstop ⟨n, others, rfl, hm⟩

/-- An entry that stands for whole transactions ends at the last of their commits. -/
theorem StandsFor.last_commit {t : DeliveredTransaction} {done : List LoggedTransaction}
    (h : StandsFor t (messagesOf done)) :
    (∃ d ∈ done, t.last = d.position) ∧ ∀ u ∈ done, u.position ≤ t.last := by
  have hbounded : ∀ u ∈ done, u.position ≤ t.last := by
    intro u hu
    obtain ⟨n, hn, hposition⟩ := u.exists_message_at_commit
    rw [← hposition]
    exact h.position_le n (List.mem_flatMap.mpr ⟨u, hu, hn⟩)
  obtain ⟨m, hm, hlast⟩ := h.exists_last
  obtain ⟨d, hd, hmd⟩ := List.mem_flatMap.mp hm
  refine ⟨⟨d, hd, le_antisymm ?_ (hbounded d hd)⟩, hbounded⟩
  rw [← hlast]
  exact position_le_of_mem_messages hmd

/-- Releasing the first entry, when it is complete, passes the transactions that it stands for. -/
theorem Agrees.release_first {pending : List Message} {t : DeliveredTransaction}
    {rest : List DeliveredTransaction} {consumed : Nat}
    (h : Agrees server base slot returned held ⟨pending, t :: rest, consumed⟩)
    (hcomplete : isFirstComplete ⟨pending, t :: rest, consumed⟩ = true) :
    slot < t.last ∧ ∃ later, Agrees server base t.last returned later
      ⟨pending, rest, consumed - t.messages⟩ := by
  obtain ⟨read, ⟨unread, hread⟩, hheld⟩ := h.read
  obtain ⟨run, later, rfl, hrun, hlater, hstop⟩ := tally_eq_cons h.delivered_eq.symm
  rw [List.append_assoc] at hheld
  obtain ⟨done, todo, rfl, rfl, htodo⟩ :=
    split_at_change hheld hrun.xid_eq (stops_of_complete hlater hstop hcomplete)
  rw [List.append_assoc] at hread
  obtain ⟨⟨d, hd, hend⟩, hbounded⟩ := hrun.last_commit
  obtain ⟨hmoved, hbetween, hpast⟩ := server.cut_at_last hread.symm hd hend hbounded
  have hcommitted : d ∈ server.committed :=
    (SlotServer.mem_past.mp (hread ▸ List.mem_append_left _ hd)).1
  refine ⟨hmoved, later, ?_⟩
  exact {
    slot_reached := .inr ⟨h.base_le.trans_lt hmoved, d, hcommitted, hend.symm⟩
    read := ⟨todo, ⟨unread, hpast.symm⟩, htodo⟩
    delivered_eq := hlater.symm
    consumed_eq := by
      have hcount := h.consumed_eq
      simp only [List.length_append, hrun.length_eq] at hcount
      simp [hcount]
    returned_eq := by
      rw [h.returned_eq, ← List.append_assoc, ← server.between_append_between h.base_le hmoved.le,
        messages_of_append, hbetween] }

/-- Releasing entry by entry goes on to a later commit that is not behind the given position, or
leaves everything as it is. -/
theorem Agrees.release_along {pending : List Message} {delivered : List DeliveredTransaction}
    {consumed : Nat} (h : Agrees server base slot returned held ⟨pending, delivered, consumed⟩)
    (p : Position) (released : Option Position) :
    releaseAlong p pending delivered consumed released =
        (⟨pending, delivered, consumed⟩, released) ∨
      ∃ last later, (releaseAlong p pending delivered consumed released).2 = some last ∧
        slot < last ∧ last ≤ p ∧ Agrees server base last returned later
          (releaseAlong p pending delivered consumed released).1 := by
  induction delivered generalizing slot held consumed released with
  | nil => exact .inl rfl
  | cons t rest ih =>
      rw [releaseAlong]
      split
      · rename_i hfirst
        obtain ⟨hmoved, later, hagrees⟩ := h.release_first hfirst.2
        rcases ih hagrees (some t.last) with hstop | ⟨last, more, hlast, hlt, hle, hmore⟩
        · rw [hstop]
          exact .inr ⟨t.last, later, rfl, hmoved, hfirst.1, hagrees⟩
        · exact .inr ⟨last, more, hlast, hmoved.trans hlt, hle, hmore⟩
      · exact .inl rfl

/-- A release goes to a later commit that is not behind the given position, or leaves the log
alone. -/
theorem Agrees.release (h : Agrees server base slot returned held log) (p : Position) :
    log.releaseThrough p = (log, none) ∨
      ∃ last later, (log.releaseThrough p).2 = some last ∧ slot < last ∧ last ≤ p ∧
        Agrees server base last returned later (log.releaseThrough p).1 :=
  h.release_along p none

/-- A log agrees with every server that has the same log of transactions. -/
theorem Agrees.same_log {server' : SlotServer} (h : Agrees server base slot returned held log)
    (hlog : server.SameLog server') : Agrees server' base slot returned held log where
  slot_reached := by
    rw [hlog.1]
    exact h.slot_reached
  read := by
    rw [hlog.past_eq]
    exact h.read
  delivered_eq := h.delivered_eq
  consumed_eq := h.consumed_eq
  returned_eq := by
    rw [hlog.between_eq]
    exact h.returned_eq

/-- Another commit at the server changes nothing for the log. -/
theorem Agrees.commit (h : Agrees server base slot returned held log) (t : LoggedTransaction) :
    Agrees (server.commit t) base slot returned held log := by
  obtain ⟨read, hread, hheld⟩ := h.read
  -- A slot that has moved stands at an old commit, and the new one is behind all of these.
  have hbetween : (server.commit t).between base slot = server.between base slot :=
    server.between_commit t h.reached
  refine { h with slot_reached := ?_, read := ?_, returned_eq := by rw [hbetween, h.returned_eq] }
  · exact h.slot_reached.imp_right fun ⟨hlt, c, hc, hposition⟩ =>
      ⟨hlt, c, SlotServer.mem_commit hc t, hposition⟩
  · exact ⟨read, hread.trans (server.past_commit_prefix t slot), hheld⟩

end DeliveryLog

end ChangeFeed
