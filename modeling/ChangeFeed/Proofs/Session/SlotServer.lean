import ChangeFeed.Proofs.Except
import ChangeFeed.Proofs.Position.Order
import ChangeFeed.Proofs.Position.Text
import ChangeFeed.Session.Basic

/-!
# A server with one replication slot

What a session assumes of its server, as a server that can be run: a log of committed transactions
in the order of their commits, and a slot on it. A look at the changes gives whole transactions
from the slot on and stops with the first commit at or behind the limit; advancing the slot drops
what was committed up to there. Read `page_prefix` and `page_eq_of_short` first: they say what a
look that stops early leaves out.
-/

namespace ChangeFeed

/-- A message of the log: the beginning of a transaction, a change, or a commit. -/
structure LoggedMessage where
  position : Position
  data : Option String
  deriving DecidableEq

namespace LoggedMessage

/-- The message as a session reads it. -/
def toMessage (xid : Option String) (m : LoggedMessage) : Message where
  position := m.position
  xid := xid.bind fun text => (Number.readUInt64 text.toList).toOption
  data := Text.toUtf8 (m.data.getD "").toList

/-- The message as a row of an answer. -/
def toRow (xid : Option String) (m : LoggedMessage) : List Cell :=
  [.text m.position.write, xid.elim .null .text, m.data.elim .null .text]

/-- A session reads the message from its row. -/
theorem of_row_to_row (xid : Option String) (m : LoggedMessage) :
    Message.ofRow (m.toRow xid) = .ok (m.toMessage xid) := by
  have hread : Position.ofReply (some m.position.write) = .ok m.position := by
    simp [Position.ofReply]
  cases xid <;> cases hdata : m.data <;>
    simp [Message.ofRow, toRow, textAt, optionalTextAt, SessionTask.reading, hdata, hread,
      toMessage, bind, Except.bind, pure, Except.pure]

end LoggedMessage

/-- A committed transaction. Its commit is its last message, and none of its positions is behind
the commit. -/
structure LoggedTransaction where
  xid : Option String
  /-- What precedes the commit: the beginning and the changes. -/
  changes : List LoggedMessage
  commit : LoggedMessage
  changes_le : ∀ change ∈ changes, change.position ≤ commit.position

namespace LoggedTransaction

/-- The position of a transaction is that of its commit. -/
def position (t : LoggedTransaction) : Position :=
  t.commit.position

/-- All messages of a transaction in order. -/
def logged (t : LoggedTransaction) : List LoggedMessage :=
  t.changes ++ [t.commit]

/-- The messages of a transaction as a session reads them. -/
def messages (t : LoggedTransaction) : List Message :=
  t.logged.map (LoggedMessage.toMessage t.xid)

/-- The rows of a transaction in an answer. -/
def rows (t : LoggedTransaction) : List (List Cell) :=
  t.logged.map (LoggedMessage.toRow t.xid)

/-- The messages of transactions one after the other. -/
def messagesOf (ts : List LoggedTransaction) : List Message :=
  ts.flatMap messages

@[simp]
theorem messages_of_nil : messagesOf [] = [] := rfl

@[simp]
theorem messages_of_cons (t : LoggedTransaction) (ts : List LoggedTransaction) :
    messagesOf (t :: ts) = t.messages ++ messagesOf ts := rfl

@[simp]
theorem messages_of_append (ts us : List LoggedTransaction) :
    messagesOf (ts ++ us) = messagesOf ts ++ messagesOf us :=
  List.flatMap_append

/-- A prefix of transactions has a prefix of the messages. -/
theorem messages_of_prefix {ts us : List LoggedTransaction} (h : ts <+: us) :
    messagesOf ts <+: messagesOf us := by
  obtain ⟨rest, rfl⟩ := h
  rw [messages_of_append]
  exact List.prefix_append _ _

/-- A transaction has at least its commit. -/
theorem messages_ne_nil (t : LoggedTransaction) : t.messages ≠ [] := by
  simp [messages, logged]

/-- The messages of a transaction name the transaction alike. -/
theorem xid_of_mem_messages {t : LoggedTransaction} {m n : Message} (hm : m ∈ t.messages)
    (hn : n ∈ t.messages) : m.xid = n.xid := by
  obtain ⟨_, _, rfl⟩ := List.mem_map.mp hm
  obtain ⟨_, _, rfl⟩ := List.mem_map.mp hn
  rfl

/-- No message of a transaction is behind its commit. -/
theorem position_le_of_mem_messages {t : LoggedTransaction} {m : Message}
    (h : m ∈ t.messages) : m.position ≤ t.position := by
  obtain ⟨l, hl, rfl⟩ := List.mem_map.mp h
  rcases List.mem_append.mp hl with hl | hl
  · exact t.changes_le l hl
  · rw [List.mem_singleton.mp hl]
    exact le_refl t.position

/-- Some message of a transaction stands at its commit. -/
theorem exists_message_at_commit (t : LoggedTransaction) :
    ∃ m ∈ t.messages, m.position = t.position :=
  ⟨t.commit.toMessage t.xid, by simp [messages, logged], rfl⟩

end LoggedTransaction

open LoggedTransaction

/-- A server with one slot. -/
structure SlotServer where
  /-- The committed transactions in the order of their commits. -/
  committed : List LoggedTransaction
  /-- The position up to which the slot was advanced, if there is a slot. -/
  slot : Option Position
  /-- The plugin of the slot. -/
  plugin : Option String
  /-- Where a new slot starts. -/
  origin : Position
  ascending : committed.Pairwise fun s t => s.position < t.position

namespace SlotServer

/-- The transactions that were committed behind a position. -/
def past (s : SlotServer) (p : Position) : List LoggedTransaction :=
  s.committed.filter fun t => p < t.position

/-- The transactions that were committed behind a position and up to another. -/
def between (s : SlotServer) (p q : Position) : List LoggedTransaction :=
  s.committed.filter fun t => p < t.position ∧ t.position ≤ q

/-- The first transactions whose messages reach a limit; all of them if they do not. -/
def page (limit : Nat) : List LoggedTransaction → List LoggedTransaction
  | [] => []
  | t :: rest =>
    if limit ≤ t.messages.length then [t] else t :: page (limit - t.messages.length) rest

/-- How the server answers. -/
def answer : Server SlotServer
  | .findSlot _, s =>
    (.rows (s.slot.elim [] fun p => [[s.plugin.elim .null .text, .text p.write]]), s)
  | .createSlot _ plugin, s =>
    (.rows [[.text s.origin.write]], { s with slot := some s.origin, plugin := some plugin })
  | .advanceSlot _ position, s => (.rows [[.null]], { s with slot := some position })
  | .peekChanges _ limit _, s =>
    (.rows ((page limit (s.past (s.slot.getD s.origin))).flatMap rows), s)
  | .listColumns _, s => (.rows [], s)
  | .listPrimaryKeys _, s => (.rows [], s)

/-- The server after a transaction commits. A commit that is not behind all others does not
happen. -/
def commit (s : SlotServer) (t : LoggedTransaction) : SlotServer :=
  if h : ∀ c ∈ s.committed, c.position < t.position then
    { s with
      committed := s.committed ++ [t]
      ascending := List.pairwise_append.mpr ⟨s.ascending, List.pairwise_singleton _ _,
        fun c hc _ hd => List.mem_singleton.mp hd ▸ h c hc⟩ }
  else s

/-! ## Pages -/

/-- A page is made up of whole transactions from the first on. -/
theorem page_prefix (limit : Nat) (ts : List LoggedTransaction) : page limit ts <+: ts := by
  induction ts generalizing limit with
  | nil => exact List.nil_prefix
  | cons t rest ih =>
      rw [page]
      split
      · exact ⟨rest, rfl⟩
      · exact List.prefix_cons_inj t |>.mpr (ih _)

/-- A page that does not reach its limit holds everything. -/
theorem page_eq_of_short {limit : Nat} {ts : List LoggedTransaction}
    (h : (messagesOf (page limit ts)).length < limit) : page limit ts = ts := by
  induction ts generalizing limit with
  | nil => rfl
  | cons t rest ih =>
      rw [page] at h ⊢
      split at h
      · rename_i hlimit
        simp at h
        omega
      · rename_i hlimit
        rw [if_neg hlimit]
        simp only [messages_of_cons, List.length_append] at h
        rw [ih (by omega)]

/-- A session reads the messages of transactions from their rows. -/
theorem messages_of_rows (ts : List LoggedTransaction) :
    (ts.flatMap rows).mapM Message.ofRow = .ok (messagesOf ts) := by
  have hrows (xid : Option String) (ms : List LoggedMessage) :
      (ms.map (LoggedMessage.toRow xid)).mapM Message.ofRow =
        .ok (ms.map (LoggedMessage.toMessage xid)) := by
    induction ms with
    | nil => rfl
    | cons m rest ih =>
        simp only [List.map_cons, List.mapM_cons, LoggedMessage.of_row_to_row, ih]
        rfl
  induction ts with
  | nil => rfl
  | cons t rest ih =>
      simp only [List.flatMap_cons, List.mapM_append, rows, hrows, ih, messages_of_cons]
      rfl

/-! ## Transactions on both sides of a position -/

/-- The transactions of a server ascend behind every position. -/
theorem past_ascending (s : SlotServer) (p : Position) :
    (s.past p).Pairwise fun t u => t.position < u.position :=
  s.ascending.sublist List.filter_sublist

/-- A transaction is behind a position when its commit is. -/
theorem mem_past {s : SlotServer} {p : Position} {t : LoggedTransaction} :
    t ∈ s.past p ↔ t ∈ s.committed ∧ p < t.position := by
  simp [past]

/-- Two servers have the same log and the same origin. -/
def SameLog (s s' : SlotServer) : Prop :=
  s'.committed = s.committed ∧ s'.origin = s.origin

/-- What is behind a position depends on the log only. -/
theorem SameLog.past_eq {s s' : SlotServer} (h : s.SameLog s') (p : Position) :
    s'.past p = s.past p := by
  rw [past, past, h.1]

/-- What lies between two positions depends on the log only. -/
theorem SameLog.between_eq {s s' : SlotServer} (h : s.SameLog s') (p q : Position) :
    s'.between p q = s.between p q := by
  rw [between, between, h.1]

/-- A list that ascends is cut by a position into what is not behind it and what is. -/
theorem filter_split {ts : List LoggedTransaction}
    (h : ts.Pairwise fun t u => t.position < u.position) (q : Position) :
    ts.filter (fun t => t.position ≤ q) ++ ts.filter (fun t => q < t.position) = ts := by
  induction ts with
  | nil => rfl
  | cons t rest ih =>
      obtain ⟨hfirst, hrest⟩ := List.pairwise_cons.mp h
      by_cases ht : t.position ≤ q
      · have hbehind : ¬ q < t.position := not_lt.mpr ht
        simp [ht, hbehind, ih hrest]
      · have hbehind : q < t.position := not_le.mp ht
        have hnone : rest.filter (fun u => u.position ≤ q) = [] := by
          rw [List.filter_eq_nil_iff]
          intro u hu
          simpa using hbehind.trans (hfirst u hu)
        have hall : rest.filter (fun u => q < u.position) = rest := by
          rw [List.filter_eq_self]
          intro u hu
          simpa using hbehind.trans (hfirst u hu)
        simp [ht, hbehind, hnone, hall]

/-- What is behind a position is cut by a later position into two parts. -/
theorem between_append_past (s : SlotServer) {p q : Position} (h : p ≤ q) :
    s.between p q ++ s.past q = s.past p := by
  have hbetween : s.between p q = (s.past p).filter fun t => t.position ≤ q := by
    simp only [between, past, List.filter_filter]
    congr 1
    funext t
    simp [and_comm]
  have hpast : s.past q = (s.past p).filter fun t => q < t.position := by
    simp only [past, List.filter_filter]
    congr 1
    funext t
    have himp : q < t.position → p < t.position := fun ht => h.trans_lt ht
    by_cases ht : q < t.position
    · simp [ht, himp ht]
    · simp [ht]
  rw [hbetween, hpast]
  exact filter_split (s.past_ascending p) q

/-- What lies between two positions is cut by one in between. -/
theorem between_append_between (s : SlotServer) {p q r : Position} (h : p ≤ q) (h' : q ≤ r) :
    s.between p q ++ s.between q r = s.between p r := by
  have hwhole : (s.between p q ++ s.between q r) ++ s.past r = s.between p r ++ s.past r := by
    rw [List.append_assoc, s.between_append_past h', s.between_append_past h,
      s.between_append_past (h.trans h')]
  exact List.append_cancel_right hwhole

/-- Nothing lies between a position and itself. -/
@[simp]
theorem between_self (s : SlotServer) (p : Position) : s.between p p = [] := by
  rw [between, List.filter_eq_nil_iff]
  intro t _
  simp

/-! ## Commits -/

/-- A commit adds its transaction at the end, if it adds it at all. -/
theorem commit_cases (s : SlotServer) (t : LoggedTransaction) :
    (s.commit t).committed = s.committed ∨
      (s.commit t).committed = s.committed ++ [t] ∧ ∀ c ∈ s.committed, c.position < t.position := by
  unfold commit
  split
  · exact .inr ⟨rfl, ‹_›⟩
  · exact .inl rfl

/-- What has committed stays committed. -/
theorem mem_commit {s : SlotServer} {c : LoggedTransaction} (h : c ∈ s.committed)
    (t : LoggedTransaction) : c ∈ (s.commit t).committed := by
  rcases s.commit_cases t with hsame | ⟨hadded, -⟩
  · exact hsame ▸ h
  · exact hadded ▸ List.mem_append_left _ h

/-- What holds of all that has committed, and of a transaction, still holds when that commits. -/
theorem forall_commit {s : SlotServer} {t : LoggedTransaction} {P : LoggedTransaction → Prop}
    (h : ∀ c ∈ s.committed, P c) (ht : P t) : ∀ c ∈ (s.commit t).committed, P c := by
  intro c hc
  rcases s.commit_cases t with hsame | ⟨hadded, -⟩
  · exact h c (hsame ▸ hc)
  · rcases List.mem_append.mp (hadded ▸ hc) with hc | hc
    · exact h c hc
    · exact List.mem_singleton.mp hc ▸ ht

/-- A commit leaves the slot alone. -/
@[simp]
theorem commit_slot (s : SlotServer) (t : LoggedTransaction) : (s.commit t).slot = s.slot := by
  unfold commit
  split <;> rfl

/-- A commit does not change where a new slot starts. -/
@[simp]
theorem commit_origin (s : SlotServer) (t : LoggedTransaction) :
    (s.commit t).origin = s.origin := by
  unfold commit
  split <;> rfl

/-- What is behind a position stays there when another transaction commits. -/
theorem past_commit_prefix (s : SlotServer) (t : LoggedTransaction) (p : Position) :
    s.past p <+: (s.commit t).past p := by
  rcases s.commit_cases t with h | ⟨h, _⟩
  · simp [past, h]
  · simp [past, h]

/-- Another commit adds nothing between positions of which the later one was reached before. -/
theorem between_commit (s : SlotServer) (t : LoggedTransaction) {p q : Position}
    (h : q ≤ p ∨ ∃ c ∈ s.committed, q ≤ c.position) :
    (s.commit t).between p q = s.between p q := by
  rcases s.commit_cases t with hsame | ⟨hadded, hbehind⟩
  · simp [between, hsame]
  · have hout : ¬ (p < t.position ∧ t.position ≤ q) := by
      rintro ⟨hp, hq⟩
      rcases h with h | ⟨c, hc, h⟩
      · exact absurd (hp.trans_le hq) (not_lt.mpr h)
      · exact absurd (hbehind c hc) (not_lt.mpr (hq.trans h))
    simp [between, hadded, hout]

end SlotServer

end ChangeFeed
