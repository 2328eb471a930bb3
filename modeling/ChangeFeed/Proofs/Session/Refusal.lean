import ChangeFeed.Proofs.Session.Delivery
import ChangeFeed.Proofs.Session.Exchange

/-!
# What a failed call leaves behind

A poll asks the server before it touches the log of its session, and a confirm releases transactions
before it asks the server to advance the slot. So a poll that fails leaves the log as it was, and a
confirm that fails does not: the messages that it released are still behind the slot, and the
session returns them again (`Dialogue.polls_behind_failure`). Telling the session the same position
again does not help, for there is nothing left to release.
-/

namespace ChangeFeed

open LoggedTransaction

/-- A call of a session. -/
inductive SessionCall where
  | poll
  | confirm (position : Position)

namespace Session

variable {σ : Type} {server : Server σ} {s after : Session} {world world' : σ} {p : Position}

/-- A call fails and leaves a session and a world behind. -/
def Fails (server : Server σ) (s : Session) (world : σ) (fault : SessionFault) (after : Session)
    (world' : σ) : SessionCall → Prop
  | .poll => s.poll server world = (.error fault, after, world')
  | .confirm p => s.confirm server p world = (.error fault, after, world')

/-! ## Calls that fail -/

/-- How a poll goes: it hands out what is pending, or it fails and changes the connection only, or
it takes a page. -/
theorem poll_cases (server : Server σ) (s : Session) (world : σ) :
    (s.log.pending ≠ [] ∧ s.poll server world = (.ok s.handOut.1, s.handOut.2, world)) ∨
    s.log.pending = [] ∧
      ((∃ fault link world', s.poll server world = (.error fault, { s with link := link }, world') ∧
        (world' = world ∨ world' = (server (.peekChanges s.slot s.limit s.options) world).2)) ∨
      ∃ rows page world',
        server (.peekChanges s.slot s.limit s.options) world = (.rows rows, world') ∧
        rows.mapM Message.ofRow = .ok page ∧
        s.poll server world = (.ok { s with log := s.log.acceptPage page }.handOut.1,
          { s with log := s.log.acceptPage page }.handOut.2, world')) := by
  rcases s.hand_out_cases with ⟨message, log, hnext, hout⟩ | ⟨hpending, -⟩
  · refine .inl ⟨?_, by rw [poll_of_next server world hnext, hout]⟩
    intro hpending
    rw [DeliveryLog.next_eq_none_iff.mpr hpending] at hnext
    exact absurd hnext (Option.some_ne_none _).symm
  · refine .inr ⟨hpending, ?_⟩
    rcases Exchange.ask_cases server .peekChanges (.peekChanges s.slot s.limit s.options)
      (s.link, world) with
      ⟨fault, hask⟩ | ⟨hlive, reply, world', hreply, ⟨rows, rfl, hask⟩ | ⟨fault, link, hask⟩⟩
    · exact .inl ⟨fault, s.link, world, poll_of_fault hpending hask, .inl rfl⟩
    · cases hrows : rows.mapM Message.ofRow with
      | ok page =>
          exact .inr ⟨rows, page, world', hreply, hrows,
            poll_of_page hpending hlive hreply hrows⟩
      | error fault =>
          refine .inl ⟨fault, .live, world', ?_, .inr (by rw [hreply])⟩
          simp [poll, handOut, DeliveryLog.next_eq_none_iff.mpr hpending, hask, Except.bind, hrows]
    · exact .inl ⟨fault, link, world', poll_of_fault hpending hask, .inr (by rw [hreply])⟩

/-- A poll that fails changes the connection only. -/
theorem eq_of_failed_poll {fault : SessionFault}
    (h : s.poll server world = (.error fault, after, world')) :
    after = { s with link := after.link } := by
  rcases poll_cases server s world with
    ⟨-, heq⟩ | ⟨-, ⟨_, _, _, heq, -⟩ | ⟨_, _, _, -, -, heq⟩⟩ <;> rw [heq] at h <;> cases h
  rfl

/-- A confirm that fails has released a transaction. -/
theorem eq_of_failed_confirm {fault : SessionFault}
    (h : s.confirm server p world = (.error fault, after, world')) :
    after = { s with log := (s.log.releaseThrough p).1, link := after.link } ∧
      (s.log.releaseThrough p).2 ≠ none := by
  unfold confirm at h
  split at h
  · cases h
  · rename_i log last hrelease
    obtain rfl : _ = after := congrArg (fun answer => answer.2.1) h
    exact ⟨by rw [hrelease], by simp [hrelease]⟩

/-- How a call that fails leaves a session. -/
structure IsLeftBy (call : SessionCall) (before after : Session) : Prop where
  /-- At most the log and the connection change. -/
  eq : after = { before with log := after.log, link := after.link }
  log_eq_iff : after.log = before.log ↔ call = .poll
  /-- A confirm that fails has released at least one transaction. -/
  releases : ∀ p, call = .confirm p →
    ∃ removed released, removed ≠ [] ∧ DeliveryLog.Releases p before.log removed released after.log
  /-- To confirm the same position again asks nothing of a server and changes nothing. -/
  confirms_again : ∀ p, call = .confirm p → ∀ (τ : Type) (server : Server τ) (world : τ),
    after.confirm server p world = (.ok (), after, world)

/-- A call that fails leaves the log as it was if it is a poll, and only then. -/
theorem Fails.is_left_by {call : SessionCall} {fault : SessionFault}
    (h : s.Fails server world fault after world' call) : IsLeftBy call s after := by
  cases call with
  | poll =>
      have heq := eq_of_failed_poll h
      have hlog : after.log = s.log := by rw [heq]
      exact ⟨by rw [hlog, ← heq], iff_of_true hlog rfl, nofun, nofun⟩
  | confirm p =>
      obtain ⟨heq, hsome⟩ := eq_of_failed_confirm h
      have hlog : after.log = (s.log.releaseThrough p).1 := by rw [heq]
      obtain ⟨removed, hreleases⟩ := s.log.exists_releases p
      rw [← hlog] at hreleases heq
      have hremoved : removed ≠ [] := by
        rintro rfl
        exact hsome hreleases.released_eq
      refine ⟨heq, iff_of_false ?_ nofun, ?_, ?_⟩
      · intro hsame
        have hdelivered := hreleases.delivered_eq
        rw [hsame] at hdelivered
        exact hremoved (List.self_eq_append_left.mp hdelivered)
      · intro q hq
        obtain rfl := SessionCall.confirm.inj hq
        exact ⟨removed, _, hremoved, hreleases⟩
      · intro q hq τ server world
        obtain rfl := SessionCall.confirm.inj hq
        exact confirm_of_none server world hreleases.stops.release_eq

/-- Where a log counts, a call that fails takes messages off the count, and none exactly if it is a
poll. What is pending stays. -/
theorem IsLeftBy.exists_lost {call : SessionCall} (h : IsLeftBy call s after) {held : List Message}
    (hcounts : DeliveryLog.Counts held s.log) :
    after.log.pending = s.log.pending ∧
      ∃ lost, s.log.consumed = after.log.consumed + lost ∧ (lost = 0 ↔ call = .poll) := by
  cases call with
  | poll =>
      have hlog := h.log_eq_iff.mpr rfl
      exact ⟨by rw [hlog], 0, by rw [hlog, Nat.add_zero], iff_of_true rfl rfl⟩
  | confirm p =>
      obtain ⟨removed, released, hremoved, hreleases⟩ := h.releases p rfl
      have hle := hcounts.counted_le hreleases
      refine ⟨hreleases.pending_eq, DeliveryLog.counted removed, ?_, iff_of_false ?_ nofun⟩
      · rw [hreleases.consumed_eq]
        omega
      · obtain ⟨t, rest, rfl⟩ := List.exists_cons_of_ne_nil hremoved
        obtain ⟨runs, hruns, -⟩ := DeliveryLog.exists_runs_of_tally hcounts.delivered_eq.symm
        have hpos := DeliveryLog.messages_pos_of_runs hruns t
          (hreleases.delivered_eq ▸ List.mem_cons_self)
        rw [DeliveryLog.counted_cons]
        omega

end Session

/-! ## What is still to come -/

namespace DeliveryLog

/-- What a log is still to return, if the messages behind its slot are those of a stream. -/
def toCome (log : DeliveryLog) (stream : List Message) : List Message :=
  log.pending ++ stream.drop (log.consumed + log.pending.length)

variable {log after : DeliveryLog} {stream : List Message}

/-- The next message is the first that is to come. -/
theorem to_come_of_next {message : Message} (h : log.next = some (message, after))
    (stream : List Message) :
    log.toCome stream = message :: after.toCome stream ∧
      after.consumed + after.pending.length = log.consumed + log.pending.length := by
  obtain ⟨pending, hpending, rfl⟩ := next_eq_some h
  have hcount : log.consumed + 1 + pending.length = log.consumed + (pending.length + 1) := by omega
  simp only [toCome, hpending, List.cons_append, List.length_cons, hcount, and_self]

/-- A page with the first messages of the stream does not change what is to come. -/
theorem to_come_accept_page (log : DeliveryLog) {page : List Message} (h : page <+: stream) :
    (log.acceptPage page).toCome stream = log.toCome stream ∧
      (log.acceptPage page).consumed + (log.acceptPage page).pending.length =
        max (log.consumed + log.pending.length) page.length := by
  obtain ⟨more, rfl⟩ := h
  have hcount : (log.acceptPage page).consumed + (log.acceptPage page).pending.length =
      max (log.consumed + log.pending.length) page.length := by
    simp only [acceptPage, List.length_append, List.length_drop]
    omega
  refine ⟨?_, hcount⟩
  rw [toCome, hcount, toCome, acceptPage, List.append_assoc]
  congr 1
  rcases le_total page.length (log.consumed + log.pending.length) with hle | hle
  · rw [max_eq_left hle, List.drop_eq_nil_of_le hle, List.nil_append]
  · rw [max_eq_right hle, List.drop_append_of_le_length hle, List.drop_left]

/-- What is to come extends with the stream. -/
theorem to_come_append (h : log.consumed + log.pending.length ≤ stream.length)
    (more : List Message) : log.toCome (stream ++ more) = log.toCome stream ++ more := by
  rw [toCome, List.drop_append_of_le_length h, toCome, List.append_assoc]

/-- What is pending comes first; nothing is to come where it is missing and the stream has ended. -/
theorem head_to_come (h : log.pending = [] → stream.length ≤ log.consumed) :
    (log.toCome stream).head? = log.pending.head? := by
  cases hpending : log.pending with
  | nil => simp [toCome, hpending, List.drop_eq_nil_of_le (h hpending)]
  | cons m rest => simp [toCome, hpending]

end DeliveryLog

/-- A session hands out what is pending first. -/
theorem Session.hand_out_fst (s : Session) : s.handOut.1 = s.log.pending.head? := by
  rcases s.hand_out_cases with ⟨message, log, hnext, hout⟩ | ⟨hpending, hout⟩
  · obtain ⟨pending, hpending, -⟩ := DeliveryLog.next_eq_some hnext
    rw [hout, hpending, List.head?_cons]
  · rw [hout, hpending, List.head?_nil]

namespace Dialogue

/-! ## Dialogues behind a failure -/

/-- What a session in a dialogue is still to return while its slot stands where it is. -/
def toCome (d : Dialogue) (slot : Position) : List Message :=
  d.session.log.toCome (messagesOf (d.server.past slot))

/-- A session that had read messages behind its base goes on as if it had not returned the last of
them. -/
structure Resumes (base slot : Position) (pageSize : Nat) (read : List Message) (lost : Nat)
    (d : Dialogue) : Prop where
  slot_eq : d.server.slot = some slot
  page_size_eq : d.session.pageSize = pageSize
  base_le : base ≤ slot
  slot_reached : slot ≤ base ∨ ∃ c ∈ d.server.committed, slot ≤ c.position
  log_le : d.session.log.consumed + d.session.log.pending.length ≤
    (messagesOf (d.server.past slot)).length
  read_prefix : read <+: messagesOf (d.server.past base)
  returned_eq : d.returned ++ d.toCome slot =
    read ++ (messagesOf (d.server.past base)).drop (read.length - lost)

variable {base slot : Position} {pageSize : Nat} {read : List Message} {lost : Nat} {d : Dialogue}

/-- Handing out the next message returns the first that is to come. -/
theorem Resumes.hand_out {server : SlotServer} {session : Session} {returned : List Message}
    (h : Resumes base slot pageSize read lost ⟨server, session, returned⟩) :
    Resumes base slot pageSize read lost
      ⟨server, session.handOut.2, returned ++ session.handOut.1.toList⟩ := by
  rcases session.hand_out_cases with ⟨message, log, hnext, hout⟩ | ⟨-, hout⟩
  · obtain ⟨hcome, hcount⟩ := DeliveryLog.to_come_of_next hnext (messagesOf (server.past slot))
    rw [hout]
    refine { h with log_le := hcount.trans_le h.log_le, returned_eq := ?_ }
    rw [← h.returned_eq, toCome, toCome, hcome, List.append_assoc]
    rfl
  · rw [hout]
    simpa using h

/-- A server that is looked at stays as it is, and if it answers it shows first messages of a
stream. -/
structure Shows (answer : Server SlotServer) (server : SlotServer) (stream : List Message) :
    Prop where
  world_eq : ∀ name limit options, (answer (.peekChanges name limit options) server).2 = server
  page_prefix : ∀ name limit options rows page,
    (answer (.peekChanges name limit options) server).1 = .rows rows →
      rows.mapM Message.ofRow = .ok page → page <+: stream

/-- A server shows the messages behind its slot. -/
theorem shows_answer {server : SlotServer} (hslot : server.slot = some slot) :
    Shows SlotServer.answer server (messagesOf (server.past slot)) where
  world_eq _ _ _ := rfl
  page_prefix name limit options rows page hrows hpage := by
    obtain rfl : (SlotServer.page limit (server.past slot)).flatMap LoggedTransaction.rows =
        rows := by
      simpa [SlotServer.answer, hslot] using hrows
    rw [SlotServer.messages_of_rows] at hpage
    obtain rfl := Except.ok.inj hpage
    exact messages_of_prefix (SlotServer.page_prefix _ _)

/-- A server that refuses to answer shows nothing. -/
theorem shows_refuse (code message : String) (server : SlotServer) (stream : List Message) :
    Shows (SlotServer.refuse code message) server stream where
  world_eq _ _ _ := rfl
  page_prefix _ _ _ _ _ hrows _ := absurd hrows nofun

/-- Polls do not change how a session goes on. -/
theorem Resumes.poll_with (h : d.Resumes base slot pageSize read lost)
    {answer : Server SlotServer}
    (hshows : Shows answer d.server (messagesOf (d.server.past slot))) :
    (d.pollWith answer).2.Resumes base slot pageSize read lost := by
  rcases d.session.poll_cases answer d.server with
    ⟨-, hpoll⟩ | ⟨-, ⟨_, link, world, hpoll, hworld⟩ | ⟨_, page, world, hreply, hrows, hpoll⟩⟩
  · have hafter : (d.pollWith answer).2 =
        ⟨d.server, d.session.handOut.2, d.returned ++ d.session.handOut.1.toList⟩ := by
      simp [pollWith, hpoll, Except.toOption]
    rw [hafter]
    exact h.hand_out
  · have hsame : world = d.server := hworld.elim id fun heq => heq.trans (hshows.world_eq _ _ _)
    have hafter : (d.pollWith answer).2 =
        ⟨d.server, { d.session with link := link }, d.returned⟩ := by
      simp [pollWith, hpoll, hsame, Except.toOption]
    rw [hafter]
    exact { h with }
  · have hsame : world = d.server :=
      (congrArg Prod.snd hreply).symm.trans (hshows.world_eq _ _ _)
    have hprefix := hshows.page_prefix _ _ _ _ _ (congrArg Prod.fst hreply) hrows
    obtain ⟨hcome, hcount⟩ := d.session.log.to_come_accept_page hprefix
    have htaken : Resumes base slot pageSize read lost
        ⟨d.server, { d.session with log := d.session.log.acceptPage page }, d.returned⟩ :=
      { h with
        log_le := hcount.trans_le (max_le h.log_le hprefix.length_le)
        returned_eq := by rw [← h.returned_eq, toCome, toCome, hcome] }
    have hafter := htaken.hand_out
    simpa [pollWith, hpoll, hsame, Except.toOption] using hafter

/-- Another commit comes behind all that is to come. -/
theorem Resumes.commit (h : d.Resumes base slot pageSize read lost) (t : LoggedTransaction) :
    (d.step (.commit t)).Resumes base slot pageSize read lost := by
  obtain ⟨new, hslot⟩ := d.server.past_commit_prefix t slot
  have hbase : (d.server.commit t).past base = d.server.past base ++ new := by
    rw [← SlotServer.between_append_past _ h.base_le, d.server.between_commit t h.slot_reached,
      ← hslot, ← List.append_assoc, d.server.between_append_past h.base_le]
  have hlength : read.length - lost ≤ (messagesOf (d.server.past base)).length :=
    (Nat.sub_le _ _).trans h.read_prefix.length_le
  exact {
    slot_eq := (d.server.commit_slot t).trans h.slot_eq
    page_size_eq := h.page_size_eq
    base_le := h.base_le
    slot_reached := h.slot_reached.imp_right fun ⟨c, hc, hle⟩ =>
      ⟨c, SlotServer.mem_commit hc t, hle⟩
    log_le := by
      refine h.log_le.trans ?_
      show _ ≤ (messagesOf ((d.server.commit t).past slot)).length
      rw [← hslot, messages_of_append, List.length_append]
      exact Nat.le_add_right _ _
    read_prefix := by
      show read <+: messagesOf ((d.server.commit t).past base)
      rw [hbase, messages_of_append]
      exact h.read_prefix.trans (List.prefix_append _ _)
    returned_eq := by
      show d.returned ++ d.session.log.toCome (messagesOf ((d.server.commit t).past slot)) =
        read ++ (messagesOf ((d.server.commit t).past base)).drop (read.length - lost)
      rw [← hslot, hbase, messages_of_append, messages_of_append,
        DeliveryLog.to_come_append h.log_le, List.drop_append_of_le_length hlength,
        ← List.append_assoc, ← List.append_assoc, ← h.returned_eq, toCome] }

/-- Every move but a confirm leaves it at how a session goes on. -/
theorem Resumes.step (h : d.Resumes base slot pageSize read lost) {move : DialogueMove}
    (hmove : ∀ p, move ≠ .confirm p) : (d.step move).Resumes base slot pageSize read lost := by
  cases move with
  | poll => exact h.poll_with (shows_answer h.slot_eq)
  | pollRefused code message => exact h.poll_with (shows_refuse code message _ _)
  | confirm p => exact absurd rfl (hmove p)
  | commit t => exact h.commit t

/-- So does every sequence of such moves. -/
theorem Resumes.run (h : d.Resumes base slot pageSize read lost) {moves : List DialogueMove}
    (hmoves : ∀ p, .confirm p ∉ moves) : (d.run moves).Resumes base slot pageSize read lost := by
  induction moves generalizing d with
  | nil => exact h
  | cons move rest ih =>
      refine ih (h.step fun p hp => ?_) fun p hp => hmoves p (List.mem_cons_of_mem move hp)
      exact hmoves p (hp ▸ List.mem_cons_self)

/-- A poll over a live connection returns the first message that is to come, or nothing if there is
none, unless its page is cut short by the greatest limit. -/
theorem Resumes.poll_ok (h : d.Resumes base slot pageSize read lost) (hsize : 0 < pageSize)
    (hlink : d.session.link = .live)
    (hfits : d.session.log.consumed + pageSize ≤ Session.greatestLimit) :
    d.poll.1 = .ok (d.toCome slot).head? := by
  rcases poll_cases_of_live hlink h.slot_eq with ⟨hpending, hpoll⟩ | ⟨hpending, hpoll⟩
  · rw [hpoll, Session.hand_out_fst, toCome,
      DeliveryLog.head_to_come fun hnone => absurd hnone hpending]
  · have hprefix : d.nextPage slot <+: messagesOf (d.server.past slot) :=
      messages_of_prefix (SlotServer.page_prefix _ _)
    obtain ⟨hcome, hcount⟩ := d.session.log.to_come_accept_page hprefix
    rw [hpoll, Session.hand_out_fst, toCome, ← hcome, DeliveryLog.head_to_come]
    · rfl
    · -- A page that adds nothing has not reached its limit, so the server has nothing more.
      intro hnone
      have hle : (d.nextPage slot).length ≤ d.session.log.consumed := by
        have hsame : (d.session.log.acceptPage (d.nextPage slot)).consumed =
            d.session.log.consumed := rfl
        rw [hnone, hpending, hsame, List.length_nil] at hcount
        omega
      have hlimit : d.session.log.consumed < d.session.limit :=
        Session.consumed_lt_limit (h.page_size_eq ▸ hsize) (h.page_size_eq ▸ hfits)
      have hall := SlotServer.page_eq_of_short (hle.trans_lt hlimit)
      rw [nextPage, hall] at hle
      exact hle

/-- A session in step with its server that loses messages from its count, and nothing else, goes on
as if it had not returned the last ones. -/
theorem InStep.resumes (h : d.InStep base pageSize) {after : Session}
    (hsize : after.pageSize = d.session.pageSize)
    (hpending : after.log.pending = d.session.log.pending)
    (hlost : d.session.log.consumed = after.log.consumed + lost) :
    ∃ slot, Resumes base slot pageSize (d.returned ++ d.session.log.pending) lost
      ⟨d.server, after, d.returned⟩ := by
  obtain ⟨slot, held, hslot, hagrees⟩ := h.agrees
  obtain ⟨taken, ⟨unread, hunread⟩, hheld⟩ := hagrees.read
  -- The messages behind the slot are those held, those pending, and others.
  have hstream : messagesOf (d.server.past slot) =
      held ++ d.session.log.pending ++ messagesOf unread := by
    rw [← hunread, messages_of_append, hheld]
  have hbase : messagesOf (d.server.past base) = d.returned ++ d.session.log.pending ++
      messagesOf unread := by
    rw [← d.server.between_append_past hagrees.base_le, messages_of_append, hstream,
      hagrees.returned_eq]
    simp only [List.append_assoc]
  have hcount : after.log.consumed + lost = held.length :=
    hlost.symm.trans hagrees.consumed_eq
  refine ⟨slot, ?_⟩
  exact {
    slot_eq := hslot
    page_size_eq := hsize.trans h.page_size_eq
    base_le := hagrees.base_le
    slot_reached := hagrees.reached
    log_le := by
      simp only [hpending, hstream, List.length_append]
      omega
    read_prefix := hbase ▸ List.prefix_append _ _
    returned_eq := by
      have hskip : (d.returned ++ d.session.log.pending).length - lost =
          (messagesOf (d.server.between base slot)).length +
            (after.log.consumed + d.session.log.pending.length) := by
        simp only [List.length_append, hagrees.returned_eq]
        omega
      rw [hskip, ← d.server.between_append_past hagrees.base_le, messages_of_append,
        List.drop_length_add_append, List.append_assoc, toCome, DeliveryLog.toCome, hpending] }

/-! ## The main result -/

/-- A call fails and leaves the server as it was. -/
def FailsTo (d : Dialogue) (call : SessionCall) (after : Dialogue) : Prop :=
  ∃ answer fault, d.session.Fails answer d.server fault after.session d.server call ∧
    after = { d with session := after.session }

/-- What a session returns that had read messages behind its base and has lost some of them from its
count. -/
structure ReturnsAgain (base : Position) (pageSize : Nat) (read : List Message) (lost : Nat)
    (d : Dialogue) : Prop where
  read_prefix : read <+: messagesOf (d.server.past base)
  /-- Behind what was read it goes on with the last of that, as much as was lost. -/
  returned : ∃ rest, d.returned ++ rest =
      read ++ (messagesOf (d.server.past base)).drop (read.length - lost) ∧
    (d.session.link = .live → d.session.log.consumed + pageSize ≤ Session.greatestLimit →
      d.poll.1 = .ok rest.head?)
  /-- So every message is returned once if nothing was lost, and otherwise not. -/
  once_iff : read ++ (messagesOf (d.server.past base)).drop (read.length - lost) =
    messagesOf (d.server.past base) ↔ lost = 0

/-- A session that resumes returns again what it has lost. -/
theorem Resumes.returns_again (h : d.Resumes base slot pageSize read lost) (hsize : 0 < pageSize)
    (hlost : lost ≤ read.length) : d.ReturnsAgain base pageSize read lost where
  read_prefix := h.read_prefix
  returned := ⟨d.toCome slot, h.returned_eq, h.poll_ok hsize⟩
  once_iff := by
    obtain ⟨more, hmore⟩ := h.read_prefix
    rw [← hmore]
    constructor
    · intro hsame
      have hlength := congrArg List.length hsame
      simp only [List.length_append, List.length_drop] at hlength
      omega
    · rintro rfl
      rw [Nat.sub_zero, List.drop_left]

/-- A call that fails leaves the log of a session as it was if and only if it is a poll, whatever
the server and the state of the session. A session opened on a server, after any moves, has returned
some messages and holds others; a call that fails without the server having changed takes some of
these from its count, and none exactly if it is a poll. Whatever else commits, the polls after that
return what is pending, then the lost messages again, and then what follows them. -/
theorem polls_behind_failure (server : SlotServer) (name : String) (plugin : Plugin)
    (pageSize : Nat) (start : Position) (moves : List DialogueMove) (call : SessionCall) :
    (∀ (σ : Type) (answer : Server σ) (s after : Session) (world world' : σ)
      (fault : SessionFault), s.Fails answer world fault after world' call →
        Session.IsLeftBy call s after) ∧
    ∃ d told : Dialogue, Dialogue.open server name plugin pageSize start = .ok d ∧
      told = d.run moves ∧
      ∀ after, told.FailsTo call after → ∃ lost, (lost = 0 ↔ call = .poll) ∧
        told.session.log.consumed = after.session.log.consumed + lost ∧
        ∀ more, (∀ p, .confirm p ∉ more) →
          (after.run more).ReturnsAgain (max (server.slot.getD server.origin) start)
            (max 1 pageSize) (told.returned ++ told.session.log.pending) lost := by
  refine ⟨fun _ _ _ _ _ _ _ h => h.is_left_by, ?_⟩
  obtain ⟨d, hopen, hopened, -, -⟩ := open_in_step server name plugin pageSize start
  refine ⟨d, _, hopen, rfl, ?_⟩
  intro after hfails
  obtain ⟨answer, fault, hfails, hafter⟩ := hfails
  have hstep := hopened.run moves
  generalize d.run moves = told at hfails hafter hstep ⊢
  have hleft := hfails.is_left_by
  obtain ⟨_, held, -, hagrees⟩ := hstep.agrees
  obtain ⟨hpending, lost, hlost, hzero⟩ := hleft.exists_lost hagrees.counts
  refine ⟨lost, hzero, hlost, ?_⟩
  intro more hmore
  have hsize : after.session.pageSize = told.session.pageSize := by rw [hleft.eq]
  obtain ⟨slot, hresumes⟩ := hstep.resumes hsize hpending hlost
  have hle : lost ≤ (told.returned ++ told.session.log.pending).length := by
    have hheld := hagrees.consumed_eq
    simp only [List.length_append, hagrees.returned_eq]
    omega
  rw [hafter]
  exact (hresumes.run hmore).returns_again (Nat.le_max_left 1 pageSize) hle

/-- A dialogue after the session has released what ends by a position. -/
def released (d : Dialogue) (p : Position) : Dialogue :=
  { d with session := { d.session with log := (d.session.log.releaseThrough p).1 } }

/-- A confirm that releases something fails where the server refuses to advance the slot. -/
theorem fails_to_released {p last : Position} (hlink : d.session.link = .live)
    (hrelease : (d.session.log.releaseThrough p).2 = some last) :
    d.FailsTo (.confirm p) (d.released p) := by
  have hask : Exchange.ask (SlotServer.refuse "55000" "in use") .advanceSlot
      (.advanceSlot d.session.slot last) (d.session.link, d.server) =
        (.error (.statement .advanceSlot (.refused "55000" "in use")), .live, d.server) := by
    rw [hlink]
    rfl
  have hfails : d.session.confirm (SlotServer.refuse "55000" "in use") p d.server =
      (.error (.statement .advanceSlot (.refused "55000" "in use")),
        (d.released p).session, d.server) := by
    rw [Session.confirm_of_fault hrelease hask, ← hlink]
    rfl
  exact ⟨_, _, hfails, rfl⟩

end Dialogue

/-- A server on which a transaction of two messages has committed. -/
def SlotServer.ofPair : SlotServer where
  committed := [⟨some "10", [⟨⟨1⟩, some "a"⟩], ⟨⟨2⟩, some "b"⟩, by decide⟩]
  slot := none
  plugin := none
  origin := .zero
  ascending := List.pairwise_singleton _ _

/-- The messages of that transaction. -/
def Message.pair : List Message :=
  [⟨⟨1⟩, some 10, [97]⟩, ⟨⟨2⟩, some 10, [98]⟩]

namespace Dialogue

/-- A session that is opened there and polled twice returns both messages. If it is then told that
these are durable, and forgets them, it returns the first of them again. -/
theorem open_pair :
    ∃ d, Dialogue.open .ofPair "pipeline_x" .testDecoding 1000 .zero = .ok d ∧
      (d.run [.poll, .poll]).session.link = .live ∧
      (d.run [.poll, .poll]).session.log = ⟨[], [⟨some 10, ⟨2⟩, 2⟩], 2⟩ ∧
      (d.run [.poll, .poll]).returned = Message.pair ∧
      ((d.run [.poll, .poll]).released ⟨2⟩).poll.1.toOption = some Message.pair.head? := by
  obtain ⟨d, hopen, -⟩ := open_in_step .ofPair "pipeline_x" .testDecoding 1000 .zero
  have hcomputed : (Dialogue.open .ofPair "pipeline_x" .testDecoding 1000 .zero).toOption.map
      (fun d => ((d.run [.poll, .poll]).session.link, (d.run [.poll, .poll]).session.log,
        (d.run [.poll, .poll]).returned,
        ((d.run [.poll, .poll]).released ⟨2⟩).poll.1.toOption)) =
      some (.live, ⟨[], [⟨some 10, ⟨2⟩, 2⟩], 2⟩, Message.pair, some Message.pair.head?) := by
    decide +kernel
  rw [hopen] at hcomputed
  simp only [Except.toOption, Option.map_some, Option.some.injEq, Prod.mk.injEq] at hcomputed
  exact ⟨d, hopen, hcomputed⟩

/-- A session that has returned two messages is told that they are durable. The server refuses to
advance the slot, and both messages come again. -/
theorem polls_behind_failure_pair :
    ∃ d told after : Dialogue,
      Dialogue.open .ofPair "pipeline_x" .testDecoding 1000 .zero = .ok d ∧
      told = d.run [.poll, .poll] ∧ told.FailsTo (.confirm ⟨2⟩) after ∧
      (after.run [.poll, .poll]).ReturnsAgain .zero 1000 Message.pair 2 := by
  obtain ⟨d, hopen, hlink, hlog, hreturned, -⟩ := open_pair
  obtain ⟨_, e, _, hsame, rfl, hbehind⟩ := polls_behind_failure .ofPair "pipeline_x" .testDecoding
    1000 .zero [.poll, .poll] (.confirm ⟨2⟩)
  obtain rfl := Except.ok.inj (hopen.symm.trans hsame)
  have hfails : (d.run [.poll, .poll]).FailsTo (.confirm ⟨2⟩)
      ((d.run [.poll, .poll]).released ⟨2⟩) := fails_to_released hlink (by rw [hlog]; rfl)
  obtain ⟨lost, -, hlost, hagain⟩ := hbehind _ hfails
  have htwo : lost = 2 := by
    have hnone : ((d.run [.poll, .poll]).released ⟨2⟩).session.log.consumed = 0 := by
      rw [released, hlog]
      rfl
    rw [hlog, hnone] at hlost
    exact (hlost.trans (Nat.zero_add lost)).symm
  have hreturns := hagain [.poll, .poll] (by simp)
  rw [htwo, hreturned, hlog] at hreturns
  exact ⟨d, _, _, hopen, rfl, hfails, hreturns⟩

/-- A confirm that fails changes the log, and the next poll returns a message that was returned
before. -/
theorem returned_before :
    ∃ d told after : Dialogue, ∃ message ∈ told.returned,
      Dialogue.open .ofPair "pipeline_x" .testDecoding 1000 .zero = .ok d ∧
      told = d.run [.poll, .poll] ∧ told.FailsTo (.confirm ⟨2⟩) after ∧
      after.session.log ≠ told.session.log ∧ after.poll.1.toOption = some (some message) := by
  obtain ⟨d, hopen, hlink, hlog, hreturned, hpoll⟩ := open_pair
  refine ⟨d, _, _, ⟨⟨1⟩, some 10, [97]⟩, ?_, hopen, rfl,
    fails_to_released hlink (by rw [hlog]; rfl), ?_, hpoll⟩
  · rw [hreturned]
    exact List.mem_cons_self
  · rw [released, hlog]
    show (DeliveryLog.releaseThrough ⟨[], [⟨some 10, ⟨2⟩, 2⟩], 2⟩ ⟨2⟩).1 ≠ _
    decide

end Dialogue

end ChangeFeed
