import ChangeFeed.Proofs.Session.Agreement

/-!
# What a session returns

A session in dialogue with a server: it is polled, told what is durable, and meanwhile other
transactions commit. `Dialogue.faithful_run` says that whatever the order of these moves, the
messages that were returned are those behind the base of the session, in order and each once, that
nothing is left when a poll finds nothing, and that the slot only passes what is durable and was
returned as a whole.
-/

namespace ChangeFeed

open LoggedTransaction

namespace Session

variable {σ : Type}

/-! ## Polls -/

/-- Handing out gives the next message of the log, if there is one. -/
theorem hand_out_cases (s : Session) :
    (∃ message log, s.log.next = some (message, log) ∧
      s.handOut = (some message, { s with log := log })) ∨
    s.log.pending = [] ∧ s.handOut = (none, s) := by
  cases hnext : s.log.next with
  | none => exact .inr ⟨DeliveryLog.next_eq_none_iff.mp hnext, by simp [handOut, hnext]⟩
  | some found => exact .inl ⟨found.1, found.2, rfl, by simp [handOut, hnext]⟩

/-- A page asks for more than was delivered before, unless it is cut short by the greatest limit. -/
theorem consumed_lt_limit {s : Session} (hsize : 0 < s.pageSize)
    (hfits : s.log.consumed + s.pageSize ≤ greatestLimit) : s.log.consumed < s.limit := by
  have hbits : greatestLimit < Nat.pow 2 64 := by decide
  rw [limit, Nat.mod_eq_of_lt (hfits.trans_lt hbits), Nat.min_eq_right hfits]
  omega

/-- A pending message is handed out without asking the server. -/
theorem poll_of_next (server : Server σ) {s : Session} (world : σ) {message : Message}
    {log : DeliveryLog} (h : s.log.next = some (message, log)) :
    s.poll server world = (.ok (some message), { s with log := log }, world) := by
  simp [poll, handOut, h]

/-- If nothing is pending, a poll takes the page that the server gives. -/
theorem poll_of_page {server : Server σ} {s : Session} {world after : σ}
    {rows : List (List Cell)} {page : List Message} (hpending : s.log.pending = [])
    (hlink : s.link = .live)
    (hreply : server (.peekChanges s.slot s.limit s.options) world = (.rows rows, after))
    (hrows : rows.mapM Message.ofRow = .ok page) :
    s.poll server world =
      (.ok { s with log := s.log.acceptPage page }.handOut.1,
        { s with log := s.log.acceptPage page }.handOut.2, after) := by
  simp [poll, handOut, DeliveryLog.next_eq_none_iff.mpr hpending, hlink, Exchange.ask, hreply,
    Except.bind, hrows]

/-- If nothing is pending and the server gives no rows, a poll fails and changes the connection
only. -/
theorem poll_of_fault {server : Server σ} {s : Session} {world after : σ} {fault : SessionFault}
    {link : Link} (hpending : s.log.pending = [])
    (hask : Exchange.ask server .peekChanges (.peekChanges s.slot s.limit s.options)
      (s.link, world) = (.error fault, link, after)) :
    s.poll server world = (.error fault, { s with link := link }, after) := by
  simp [poll, handOut, DeliveryLog.next_eq_none_iff.mpr hpending, hask, Except.bind]

/-- If nothing is pending and the server refuses, a poll leaves the session as it is. -/
theorem poll_of_refusal {server : Server σ} {s : Session} {world after : σ}
    {code message : String} (hpending : s.log.pending = []) (hlink : s.link = .live)
    (hreply : server (.peekChanges s.slot s.limit s.options) world =
      (.refused code message, after)) :
    s.poll server world =
      (.error (.statement .peekChanges (.refused code message)), s, after) := by
  have hs : { s with link := .live } = s := by rw [← hlink]
  have hask : Exchange.ask server .peekChanges (.peekChanges s.slot s.limit s.options)
      (s.link, world) =
        (.error (.statement .peekChanges (.refused code message)), .live, after) := by
    simp [hlink, Exchange.ask, hreply]
  rw [poll_of_fault hpending hask, hs]

/-! ## Confirms -/

/-- A release that goes nowhere asks nothing of the server. -/
theorem confirm_of_none (server : Server σ) {s : Session} {p : Position} (world : σ)
    (h : s.log.releaseThrough p = (s.log, none)) :
    s.confirm server p world = (.ok (), s, world) := by
  simp [confirm, h]

/-- A release makes the slot advance. -/
theorem confirm_of_some {server : Server σ} {s : Session} {p last : Position} {world after : σ}
    {rows : List (List Cell)} (hlink : s.link = .live)
    (hrelease : (s.log.releaseThrough p).2 = some last)
    (hreply : server (.advanceSlot s.slot last) world = (.rows rows, after)) :
    s.confirm server p world =
      (.ok (), { s with log := (s.log.releaseThrough p).1 }, after) := by
  obtain ⟨slot, options, pageSize, link, log⟩ := s
  obtain rfl : link = .live := hlink
  obtain ⟨released, hlast⟩ : ∃ released, log.releaseThrough p = (released, some last) :=
    ⟨_, Prod.ext rfl hrelease⟩
  simp [confirm, hlast, advance, Exchange.andThen, Exchange.ask, hreply, Exchange.ofResult]

/-- A release that the server does not carry out, or does not answer, fails. -/
theorem confirm_of_fault {server : Server σ} {s : Session} {p last : Position} {world after : σ}
    {fault : SessionFault} {link : Link} (hrelease : (s.log.releaseThrough p).2 = some last)
    (hask : Exchange.ask server .advanceSlot (.advanceSlot s.slot last) (s.link, world) =
      (.error fault, link, after)) :
    s.confirm server p world =
      (.error fault, { s with log := (s.log.releaseThrough p).1, link := link }, after) := by
  obtain ⟨released, hlast⟩ : ∃ released, s.log.releaseThrough p = (released, some last) :=
    ⟨_, Prod.ext rfl hrelease⟩
  simp [confirm, hlast, advance, Exchange.andThen, hask]

/-! ## Opening -/

/-- A session is opened with an empty log once its slot is prepared. -/
theorem open_of_prepare {server : Server σ} {slot : String} {plugin : Plugin} {start : Position}
    {world after : σ} {link : Link}
    (h : prepare server slot plugin start (.live, world) = (.ok (), link, after))
    (pageSize : Nat) :
    ∃ session, Session.open server slot plugin pageSize start world = (.ok session, after) ∧
      session.link = link ∧ session.log = .empty ∧ session.pageSize = max 1 pageSize := by
  simp [Session.open, h]

end Session

namespace SlotServer

/-- A server that refuses whatever it is asked. -/
def refuse (code message : String) : Server SlotServer :=
  fun _ s => (.refused code message, s)

/-- A position that the server writes is the position that a session reads. -/
theorem of_reply_write (p : Position) : Position.ofReply (some p.write) = .ok p := by
  simp [Position.ofReply]

/-- The position of the slot is found; a slot that is missing is made where new slots start. -/
theorem find_position_answer (s : SlotServer) (name : String) (plugin : Plugin) :
    ∃ after : SlotServer, Session.findPosition answer name plugin (.live, s) =
        (.ok (s.slot.getD s.origin), .live, after) ∧
      after.slot = some (s.slot.getD s.origin) ∧ after.committed = s.committed := by
  cases hslot : s.slot with
  | none =>
      refine ⟨{ s with slot := some s.origin, plugin := some plugin.name }, ?_, rfl, rfl⟩
      simp [Session.findPosition, Exchange.andThen, Exchange.ask, answer, hslot, onlyRow,
        optionalTextAt, SessionTask.reading, Exchange.ofResult, of_reply_write, bind,
        Except.bind]
  | some p =>
      refine ⟨s, ?_, hslot, rfl⟩
      cases hplugin : s.plugin <;>
        simp [Session.findPosition, Exchange.andThen, Exchange.ask, answer, hslot, hplugin,
          optionalTextAt, SessionTask.reading, Exchange.ofResult, of_reply_write,
          bind, Except.bind]

/-- Opening a session succeeds and leaves the slot at the later of its own position and the
start. -/
theorem open_answer (s : SlotServer) (name : String) (plugin : Plugin) (pageSize : Nat)
    (start : Position) :
    ∃ session after, Session.open answer name plugin pageSize start s = (.ok session, after) ∧
      session.link = .live ∧ session.log = .empty ∧ session.pageSize = max 1 pageSize ∧
      after.slot = some (max (s.slot.getD s.origin) start) ∧
      after.committed = s.committed := by
  obtain ⟨found, hfound, hslot, hcommitted⟩ := s.find_position_answer name plugin
  by_cases hstart : s.slot.getD s.origin < start
  · have hprepare : Session.prepare answer name plugin start (.live, s) =
        (.ok (), .live, { found with slot := some start }) := by
      simp [Session.prepare, Exchange.andThen, hfound, hstart, Session.advance, Exchange.ask,
        answer, Exchange.ofResult]
    obtain ⟨session, hopen, hlink, hlog, hsize⟩ := Session.open_of_prepare hprepare pageSize
    refine ⟨session, _, hopen, hlink, hlog, hsize, ?_, hcommitted⟩
    rw [max_eq_right hstart.le]
  · have hprepare : Session.prepare answer name plugin start (.live, s) =
        (.ok (), .live, found) := by
      simp [Session.prepare, Exchange.andThen, hfound, hstart, Exchange.ofResult]
    obtain ⟨session, hopen, hlink, hlog, hsize⟩ := Session.open_of_prepare hprepare pageSize
    refine ⟨session, found, hopen, hlink, hlog, hsize, ?_, hcommitted⟩
    rw [hslot, max_eq_left (not_lt.mp hstart)]

end SlotServer

/-! ## Dialogues -/

/-- A session with its server and the messages that it has returned. -/
structure Dialogue where
  server : SlotServer
  session : Session
  returned : List Message

/-- What happens in a dialogue. -/
inductive DialogueMove where
  | poll
  /-- A poll that the server refuses to answer. -/
  | pollRefused (code message : String)
  | confirm (position : Position)
  /-- Another transaction commits at the server. -/
  | commit (t : LoggedTransaction)

namespace Dialogue

/-- Opens a session on a server. -/
def «open» (server : SlotServer) (name : String) (plugin : Plugin) (pageSize : Nat)
    (start : Position) : Except SessionFault Dialogue :=
  match Session.open SlotServer.answer name plugin pageSize start server with
  | (.ok session, server) => .ok ⟨server, session, []⟩
  | (.error fault, _) => .error fault

/-- Polls the session while the server answers in a given way. -/
def pollWith (answer : Server SlotServer) (d : Dialogue) :
    Except SessionFault (Option Message) × Dialogue :=
  let (result, session, server) := d.session.poll answer d.server
  (result, ⟨server, session, d.returned ++ (result.toOption.bind id).toList⟩)

/-- Polls the session. -/
def poll (d : Dialogue) : Except SessionFault (Option Message) × Dialogue :=
  d.pollWith SlotServer.answer

/-- Tells the session what is durable. -/
def confirm (d : Dialogue) (p : Position) : Except SessionFault Unit × Dialogue :=
  let (result, session, server) := d.session.confirm SlotServer.answer p d.server
  (result, ⟨server, session, d.returned⟩)

/-- One move. -/
def step (d : Dialogue) : DialogueMove → Dialogue
  | .poll => d.poll.2
  | .pollRefused code message => (d.pollWith (SlotServer.refuse code message)).2
  | .confirm p => (d.confirm p).2
  | .commit t => { d with server := d.server.commit t }

/-- A sequence of moves. -/
def run (d : Dialogue) (moves : List DialogueMove) : Dialogue :=
  moves.foldl step d

/-- The number of messages that were returned and that the slot has not passed. -/
def unconfirmed (d : Dialogue) (base slot : Position) : Nat :=
  d.returned.length - (messagesOf (d.server.between base slot)).length

/-- What a session with a base and a page size promises at any moment. -/
structure Faithful (base : Position) (pageSize : Nat) (d : Dialogue) : Prop where
  /-- What was returned is what is behind the base, from the first message on. -/
  returned_prefix : d.returned <+: messagesOf (d.server.past base)
  /-- The slot has passed only what was returned as a whole. -/
  slot_passed : ∃ slot, d.server.slot = some slot ∧ base ≤ slot ∧
    messagesOf (d.server.between base slot) <+: d.returned
  poll_ok : ∃ answer, d.poll.1 = .ok answer
  /-- When a poll finds nothing, everything was returned. -/
  poll_none : d.poll.1 = .ok none → ∀ slot, d.server.slot = some slot →
    d.unconfirmed base slot + pageSize ≤ Session.greatestLimit →
    d.returned = messagesOf (d.server.past base)
  /-- A confirm lets the slot stay or advance up to the given position, and past nothing that was
  not returned as a whole. -/
  confirm_ok : ∀ p, (d.confirm p).1 = .ok () ∧ ∃ before after,
    d.server.slot = some before ∧ (d.confirm p).2.server.slot = some after ∧
    (after = before ∨ before < after ∧ after ≤ p) ∧
    messagesOf (d.server.between base after) <+: d.returned

/-- A dialogue in which the session is connected and in step with its server. -/
structure InStep (base : Position) (pageSize : Nat) (d : Dialogue) : Prop where
  link_eq : d.session.link = .live
  page_size_eq : d.session.pageSize = pageSize
  agrees : ∃ slot held, d.server.slot = some slot ∧
    d.session.log.Agrees d.server base slot d.returned held

variable {base : Position} {pageSize : Nat} {d : Dialogue}

/-- Handing out the next message, or finding that there is none, keeps a dialogue in step. -/
theorem InStep.hand_out {server : SlotServer} {session : Session} {returned : List Message}
    (h : InStep base pageSize ⟨server, session, returned⟩) :
    InStep base pageSize
      ⟨server, session.handOut.2, returned ++ session.handOut.1.toList⟩ := by
  obtain ⟨slot, held, hslot, hagrees⟩ := h.agrees
  rcases session.hand_out_cases with ⟨message, log, hnext, hout⟩ | ⟨-, hout⟩
  · rw [hout]
    exact ⟨h.link_eq, h.page_size_eq, slot, _, hslot, hagrees.next hnext⟩
  · rw [hout]
    simpa using h

/-- The page that a look at the changes gives. -/
def nextPage (d : Dialogue) (slot : Position) : List Message :=
  messagesOf (SlotServer.page d.session.limit (d.server.past slot))

/-- The session after it took the next page. -/
def withPage (d : Dialogue) (slot : Position) : Session :=
  { d.session with log := d.session.log.acceptPage (d.nextPage slot) }

/-- A poll over a live connection hands out what is pending, or else takes a page first. -/
theorem poll_cases_of_live (hlink : d.session.link = .live) {slot : Position}
    (hslot : d.server.slot = some slot) :
    (d.session.log.pending ≠ [] ∧ d.poll =
      (.ok d.session.handOut.1,
        ⟨d.server, d.session.handOut.2, d.returned ++ d.session.handOut.1.toList⟩)) ∨
    (d.session.log.pending = [] ∧ d.poll =
      (.ok (d.withPage slot).handOut.1, ⟨d.server, (d.withPage slot).handOut.2,
        d.returned ++ (d.withPage slot).handOut.1.toList⟩)) := by
  rcases d.session.hand_out_cases with ⟨message, log, hnext, hout⟩ | ⟨hpending, -⟩
  · refine .inl ⟨?_, ?_⟩
    · intro hpending
      rw [DeliveryLog.next_eq_none_iff.mpr hpending] at hnext
      exact absurd hnext (Option.some_ne_none _).symm
    · simp [poll, pollWith, Session.poll_of_next SlotServer.answer d.server hnext, hout,
        Except.toOption]
  · refine .inr ⟨hpending, ?_⟩
    have hreply : SlotServer.answer
        (.peekChanges d.session.slot d.session.limit d.session.options) d.server =
        (.rows ((SlotServer.page d.session.limit (d.server.past slot)).flatMap rows),
          d.server) := by
      simp [SlotServer.answer, hslot]
    have hpoll := Session.poll_of_page hpending hlink hreply
      (SlotServer.messages_of_rows _)
    simp [poll, pollWith, hpoll, withPage, nextPage, Except.toOption]

/-- Taking a page keeps a dialogue in step. -/
theorem InStep.with_page (h : InStep base pageSize d) {slot : Position}
    (hslot : d.server.slot = some slot) (hpending : d.session.log.pending = []) :
    InStep base pageSize ⟨d.server, d.withPage slot, d.returned⟩ := by
  obtain ⟨at_, held, hat, hagrees⟩ := h.agrees
  obtain rfl : slot = at_ := Option.some.inj (hslot.symm.trans hat)
  exact ⟨h.link_eq, h.page_size_eq, slot, held, hslot, hagrees.accept_page hpending _⟩

/-- A poll keeps a dialogue in step. -/
theorem InStep.poll (h : InStep base pageSize d) : InStep base pageSize d.poll.2 := by
  obtain ⟨slot, _, hslot, -⟩ := h.agrees
  rcases poll_cases_of_live h.link_eq hslot with ⟨-, hpoll⟩ | ⟨hpending, hpoll⟩
  · rw [hpoll]
    exact h.hand_out
  · rw [hpoll]
    exact (h.with_page hslot hpending).hand_out

/-- A poll that is refused keeps a dialogue in step. -/
theorem InStep.poll_refused (h : InStep base pageSize d) (code message : String) :
    InStep base pageSize (d.pollWith (SlotServer.refuse code message)).2 := by
  rcases d.session.hand_out_cases with ⟨next, log, hnext, hout⟩ | ⟨hpending, -⟩
  · have hpoll : (d.pollWith (SlotServer.refuse code message)).2 =
        ⟨d.server, d.session.handOut.2, d.returned ++ d.session.handOut.1.toList⟩ := by
      simp [pollWith, Session.poll_of_next _ d.server hnext, hout, Except.toOption]
    rw [hpoll]
    exact h.hand_out
  · have hpoll : (d.pollWith (SlotServer.refuse code message)).2 = d := by
      have hreply : SlotServer.refuse code message
          (.peekChanges d.session.slot d.session.limit d.session.options) d.server =
          (.refused code message, d.server) := rfl
      simp [pollWith, Session.poll_of_refusal hpending h.link_eq hreply, Except.toOption]
    rw [hpoll]
    exact h

/-- A confirm succeeds. The slot stays or advances to a commit up to the given position, and the
dialogue stays in step. -/
theorem InStep.confirm (h : InStep base pageSize d) (p : Position) {before : Position}
    (hbefore : d.server.slot = some before) :
    (d.confirm p).1 = .ok () ∧ InStep base pageSize (d.confirm p).2 ∧
      (d.confirm p).2.server.committed = d.server.committed ∧
      ∃ after, (d.confirm p).2.server.slot = some after ∧
        (after = before ∨ before < after ∧ after ≤ p) := by
  obtain ⟨slot, held, hslot, hagrees⟩ := h.agrees
  obtain rfl : before = slot := Option.some.inj (hbefore.symm.trans hslot)
  rcases hagrees.release p with hnone | ⟨last, later, hlast, hlt, hle, hlater⟩
  · have hconfirm : d.confirm p = (.ok (), d) := by
      simp [Dialogue.confirm, Session.confirm_of_none SlotServer.answer d.server hnone]
    rw [hconfirm]
    exact ⟨rfl, h, rfl, before, hslot, .inl rfl⟩
  · have hreply : SlotServer.answer (.advanceSlot d.session.slot last) d.server =
        (.rows [[.null]], { d.server with slot := some last }) := rfl
    have hconfirm : d.confirm p = (.ok (), ⟨{ d.server with slot := some last },
        { d.session with log := (d.session.log.releaseThrough p).1 }, d.returned⟩) := by
      simp [Dialogue.confirm, Session.confirm_of_some h.link_eq hlast hreply]
    rw [hconfirm]
    refine ⟨rfl, ⟨h.link_eq, h.page_size_eq, last, later, rfl, ?_⟩, rfl, last, rfl,
      .inr ⟨hlt, hle⟩⟩
    exact hlater.same_log ⟨rfl, rfl⟩

/-- Every move keeps a dialogue in step. -/
theorem InStep.step (h : InStep base pageSize d) (move : DialogueMove) :
    InStep base pageSize (d.step move) := by
  obtain ⟨slot, held, hslot, hagrees⟩ := h.agrees
  cases move with
  | poll => exact h.poll
  | pollRefused code message => exact h.poll_refused code message
  | confirm p => exact (h.confirm p hslot).2.1
  | commit t =>
      exact ⟨h.link_eq, h.page_size_eq, slot, held, (d.server.commit_slot t).trans hslot,
        hagrees.commit t⟩

/-- Every sequence of moves keeps a dialogue in step. -/
theorem InStep.run (h : InStep base pageSize d) (moves : List DialogueMove) :
    InStep base pageSize (d.run moves) := by
  induction moves generalizing d with
  | nil => exact h
  | cons move rest ih => exact ih (h.step move)

/-- The log counts the messages that were returned and not confirmed. -/
theorem InStep.consumed_eq (h : InStep base pageSize d) {slot : Position}
    (hslot : d.server.slot = some slot) :
    d.session.log.consumed = d.unconfirmed base slot := by
  obtain ⟨at_, held, hat, hagrees⟩ := h.agrees
  obtain rfl : slot = at_ := Option.some.inj (hslot.symm.trans hat)
  rw [unconfirmed, hagrees.returned_eq, hagrees.consumed_eq, List.length_append]
  omega

/-- If a poll finds nothing and its page was not cut short by the greatest limit, everything was
returned. -/
theorem InStep.returned_all (h : InStep base pageSize d) (hsize : 0 < pageSize)
    (hnone : d.poll.1 = .ok none) {slot : Position} (hslot : d.server.slot = some slot)
    (hfits : d.unconfirmed base slot + pageSize ≤ Session.greatestLimit) :
    d.returned = messagesOf (d.server.past base) := by
  obtain ⟨at_, held, hat, hagrees⟩ := h.agrees
  obtain rfl : slot = at_ := Option.some.inj (hslot.symm.trans hat)
  rw [← h.consumed_eq hslot] at hfits
  rcases poll_cases_of_live h.link_eq hslot with ⟨hpending, hpoll⟩ | ⟨hpending, hpoll⟩
  · rcases d.session.hand_out_cases with ⟨message, log, -, hout⟩ | ⟨hempty, -⟩
    · simp [hpoll, hout] at hnone
    · exact absurd hempty hpending
  · have hlimit : d.session.log.consumed < d.session.limit :=
      Session.consumed_lt_limit (h.page_size_eq ▸ hsize) (h.page_size_eq ▸ hfits)
    rcases (d.withPage slot).hand_out_cases with ⟨message, log, -, hout⟩ | ⟨hempty, -⟩
    · simp [hpoll, hout] at hnone
    · exact hagrees.returned_all hpending hlimit hempty

/-- What the slot has passed was returned. -/
theorem InStep.passed_prefix (h : InStep base pageSize d) {slot : Position}
    (hslot : d.server.slot = some slot) :
    base ≤ slot ∧ messagesOf (d.server.between base slot) <+: d.returned := by
  obtain ⟨at_, held, hat, hagrees⟩ := h.agrees
  obtain rfl : slot = at_ := Option.some.inj (hslot.symm.trans hat)
  exact ⟨hagrees.base_le, hagrees.returned_eq ▸ List.prefix_append _ _⟩

/-- A dialogue in step keeps the promises of its session. -/
theorem InStep.faithful (h : InStep base pageSize d) (hsize : 0 < pageSize) :
    Faithful base pageSize d := by
  obtain ⟨slot, held, hslot, hagrees⟩ := h.agrees
  refine {
    returned_prefix := hagrees.returned_prefix
    slot_passed := ⟨slot, hslot, h.passed_prefix hslot⟩
    poll_ok := ?_
    poll_none := fun hnone _ hat => h.returned_all hsize hnone hat
    confirm_ok := ?_ }
  · rcases poll_cases_of_live h.link_eq hslot with ⟨-, hpoll⟩ | ⟨-, hpoll⟩ <;>
      exact ⟨_, congrArg Prod.fst hpoll⟩
  · intro p
    obtain ⟨hok, hafter, hcommitted, after, hat, hmoved⟩ := h.confirm p hslot
    refine ⟨hok, slot, after, hslot, hat, hmoved, ?_⟩
    have hpassed := (hafter.passed_prefix hat).2
    have hreturned : (d.confirm p).2.returned = d.returned := rfl
    rw [hreturned] at hpassed
    simpa [SlotServer.between, hcommitted] using hpassed

/-- A new session is in step with its server, and the slot stands at its base. -/
theorem open_in_step (server : SlotServer) (name : String) (plugin : Plugin) (pageSize : Nat)
    (start : Position) :
    ∃ d, Dialogue.open server name plugin pageSize start = .ok d ∧
      InStep (max (server.slot.getD server.origin) start) (max 1 pageSize) d ∧
      d.server.slot = some (max (server.slot.getD server.origin) start) ∧
      d.server.committed = server.committed := by
  obtain ⟨session, after, hopen, hlink, hlog, hsize, hslot, hcommitted⟩ :=
    server.open_answer name plugin pageSize start
  refine ⟨⟨after, session, []⟩, by rw [Dialogue.open, hopen], ?_, hslot, hcommitted⟩
  exact ⟨hlink, hsize, _, [], hslot, hlog ▸ DeliveryLog.Agrees.empty after _⟩

/-- A session that is opened at a start returns the messages of the transactions that are behind
the start and behind the slot, in order and each once, whatever the order in which it is polled
and told what is durable and in which transactions commit. Opening leaves the slot at the later of
the two positions. -/
theorem faithful_run (server : SlotServer) (name : String) (plugin : Plugin) (pageSize : Nat)
    (start : Position) (moves : List DialogueMove) :
    ∃ d, Dialogue.open server name plugin pageSize start = .ok d ∧
      d.server.slot = some (max (server.slot.getD server.origin) start) ∧
      d.server.committed = server.committed ∧ d.returned = [] ∧
      Faithful (max (server.slot.getD server.origin) start) (max 1 pageSize) (d.run moves) := by
  obtain ⟨d, hopen, hstep, hslot, hcommitted⟩ :=
    open_in_step server name plugin pageSize start
  have hreturned : d.returned = [] := by
    unfold Dialogue.open at hopen
    split at hopen
    · exact (Except.ok.inj hopen) ▸ rfl
    · exact absurd hopen (by simp)
  exact ⟨d, hopen, hslot, hcommitted, hreturned,
    (hstep.run moves).faithful (Nat.le_max_left 1 pageSize)⟩

end Dialogue

end ChangeFeed
