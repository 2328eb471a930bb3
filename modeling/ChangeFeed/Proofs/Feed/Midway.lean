import ChangeFeed.Proofs.Feed.Coverage
import ChangeFeed.Proofs.Feed.Trail
import ChangeFeed.Proofs.Session.Agreement

/-!
# Between the transactions of a session

What a feed holds back depends on its session only: of the messages behind the base of the session
whole transactions were told, and of the next one a part, which is where the buffer stands
(`Midway`). So a batch that a feed gives out when it groups is a whole transaction: it ends with a
record at the position of the commit, the other records are before that, and the commit is beyond
what was published (`Midway.receives`). Nothing is asked here of what was delivered by earlier runs.
-/

namespace ChangeFeed

open LoggedTransaction

/-- A batch that ends with a record at its own position, behind all its other records. -/
def Batch.EndsLast (b : Batch) : Prop :=
  ∃ contents ending, b.records = contents ++ [ending] ∧ ending.position = b.last ∧
    ∀ r ∈ contents, r.position < b.last

/-- No record of such a batch is behind its end. -/
theorem Batch.EndsLast.position_le {b : Batch} (h : b.EndsLast) {r : Record}
    (hr : r ∈ b.records) : r.position ≤ b.last := by
  obtain ⟨contents, ending, hrecords, hending, hcontents⟩ := h
  rcases List.mem_append.mp (hrecords ▸ hr) with hr | hr
  · exact (hcontents r hr).le
  · rw [List.mem_singleton.mp hr, hending]

/-- A feed that groups gives out nothing of a transaction before its end. -/
theorem Cursor.emitted_eq_nil {c : FeedContext} {told : List Message} {b : TransactionBuffer}
    {emitted : List Record} (hgrouped : c.settings.grouped = true) (h : Cursor c told b emitted) :
    emitted = [] := by
  cases h with
  | between => rfl
  | collects content _ htells => rfl
  | passes content hpasses htells hconvert =>
      exact absurd (hgrouped.symm.trans hpasses) (by simp)

/-- A feed stands with a session that was told whole transactions and then a part of the next
one. -/
def Midway (server : SlotServer) (c : FeedContext) (base : Position) (returned : List Message)
    (b : TransactionBuffer) : Prop :=
  ∃ done todo part emitted, server.past base = done ++ todo ∧
    returned = messagesOf done ++ part ∧ IsPart todo part ∧ Cursor c part b emitted

namespace Midway

variable {server server' : SlotServer} {c : FeedContext} {base : Position}
  {returned : List Message} {b : TransactionBuffer}

/-- A session that has told nothing. -/
theorem starts (server : SlotServer) (base : Position) (hb : b = ⟨c.settings.grouped, none⟩) :
    Midway server c base [] b :=
  ⟨[], server.past base, [], [], rfl, rfl, .inl rfl, hb ▸ .between⟩

/-- A feed stands as it does when another transaction commits. -/
theorem commit (h : Midway server c base returned b) (t : LoggedTransaction) :
    Midway (server.commit t) c base returned b := by
  obtain ⟨done, todo, part, emitted, hcut, hreturned, hpart, hcursor⟩ := h
  obtain ⟨more, hmore⟩ := server.past_commit_prefix t base
  exact ⟨done, todo ++ more, part, emitted, by rw [← hmore, hcut, List.append_assoc], hreturned,
    hpart.append more, hcursor⟩

/-- A feed stands as it does on a server with the same log. -/
theorem same_log (h : Midway server c base returned b) (hlog : server.SameLog server') :
    Midway server' c base returned b := by
  obtain ⟨done, todo, part, emitted, hcut, hrest⟩ := h
  exact ⟨done, todo, part, emitted, by rw [hlog.past_eq, hcut], hrest⟩

/-- The buffer groups as the feed does. -/
theorem grouped_eq (h : Midway server c base returned b) : b.grouped = c.settings.grouped := by
  obtain ⟨_, _, _, _, -, -, -, hcursor⟩ := h
  exact hcursor.grouped_eq

/-- The next message is one of the first transaction that was not told whole. A feed that groups
gives a batch out only at the commit, and only beyond what was published. -/
theorem receives (hframed : ∀ t ∈ server.committed, t.IsFramed c.plugin ∧ t.HasRowsBefore)
    {loop : Loop} (h : Midway server c base returned loop.buffer) {m : Message}
    (hm : returned ++ [m] <+: messagesOf (server.past base)) {after : TransactionBuffer}
    {out : Option Batch} (hreceive : c.receive loop m = .ok (after, out)) :
    Midway server c base (returned ++ [m]) after ∧
      ∀ batch, out = some batch → c.settings.grouped = true →
        batch.EndsLast ∧ loop.position < batch.last := by
  obtain ⟨done, todo, part, emitted, hcut, rfl, hpart, hcursor⟩ := h
  obtain ⟨left, hleft⟩ := hm
  rw [hcut, messages_of_append, List.append_assoc, List.append_assoc] at hleft
  obtain ⟨t, rest, more, rfl, hmessages, -⟩ :=
    hpart.next (by simpa using (List.append_cancel_left hleft).symm)
  have hmem : t ∈ server.past base := hcut ▸ by simp
  obtain ⟨hframe, hrows⟩ := hframed t (SlotServer.mem_past.mp hmem).1
  have hgoes {emitted' : List Record} (hmore : more ≠ [])
      (hnext : Cursor c (part ++ [m]) after emitted') :
      Midway server c base (messagesOf done ++ part ++ [m]) after :=
    ⟨done, t :: rest, part ++ [m], emitted', hcut, by simp,
      .inr ⟨t, rest, more, rfl, by simp [hmessages], hmore⟩, hnext⟩
  rcases hcursor.receives hframe hmessages hreceive with
    ⟨hmore, ⟨rfl, hnext⟩ | ⟨-, hpasses, r, rfl, -, hnext⟩⟩ | ⟨rfl, rfl, hends⟩
  · exact ⟨hgoes hmore hnext, nofun⟩
  · refine ⟨hgoes hmore hnext, fun batch _ hgrouped => ?_⟩
    exact absurd (hgrouped.symm.trans hpasses) (by simp)
  · refine ⟨⟨done ++ [t], rest, [], [], by simp [hcut], by simp [hmessages], .inl rfl,
      .between⟩, ?_⟩
    rcases hends with ⟨rfl, -, -⟩ | ⟨records, rfl, hconverted, hbeyond⟩
    · exact nofun
    · intro batch hbatch hgrouped
      obtain rfl := Option.some.inj hbatch
      rw [hcursor.emitted_eq_nil hgrouped, List.nil_append] at hconverted
      exact ⟨hconverted.split hrows, hbeyond hgrouped⟩

end Midway

/-! ## The footing of a feed -/

namespace Feed

section

variable (server : SlotServer) (c : FeedContext)

/-- A feed has a live session whose log agrees with the slot, and stands in the middle of it. -/
def Follows (b : TransactionBuffer) (session : Option Session) : Prop :=
  ∃ s base slot returned held, session = some s ∧ s.link = .live ∧ server.slot = some slot ∧
    s.log.Agrees server base slot returned held ∧ Midway server c base returned b

/-- What holds at the control points of a feed when a position is stored. -/
structure Footing (stored : Position) (loop : Loop) (session : Option Session) : Prop where
  waits : loop.control.Waits → loop.buffer = ⟨c.settings.grouped, none⟩
  opens : ∀ resume, loop.control = .opening resume → resume ≤ stored
  confirms : ∀ target, loop.control = .confirming target → target ≤ stored
  follows : loop.control.Reads ∨ IsPushing loop.control → Follows server c loop.buffer session
  closes : ∀ outcome, loop.control = .closing outcome → loop.buffer.grouped = c.settings.grouped

end

variable {server server' : SlotServer} {c : FeedContext} {stored stored' : Position}
  {loop after : Loop} {session session' : Option Session} {event : LoopEvent}
  {durable : Position} {b : TransactionBuffer}

/-- The buffer of a feed that follows a session groups as the feed does. -/
theorem Follows.grouped_eq (h : Follows server c b session) : b.grouped = c.settings.grouped := by
  obtain ⟨_, _, _, _, _, -, -, -, -, hmidway⟩ := h
  exact hmidway.grouped_eq

/-- A feed goes on following its session when another transaction commits. -/
theorem Follows.commit (h : Follows server c b session) (t : LoggedTransaction) :
    Follows (server.commit t) c b session := by
  obtain ⟨s, base, slot, returned, held, hsome, hlink, hslot, hagrees, hmidway⟩ := h
  exact ⟨s, base, slot, returned, held, hsome, hlink, (server.commit_slot t).trans hslot,
    hagrees.commit t, hmidway.commit t⟩

/-- A feed on its way to a session has its footing. -/
theorem Footing.of_waits (h : loop.control.Waits) (hb : loop.buffer = ⟨c.settings.grouped, none⟩)
    (hopens : ∀ resume, loop.control = .opening resume → resume ≤ stored) :
    Footing server c stored loop session where
  waits _ := hb
  opens := hopens
  confirms target htarget := (htarget ▸ h : (Control.confirming target).Waits).elim
  follows hcontrol := by
    rcases hcontrol with hreads | hpushing
    · exact absurd h (Control.not_waits_of_reads hreads)
    · exact absurd hpushing (not_pushing_of_waits h).1
  closes outcome hclosing := (hclosing ▸ h : (Control.closing outcome).Waits).elim

/-- A feed that reads has its footing in its session. -/
theorem Footing.of_reads (h : loop.control.Reads) (hfollows : Follows server c loop.buffer session)
    (hconfirms : ∀ target, loop.control = .confirming target → target ≤ stored) :
    Footing server c stored loop session where
  waits hwaits := absurd hwaits (Control.not_waits_of_reads h)
  opens resume hopening := (hopening ▸ h : (Control.opening resume).Reads).elim
  confirms := hconfirms
  follows _ := hfollows
  closes outcome hclosing := (hclosing ▸ h : (Control.closing outcome).Reads).elim

/-- A feed that hands a batch over has its footing in its session. -/
theorem Footing.of_pushing {records : List Record} {last confirmed : Position}
    (h : loop.control = .pushing records last confirmed)
    (hfollows : Follows server c loop.buffer session) : Footing server c stored loop session where
  waits hwaits := (h ▸ hwaits : (Control.pushing records last confirmed).Waits).elim
  opens _ hopening := absurd (h.symm.trans hopening) nofun
  confirms _ hconfirming := absurd (h.symm.trans hconfirming) nofun
  follows _ := hfollows
  closes _ hclosing := absurd (h.symm.trans hclosing) nofun

/-- A feed that closes its session has kept a buffer that groups as it does. -/
theorem Footing.of_closing {outcome : Except FeedFault Unit} (h : loop.control = .closing outcome)
    (hb : loop.buffer.grouped = c.settings.grouped) : Footing server c stored loop session where
  waits hwaits := (h ▸ hwaits : (Control.closing outcome).Waits).elim
  opens _ hopening := absurd (h.symm.trans hopening) nofun
  confirms _ hconfirming := absurd (h.symm.trans hconfirming) nofun
  follows hcontrol := by
    rw [h] at hcontrol
    exact hcontrol.elim False.elim False.elim
  closes _ _ := hb

/-- Nothing is asked of a feed that has ended. -/
theorem Footing.of_finished {result : Except FeedFault Position}
    (h : loop.control = .finished result) : Footing server c stored loop session where
  waits hwaits := (h ▸ hwaits : (Control.finished result).Waits).elim
  opens _ hopening := absurd (h.symm.trans hopening) nofun
  confirms _ hconfirming := absurd (h.symm.trans hconfirming) nofun
  follows hcontrol := by
    rw [h] at hcontrol
    exact hcontrol.elim False.elim False.elim
  closes _ hclosing := absurd (h.symm.trans hclosing) nofun

/-- A feed that starts has its footing. -/
theorem footing_loop (server : SlotServer) (c : FeedContext) (stored : Position)
    (session : Option Session) : Footing server c stored c.loop session :=
  .of_waits trivial rfl nofun

/-- A feed keeps its footing when more is stored or another transaction commits. -/
theorem Footing.still (h : Footing server c stored loop session) (hstored : stored ≤ stored')
    (hfollows : ∀ b, Follows server c b session → Follows server' c b session) :
    Footing server' c stored' loop session where
  waits := h.waits
  opens resume hopening := (h.opens resume hopening).trans hstored
  confirms target htarget := (h.confirms target htarget).trans hstored
  follows hcontrol := hfollows _ (h.follows hcontrol)
  closes := h.closes

/-- A transition that neither opens a session nor brings a message keeps the footing of a feed, if
the feed follows the session where it goes on to read. -/
theorem Footing.moves (h : Footing server c stored loop session)
    (hmoves : loop.Moves c (some durable) event after) (hdurable : durable ≤ stored)
    (hstart : c.start ≤ stored) (hopened : event ≠ .opened (.ok ()))
    (hpolled : ∀ m, event ≠ .polled (.ok (some m)))
    (hfollows : after.control.Reads → Follows server c loop.buffer session →
      Follows server' c loop.buffer session') : Footing server' c stored after session' := by
  have hconfirms (hconfirm : after.ConfirmsDurable (some durable)) (target : Position)
      (htarget : after.control = .confirming target) : target ≤ stored := by
    obtain hnone | hsome := hconfirm target htarget
    · exact absurd hnone nofun
    · exact Option.some.inj hsome ▸ hdurable
  cases hmoves with
  | waits hbefore hafter hresume _ hbuffer _ =>
      refine .of_waits hafter ?_ ?_
      · rw [TransactionBuffer.reset, h.waits hbefore] at hbuffer
        exact hbuffer.elim id id
      · intro resume hopening
        rw [hresume resume hopening]
        exact max_le hdurable hstart
  | opens => exact absurd rfl hopened
  | reads hbefore hafter hconfirm _ hkeeps =>
      refine .of_reads hafter ?_ (hconfirms hconfirm)
      exact hkeeps.2 ▸ hfollows hafter (h.follows (.inl hbefore))
  | leaves _ hbefore hafter _ hkeeps =>
      exact .of_closing hafter (hkeeps.2 ▸ (h.follows (.inl hbefore)).grouped_eq)
  | rejects m | collects m | hands m => exact absurd rfl (hpolled m)
  | publishes _ _ _ hbefore hafter hconfirm _ hbuffer =>
      refine .of_reads hafter ?_ (hconfirms hconfirm)
      exact hbuffer ▸ hfollows hafter (h.follows (.inr (hbefore ▸ trivial)))
  | refused _ _ _ hbefore hafter hkeeps =>
      exact .of_closing hafter (hkeeps.2 ▸ (h.follows (.inr (hbefore ▸ trivial))).grouped_eq)
  | recovers _ _ hbefore hafter _ hbuffer =>
      refine .of_waits (hafter ▸ trivial) ?_ fun _ hopening => ?_
      · rw [hbuffer, TransactionBuffer.reset, h.closes _ hbefore]
      · exact absurd (hafter.symm.trans hopening) nofun
  | ends _ _ hafter => exact .of_finished hafter

/-- Opening a session gives a feed its footing there. -/
theorem Footing.opened (h : Footing server c stored loop session) {resume : Position}
    (hopening : loop.control = .opening resume)
    (hmoves : loop.Moves c (some durable) (.opened (.ok ())) after) {s : Session} {base : Position}
    (hlink : s.link = .live) (hempty : s.log = .empty) (hslot : server'.slot = some base) :
    Footing server' c stored after (some s) := by
  obtain ⟨hafter, hkeeps⟩ := hmoves.opened_facts hopening
  refine .of_reads (hafter ▸ trivial) ?_ fun _ hconfirming => ?_
  · refine ⟨s, base, base, [], [], rfl, hlink, hslot, ?_, ?_⟩
    · rw [hempty]
      exact .empty server' base
    · exact .starts server' base (hkeeps.2.trans (h.waits (hopening ▸ trivial)))
  · exact absurd (hafter.symm.trans hconfirming) nofun

/-- Receiving a message keeps the footing of a feed. -/
theorem Footing.polled (hframed : ∀ t ∈ server.committed, t.IsFramed c.plugin ∧ t.HasRowsBefore)
    (hdurable : durable ≤ stored) {m : Message} {confirmed : Position}
    (hpolling : loop.control = .polling confirmed)
    (hmoves : loop.Moves c (some durable) (.polled (.ok (some m))) after) {s : Session}
    {base slot : Position} {returned held : List Message} (hlink : s.link = .live)
    (hslot : server.slot = some slot)
    (hagrees : s.log.Agrees server base slot (returned ++ [m]) held)
    (hmidway : Midway server c base returned loop.buffer) :
    Footing server c stored after (some s) := by
  have hfollows {out : Option Batch} (hreceive : c.receive loop m = .ok (after.buffer, out)) :
      Follows server c after.buffer (some s) :=
    ⟨s, base, slot, _, held, rfl, hlink, hslot, hagrees,
      (hmidway.receives hframed hagrees.returned_prefix hreceive).1⟩
  rcases hmoves.polled_cases hpolling with ⟨fault, -, hafter, hkeeps⟩ |
    ⟨hreceive, hafter, hconfirm, -⟩ | ⟨batch, hreceive, hafter, -⟩
  · exact .of_closing hafter (hkeeps.2 ▸ hmidway.grouped_eq)
  · refine .of_reads hafter (hfollows hreceive) fun target htarget => ?_
    obtain hnone | hsome := hconfirm target htarget
    · exact absurd hnone nofun
    · exact Option.some.inj hsome ▸ hdurable
  · exact .of_pushing hafter (hfollows hreceive)

end Feed

end ChangeFeed
