import ChangeFeed.Proofs.Feed.Coverage
import ChangeFeed.Proofs.Feed.Trail
import ChangeFeed.Proofs.Session.Delivery

/-!
# A feed over many sessions

A feed opens sessions one after the other, each at a position that is stored, and reads it from
there. `Feed.OnTrack` is what holds of the feed at every moment: what it has pushed is in order, it
is abreast of its session, and what it opens and confirms is stored. The lemmas say how the three
kinds of exchange with the server keep this: opening a session (`OnTrack.opened`), receiving a
message (`OnTrack.polled`), and all that brings no message (`OnTrack.moves`).
-/

namespace ChangeFeed

open LoggedTransaction

namespace Feed

section

variable (server : SlotServer) (c : FeedContext) (delivered : LoggedTransaction → Prop)

/-- A feed has a live session whose log agrees with the slot, and is abreast of it. -/
def Attends (trail : List Happening) (b : TransactionBuffer) (session : Option Session) : Prop :=
  ∃ s base slot held, session = some s ∧ s.link = .live ∧ server.slot = some slot ∧
    s.log.Agrees server base slot (Trail.session trail) held ∧
    Abreast server c delivered base (Trail.pushed trail) (Trail.session trail) b

/-- What holds at the control points of a feed when a position is stored. -/
structure Standing (stored : Position) (trail : List Happening) (b : TransactionBuffer)
    (session : Option Session) (control : Control) : Prop where
  waits : control.Waits → b = ⟨c.settings.grouped, none⟩
  opens : ∀ resume, control = .opening resume → resume ≤ stored
  attends : control.Reads ∨ IsPushing control → Attends server c delivered trail b session
  confirms : ∀ target, control = .confirming target → target ≤ stored
  hands : ∀ records last confirmed, control = .pushing records last confirmed →
    c.settings.grouped = true → server.UpTo (IsGiven c delivered (Trail.pushed trail)) last
  closes : ∀ outcome, control = .closing outcome → b.grouped = c.settings.grouped

/-- What holds of a feed at every moment when a position is stored. -/
structure OnTrack (stored : Position) (f : Feed) (session : Option Session) : Prop where
  sends : f.Sends ∨ f.Breaks
  in_order : InOrder server c delivered (Trail.pushed f.trail)
  position_given : c.settings.grouped = true →
    server.UpTo (IsGiven c delivered (Trail.pushed f.trail)) f.loop.position
  start_given : server.UpTo delivered c.start
  start_le : c.start ≤ stored
  durable_le : ∃ d, f.durable = some d ∧ d ≤ stored
  standing : Standing server c delivered stored f.trail f.loop.buffer session f.loop.control

end

variable {server server' : SlotServer} {c : FeedContext} {delivered : LoggedTransaction → Prop}
  {stored stored' : Position} {trail trail' : List Happening} {b : TransactionBuffer}
  {session session' : Option Session} {control : Control}

/-- Attending a session depends on what was pushed and on what the session has given. -/
theorem Attends.congr (h : Attends server c delivered trail b session)
    (hpushed : Trail.pushed trail' = Trail.pushed trail)
    (hsession : Trail.session trail' = Trail.session trail) :
    Attends server c delivered trail' b session := by
  unfold Attends
  rw [hpushed, hsession]
  exact h

/-- The buffer of a feed that attends a session groups as the feed does. -/
theorem Attends.grouped (h : Attends server c delivered trail b session) :
    b.grouped = c.settings.grouped := by
  obtain ⟨_, _, _, _, -, -, -, -, habreast⟩ := h
  obtain ⟨_, _, _, _, -, -, -, -, hcursor, -⟩ := habreast.cut
  exact hcursor.grouped_eq

/-- A feed goes on attending its session on a server with the same log and slot. -/
theorem Attends.same_log (h : Attends server c delivered trail b session)
    (hlog : server.SameLog server') (hslot : server'.slot = server.slot) :
    Attends server' c delivered trail b session := by
  obtain ⟨s, base, slot, held, hsome, hlink, hat, hagrees, habreast⟩ := h
  exact ⟨s, base, slot, held, hsome, hlink, hslot.trans hat, hagrees.same_log hlog,
    habreast.same_log hlog⟩

/-- What holds at the control point before a session. -/
theorem Standing.of_waits (h : control.Waits) (hb : b = ⟨c.settings.grouped, none⟩)
    (hopens : ∀ resume, control = .opening resume → resume ≤ stored) :
    Standing server c delivered stored trail b session control := by
  cases control <;> first
    | exact h.elim
    | exact ⟨fun _ => hb, hopens, fun h => h.elim False.elim False.elim, by simp, by simp, by simp⟩

/-- What holds at the control points of a session that brings no batch. -/
theorem Standing.of_reads (h : control.Reads)
    (hattends : Attends server c delivered trail b session)
    (hconfirms : ∀ target, control = .confirming target → target ≤ stored) :
    Standing server c delivered stored trail b session control := by
  cases control <;> first
    | exact h.elim
    | exact ⟨False.elim, by simp, fun _ => hattends, hconfirms, by simp, by simp⟩

/-- What holds while a batch is handed over. -/
theorem Standing.of_pushing {records : List Record} {last confirmed : Position}
    (hattends : Attends server c delivered trail b session)
    (hlast : c.settings.grouped = true →
      server.UpTo (IsGiven c delivered (Trail.pushed trail)) last) :
    Standing server c delivered stored trail b session (.pushing records last confirmed) where
  waits h := h.elim
  opens _ h := absurd h (by simp)
  attends _ := hattends
  confirms _ h := absurd h (by simp)
  hands _ _ _ h hgrouped := by
    obtain ⟨-, rfl, -⟩ := Control.pushing.inj h
    exact hlast hgrouped
  closes _ h := absurd h (by simp)

/-- What holds when a feed leaves its session. -/
theorem Standing.of_closing (outcome : Except FeedFault Unit)
    (hb : b.grouped = c.settings.grouped) :
    Standing server c delivered stored trail b session (.closing outcome) :=
  ⟨False.elim, by simp, fun h => h.elim False.elim False.elim, by simp, by simp, fun _ _ => hb⟩

/-- Nothing is asked of a feed that has ended. -/
theorem Standing.of_finished (result : Except FeedFault Position) :
    Standing server c delivered stored trail b session (.finished result) :=
  ⟨False.elim, by simp, fun h => h.elim False.elim False.elim, by simp, by simp, by simp⟩

variable {f : Feed} {event : LoopEvent} {after : Loop}

/-- The next session goes on from what is stored. -/
theorem OnTrack.resume_le (h : OnTrack server c delivered stored f session) :
    c.resume f.durable f.loop ≤ stored := by
  obtain ⟨d, hdurable, hd⟩ := h.durable_le
  rw [hdurable]
  exact max_le hd h.start_le

/-- What the feed is about to confirm is stored. -/
theorem OnTrack.confirm_le (h : OnTrack server c delivered stored f session)
    (hconfirm : after.ConfirmsDurable f.durable) {target : Position}
    (htarget : after.control = .confirming target) : target ≤ stored := by
  obtain ⟨d, hdurable, hd⟩ := h.durable_le
  rcases hconfirm target htarget with hnone | hsome
  · exact absurd (hdurable.symm.trans hnone) (by simp)
  · exact Option.some.inj (hdurable.symm.trans hsome) ▸ hd

/-! ## Moves of the loop -/

/-- A feed that goes on reading without an exchange has attended its session before. -/
theorem OnTrack.attends_of_moves (h : OnTrack server c delivered stored f session)
    (hmoves : f.loop.Moves c f.durable event after) (hopened : event ≠ .opened (.ok ()))
    (hreads : after.control.Reads) :
    Attends server c delivered f.trail f.loop.buffer session := by
  refine h.standing.attends ((hmoves.reads_before hopened hreads).imp_right ?_)
  rintro ⟨records, last, confirmed, hpushing⟩
  exact hpushing ▸ trivial

/-- A transition that neither opens a session nor brings a message keeps a feed on track. The
server may have done something meanwhile and the session may have changed, as long as the feed
attends it where it goes on to read. -/
theorem OnTrack.moves (h : OnTrack server c delivered stored f session)
    (hlog : server.SameLog server') (hmoves : f.loop.Moves c f.durable event after)
    (hhears : f.Hears event) (hopened : event ≠ .opened (.ok ()))
    (hpolled : ∀ m, event ≠ .polled (.ok (some m)))
    (hattends : after.control.Reads →
      Attends server' c delivered f.trail f.loop.buffer session') :
    OnTrack server' c delivered stored (f.advance event after) session' := by
  have hsends := sends_or_breaks_of_moves hmoves hhears h.sends
  have hup {P : LoggedTransaction → Prop} {q : Position} (hq : server.UpTo P q) :
      server'.UpTo P q := hq.same_log hlog
  have horder := h.in_order.of_up_to fun _ _ => hup
  have hposition (hgrouped : c.settings.grouped = true) := hup (h.position_given hgrouped)
  have hstart := hup h.start_given
  cases hmoves with
  | waits hbefore hafter hresume hposition' hbuffer hevent =>
      rw [advance_waits hbefore hafter hevent] at hsends ⊢
      have hb : after.buffer = ⟨c.settings.grouped, none⟩ := by
        rw [TransactionBuffer.reset, h.standing.waits hbefore] at hbuffer
        exact hbuffer.elim id id
      refine ⟨hsends, horder, hposition' ▸ hposition, hstart, h.start_le, h.durable_le,
        .of_waits hafter hb ?_⟩
      intro resume hopening
      rw [hresume resume hopening]
      exact h.resume_le
  | opens resume hbefore hafter hkeeps => exact absurd rfl hopened
  | reads hbefore hafter hconfirm hevent hkeeps =>
      rw [advance_reads hbefore hafter hevent] at hsends ⊢
      refine ⟨hsends, horder, hkeeps.1 ▸ hposition, hstart, h.start_le,
        h.durable_le, .of_reads hafter (hkeeps.2 ▸ hattends hafter) ?_⟩
      intro target htarget
      exact h.confirm_le hconfirm htarget
  | leaves outcome hbefore hafter hevent hkeeps =>
      rw [advance_leaves hbefore hafter hevent] at hsends ⊢
      have hb := (h.standing.attends (.inl hbefore)).grouped
      exact ⟨hsends, horder, hkeeps.1 ▸ hposition, hstart, h.start_le, h.durable_le,
        hafter ▸ .of_closing outcome (hkeeps.2 ▸ hb)⟩
  | rejects m fault confirmed hbefore hreceive hafter hkeeps => exact absurd rfl (hpolled m)
  | collects m buffer confirmed hbefore hreceive hafter hconfirm hposition' hbuffer =>
      exact absurd rfl (hpolled m)
  | hands m buffer batch confirmed hbefore hreceive hafter hposition' hbuffer =>
      exact absurd rfl (hpolled m)
  | publishes records last confirmed hbefore hafter hconfirm hposition' hbuffer =>
      rw [advance_publishes hbefore hafter] at hsends ⊢
      have hpushed : Trail.pushed (f.trail ++ [.published after.position f.channel.buffered]) =
          Trail.pushed f.trail := by simp [Trail.pushed]
      refine ⟨hsends, hpushed.symm ▸ horder, ?_, hstart, h.start_le,
        h.durable_le, .of_reads hafter ?_ fun target htarget => h.confirm_le hconfirm htarget⟩
      · -- Both the old position and the end of the batch are ones up to which all is given out.
        intro hgrouped
        rw [hpushed, hposition']
        exact (hposition hgrouped).to_max (hup (h.standing.hands _ _ _ hbefore hgrouped))
      · rw [hbuffer]
        exact (hattends hafter).congr hpushed (by simp)
  | refused records last confirmed hbefore hafter hkeeps =>
      rw [advance_refused hbefore hafter] at hsends ⊢
      have hb := (h.standing.attends (.inr (hbefore ▸ trivial))).grouped
      exact ⟨hsends, horder, hkeeps.1 ▸ hposition, hstart, h.start_le, h.durable_le,
        hafter ▸ .of_closing _ (hkeeps.2 ▸ hb)⟩
  | recovers fault closed hbefore hafter hposition' hbuffer =>
      rw [advance_recovers hbefore hafter] at hsends ⊢
      have hb : after.buffer = ⟨c.settings.grouped, none⟩ := by
        rw [hbuffer, TransactionBuffer.reset, h.standing.closes _ hbefore]
      refine ⟨hsends, horder, hposition' ▸ hposition, hstart, h.start_le, h.durable_le,
        .of_waits (hafter ▸ trivial) hb ?_⟩
      intro resume hopening
      exact absurd (hafter.symm.trans hopening) (by simp)
  | ends result hbefore hafter hposition' hevent =>
      rw [advance_ends hbefore hafter hevent] at hsends ⊢
      exact ⟨hsends, horder, hposition' ▸ hposition, hstart, h.start_le, h.durable_le,
        hafter ▸ .of_finished result⟩

/-- Opening a session at what is stored keeps a feed on track. -/
theorem OnTrack.opened (h : OnTrack server c delivered stored f session)
    (hlog : server.SameLog server') {resume : Position}
    (hopening : f.loop.control = .opening resume)
    (hmoves : f.loop.Moves c f.durable (.opened (.ok ())) after) {s : Session} {base : Position}
    (hlink : s.link = .live) (hempty : s.log = .empty) (hslot : server'.slot = some base)
    (horigin : server'.origin ≤ base)
    (hbase : server'.UpTo (IsGiven c delivered (Trail.pushed f.trail)) base) :
    OnTrack server' c delivered stored (f.advance (.opened (.ok ())) after) (some s) := by
  have hhears : f.Hears (.opened (.ok ())) := fun _ heq => absurd heq (by simp)
  have hsends := sends_or_breaks_of_moves hmoves hhears h.sends
  have hup {P : LoggedTransaction → Prop} {q : Position} (hq : server.UpTo P q) :
      server'.UpTo P q := hq.same_log hlog
  obtain ⟨hafter, hkeeps⟩ := hmoves.opened_facts hopening
  rw [advance_opens hopening hafter] at hsends ⊢
  have hpushed : Trail.pushed (f.trail ++ [.opened resume]) = Trail.pushed f.trail := by
    simp [Trail.pushed]
  have hb := h.standing.waits (hopening ▸ trivial)
  refine ⟨hsends, hpushed.symm ▸ h.in_order.of_up_to fun _ _ => hup, ?_,
    hup h.start_given, h.start_le, h.durable_le, hafter ▸ .of_reads trivial ?_ (by simp)⟩
  · intro hgrouped
    rw [hpushed, hkeeps.1]
    exact hup (h.position_given hgrouped)
  · refine ⟨s, base, base, [], rfl, hlink, hslot, ?_, ?_⟩
    · rw [Trail.session_opened, hempty]
      exact .empty server' base
    · rw [Trail.session_opened]
      exact .starts horigin (hpushed.symm ▸ hbase) (hkeeps.2.trans hb)

/-- Receiving a message of the session keeps a feed on track. -/
theorem OnTrack.polled (hframed : ∀ t ∈ server.committed, t.IsFramed c.plugin ∧ t.HasRowsBefore)
    (h : OnTrack server c delivered stored f session) {m : Message} {confirmed : Position}
    (hpolling : f.loop.control = .polling confirmed)
    (hmoves : f.loop.Moves c f.durable (.polled (.ok (some m))) after) {s : Session}
    {base slot : Position} {held : List Message} (hlink : s.link = .live)
    (hslot : server.slot = some slot)
    (hagrees : s.log.Agrees server base slot (Trail.session f.trail ++ [m]) held)
    (habreast : Abreast server c delivered base (Trail.pushed f.trail) (Trail.session f.trail)
      f.loop.buffer) :
    OnTrack server c delivered stored (f.advance (.polled (.ok (some m))) after) (some s) := by
  have hhears : f.Hears (.polled (.ok (some m))) := fun _ heq => absurd heq (by simp)
  have hsends := sends_or_breaks_of_moves hmoves hhears h.sends
  have hpushed : Trail.pushed (f.trail ++ [.polled m]) = Trail.pushed f.trail := by
    simp [Trail.pushed]
  rcases hmoves.polled_cases hpolling with ⟨fault, -, hafter, hkeeps⟩ |
    ⟨hreceive, hafter, hconfirm, hposition⟩ | ⟨batch, hreceive, hafter, hposition⟩
  · rw [advance_rejects hpolling hafter] at hsends ⊢
    have hb := (h.standing.attends (.inl (hpolling ▸ trivial))).grouped
    refine ⟨hsends, hpushed.symm ▸ h.in_order, ?_, h.start_given, h.start_le, h.durable_le,
      hafter ▸ .of_closing _ (hkeeps.2 ▸ hb)⟩
    rw [hpushed, hkeeps.1]
    exact h.position_given
  · rw [advance_collects hpolling hafter] at hsends ⊢
    rcases habreast.receives hframed hagrees.returned_prefix h.position_given hreceive with
      ⟨-, hon⟩ | ⟨batch, hbatch, -⟩
    · refine ⟨hsends, hpushed.symm ▸ h.in_order, ?_, h.start_given, h.start_le, h.durable_le,
        .of_reads hafter ?_ fun target htarget => h.confirm_le hconfirm htarget⟩
      · rw [hpushed, hposition]
        exact h.position_given
      · rw [Attends, Trail.session_polled, hpushed]
        exact ⟨s, base, slot, held, rfl, hlink, hslot, hagrees, hon⟩
    · exact absurd hbatch (by simp)
  · rw [advance_hands hpolling hafter] at hsends ⊢
    have hpushed' : Trail.pushed (f.trail ++ [.polled m] ++ [.pushed batch.records]) =
        Trail.pushed f.trail ++ batch.records := by simp [Trail.pushed]
    rcases habreast.receives hframed hagrees.returned_prefix h.position_given hreceive with
      ⟨hnone, -⟩ | ⟨batch', heq, hon, horder, hlast⟩
    · exact absurd hnone (by simp)
    · obtain rfl := Option.some.inj heq
      refine ⟨hsends, hpushed'.symm ▸ h.in_order.append horder, ?_, h.start_given, h.start_le,
        h.durable_le, hafter ▸ .of_pushing ?_ (hpushed'.symm ▸ hlast)⟩
      · intro hgrouped
        rw [hpushed', hposition]
        exact (h.position_given hgrouped).imp fun _ ht =>
          ht.sublist (List.sublist_append_left _ _)
      · rw [Attends, Trail.session_pushed, Trail.session_polled, hpushed']
        exact ⟨s, base, slot, held, rfl, hlink, hslot, hagrees, hon⟩

/-! ## Moves of the others -/

/-- What holds at a control point holds when more is stored and nothing is pushed or told. -/
theorem Standing.still (h : Standing server c delivered stored trail b session control)
    (hpushed : Trail.pushed trail' = Trail.pushed trail)
    (hsession : Trail.session trail' = Trail.session trail) (hstored : stored ≤ stored') :
    Standing server c delivered stored' trail' b session control where
  waits := h.waits
  opens resume hopening := (h.opens resume hopening).trans hstored
  attends hcontrol := (h.attends hcontrol).congr hpushed hsession
  confirms target htarget := (h.confirms target htarget).trans hstored
  hands := by
    rw [hpushed]
    exact h.hands
  closes := h.closes

/-- What happens to the channel and what is stored keep a feed on track. -/
theorem OnTrack.still {g : Feed} (h : OnTrack server c delivered stored f session)
    (hloop : g.loop.control = f.loop.control ∧ f.loop.Keeps g.loop)
    (hpushed : Trail.pushed g.trail = Trail.pushed f.trail)
    (hsession : Trail.session g.trail = Trail.session f.trail)
    (hsends : g.Sends ∨ g.Breaks) (hstored : stored ≤ stored')
    (hdurable : ∃ d, g.durable = some d ∧ d ≤ stored') :
    OnTrack server c delivered stored' g session where
  sends := hsends
  in_order := hpushed.symm ▸ h.in_order
  position_given := by
    rw [hpushed, hloop.2.1]
    exact h.position_given
  start_given := h.start_given
  start_le := h.start_le.trans hstored
  durable_le := hdurable
  standing := by
    rw [hloop.1, hloop.2.2]
    exact h.standing.still hpushed hsession hstored

/-- A feed stays on track on another server where the same is had up to the same positions and
the feed attends the same sessions. -/
theorem OnTrack.of_server (h : OnTrack server c delivered stored f session)
    (hup : ∀ P q, server.UpTo P q → server'.UpTo P q)
    (hattends : Attends server c delivered f.trail f.loop.buffer session →
      Attends server' c delivered f.trail f.loop.buffer session) :
    OnTrack server' c delivered stored f session where
  sends := h.sends
  in_order := h.in_order.of_up_to hup
  position_given hgrouped := hup _ _ (h.position_given hgrouped)
  start_given := hup _ _ h.start_given
  start_le := h.start_le
  durable_le := h.durable_le
  standing := {
    waits := h.standing.waits
    opens := h.standing.opens
    attends := fun hcontrol => hattends (h.standing.attends hcontrol)
    confirms := h.standing.confirms
    hands := fun records last confirmed hcontrol hgrouped =>
      hup _ _ (h.standing.hands records last confirmed hcontrol hgrouped)
    closes := h.standing.closes }

/-- A feed stays on track on a server with the same log and slot. -/
theorem OnTrack.same_log (h : OnTrack server c delivered stored f session)
    (hlog : server.SameLog server') (hslot : server'.slot = server.slot) :
    OnTrack server' c delivered stored f session :=
  h.of_server (fun _ _ hq => hq.same_log hlog) fun hattends => hattends.same_log hlog hslot

/-- Another commit at the server keeps a feed on track. -/
theorem OnTrack.commit (h : OnTrack server c delivered stored f session) (t : LoggedTransaction) :
    OnTrack (server.commit t) c delivered stored f session := by
  refine h.of_server (fun _ _ hq => hq.commit t) ?_
  rintro ⟨s, base, slot, held, hsome, hlink, hslot, hagrees, habreast⟩
  exact ⟨s, base, slot, held, hsome, hlink, (server.commit_slot t).trans hslot, hagrees.commit t,
    habreast.commit t⟩

/-- A feed that starts at what is stored is on track. -/
theorem on_track_feed (c : FeedContext) (capacity : Nat)
    (hstart : server.UpTo delivered c.start) :
    OnTrack server c delivered c.start (c.feed capacity (some c.start)) none where
  sends := .inl (sends_feed c capacity _)
  in_order before r after h := absurd h (by simp [FeedContext.feed, Trail.pushed])
  position_given _ := hstart.imp fun _ ht => .inl ht
  start_given := hstart
  start_le := le_refl _
  durable_le := ⟨c.start, rfl, le_refl _⟩
  standing := .of_waits trivial rfl fun _ h =>
    absurd h (by simp [FeedContext.feed, FeedContext.loop])

end Feed

end ChangeFeed
