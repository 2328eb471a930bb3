import ChangeFeed.Proofs.Feed.Trail

/-!
# Whole transactions

What a feed that groups pushes is whole. `Feed.delivers_whole` says of every run, whatever the
sessions give: a batch is a mark of progress or all that one session told of a transaction; a
transaction with a message that cannot be read or a change that cannot be converted is not pushed;
and a position is published when its batch is in the channel, each time a greater one.
-/

namespace ChangeFeed

/-- What becomes of records, and nothing that the feed does. -/
def Happening.IsOfChannel : Happening → Prop
  | .received _ => True
  | .dropped _ => True
  | _ => False

/-- The greatest position of records. -/
def EndsAt (records : List Record) (position : Position) : Prop :=
  (∃ r ∈ records, r.position = position) ∧ ∀ r ∈ records, r.position ≤ position

/-- Records end where their events end. -/
theorem ends_at_of_convert {c : Converter} {events : List Event} {records : List Record}
    (h : c.convertAll events = .ok records) (hevents : events ≠ []) (p : Position) :
    EndsAt records (FeedContext.lastPosition events p) := by
  obtain ⟨e, rest, rfl⟩ := List.exists_cons_of_ne_nil hevents
  obtain ⟨⟨x, hx, hreached⟩, hall⟩ := FeedContext.last_position_of_cons e rest p
  refine ⟨?_, ?_⟩
  · obtain ⟨r, hr, hconvert⟩ := Converter.exists_record_of_mem h hx
    exact ⟨r, hr, (Converter.convert_position hconvert).trans hreached⟩
  · intro r hr
    obtain ⟨y, hy, hconvert⟩ := Converter.exists_event_of_mem h hr
    rw [Converter.convert_position hconvert]
    exact hall y hy

/-! ## Batches of a session -/

/-- A whole batch of a session: a mark of progress that stands alone, or the records of the
transaction that the session told last. The changes are converted in order, the end of the
transaction follows, and all data records carry its number. -/
inductive FeedContext.IsWhole (c : FeedContext) (session : List Message) : List Record → Prop
  | mark (before : List Message) (m : Message) (hsession : session = before ++ [m])
      (hm : c.plugin.Reads m (.placeholder m.position)) :
      IsWhole c session [.placeholder m.position]
  | transaction (before : List Message) (t : ToldTransaction c.plugin) (contents : List Record)
      (hsession : session = before ++ t.messages)
      (hcontents : c.converter.convertAll t.changes = .ok contents)
      (hnumber : ∀ d, .data d ∈ contents → d.csn = t.number) :
      IsWhole c session (contents ++
        [.transaction ⟨t.xid.or t.content.xid, t.number, t.time, t.closing.position⟩])

/-- What a buffer holds is what the session told last. -/
def TransactionBuffer.Holds (plugin : Plugin) (session : List Message) (b : TransactionBuffer) :
    Prop :=
  ∀ t, b.current = some t → ∃ before told, session = before ++ told ∧ TellsOpen plugin told t

/-- A batch that is complete is the only one that the session can have told last. -/
theorem FeedContext.IsWhole.converted {c : FeedContext} {session before : List Message}
    {records : List Record} (h : c.IsWhole session records) {t : ToldTransaction c.plugin}
    (hsession : session = before ++ t.messages) :
    ∃ contents, c.converter.convertAll t.changes = .ok contents := by
  cases h with
  | mark before' m hmark hm =>
      rw [hmark, ToldTransaction.messages, ← List.append_assoc] at hsession
      obtain rfl := List.singleton_inj.mp (List.append_inj' hsession rfl).2
      exact absurd (hm.unique t.closes) (by simp)
  | transaction before' u contents hwhole hcontents hnumber =>
      obtain rfl : u = t := ToldTransaction.unique (hwhole.symm.trans hsession)
      exact ⟨contents, hcontents⟩

namespace FeedContext

variable {c : FeedContext} {position : Position} {m : Message} {b after : TransactionBuffer}
  {out : Option Batch} {session : List Message}

/-- A buffer goes on holding what the session told last. -/
theorem Receives.holds_after (h : c.Receives position m b after out)
    (hholds : b.Holds c.plugin session) : after.Holds c.plugin (session ++ [m]) := by
  have hoffered {e : Event} {given : Option (List Event)} (hm : c.plugin.Reads m e)
      (hoffer : b.Offers e after given) : after.Holds c.plugin (session ++ [m]) := by
    intro t ht
    cases hoffer with
    | opens p xid csn =>
        obtain rfl := Option.some.inj ht
        obtain rfl : p = m.position := hm.position_eq
        exact ⟨session, [m], rfl, ⟨m, [], rfl, hm, .nil⟩, by simp⟩
    | passes p => exact absurd ht (by simp)
    | adds u e he =>
        obtain rfl := Option.some.inj ht
        obtain ⟨before, told, rfl, htells⟩ := hholds u rfl
        exact ⟨before, told ++ [m], by simp, htells.add hm he⟩
    | closes u p xid csn time => exact absurd ht (by simp)
  cases h with
  | holds hm hoffer => exact hoffered hm hoffer
  | skips hm hoffer hle => exact hoffered hm hoffer
  | gives hm hoffer hlt hconvert => exact hoffered hm hoffer

/-- A batch that is given out is whole, ends at its position, and that is a new one. -/
theorem Receives.whole_batch {batch : Batch} (h : c.Receives position m b after (some batch))
    (hholds : b.Holds c.plugin session) :
    c.IsWhole (session ++ [m]) batch.records ∧ EndsAt batch.records batch.last ∧
      position < batch.last := by
  cases h with
  | gives hm hoffer hlt hconvert =>
      cases hoffer with
      | passes p =>
          obtain rfl : p = m.position := hm.position_eq
          refine ⟨?_, ends_at_of_convert hconvert (by simp) m.position, hlt⟩
          obtain ⟨r, hr, rfl⟩ := Converter.convert_all_singleton.mp hconvert
          obtain rfl := Except.ok.inj hr
          exact .mark session m rfl hm
      | closes u p xid csn time =>
          obtain rfl : p = m.position := hm.position_eq
          obtain ⟨before, told, rfl, htells⟩ := hholds u rfl
          obtain ⟨t, hmessages, hbatch⟩ := ToldTransaction.of_tells_open htells hm
          refine ⟨?_, ends_at_of_convert hconvert (by simp [OpenTransaction.commit]) m.position,
            hlt⟩
          rw [← hbatch] at hconvert
          obtain ⟨contents, hcontents, heq⟩ := ToldTransaction.convert_batch.mp hconvert
          dsimp only
          rw [heq]
          refine .transaction before t contents (by rw [hmessages, List.append_assoc]) hcontents ?_
          intro d hd
          exact ToldTransaction.csn_of_mem_records hconvert (heq ▸ List.mem_append_left _ hd)

/-- A failure of the session is no reason to reject a message. -/
theorem reads_of_session_fault {loop : Loop} {fault : SessionFault}
    (h : c.receive loop m = .error (.session fault)) : ∃ e, c.plugin.Reads m e := by
  cases hdecode : c.plugin.decode m.position m.data with
  | ok e => exact ⟨e, hdecode⟩
  | error e =>
      simp [receive, hdecode, bind, Except.bind] at h

end FeedContext

/-! ## What may come next on a trail -/

/-- All messages on a trail can be read. -/
def Trail.AllRead (plugin : Plugin) (trail : List Happening) : Prop :=
  ∀ m, .polled m ∈ trail → ∃ e, plugin.Reads m e

/-- The last batch of a trail, whose push nothing but the channel has followed. -/
def Trail.LastPushed (trail : List Happening) (records : List Record) : Prop :=
  ∃ earlier between, trail = earlier ++ .pushed records :: between ∧
    ∀ h ∈ between, h.IsOfChannel

/-- What a feed that groups may do next. -/
def Trail.Allows (c : FeedContext) (trail : List Happening) : Happening → Prop
  | .opened _ => AllRead c.plugin trail
  | .polled _ => AllRead c.plugin trail
  | .pushed records => AllRead c.plugin trail ∧
    (∃ earlier m, trail = earlier ++ [.polled m]) ∧ c.IsWhole (session trail) records
  | .published position buffered => AllRead c.plugin trail ∧
    (∀ p ∈ c.start :: published trail, p < position) ∧
    (∃ records, LastPushed trail records ∧ EndsAt records position) ∧
    pushed trail = taken trail ++ buffered
  | .received _ => True
  | .dropped _ => True

/-- Everything on a trail was allowed. -/
def Trail.Allowed (c : FeedContext) (trail : List Happening) : Prop :=
  ∀ before h after, trail = before ++ h :: after → Allows c before h

namespace Trail

variable {c : FeedContext} {trail : List Happening}

/-- Nothing is allowed on an empty trail. -/
theorem Allowed.nil : Allowed c [] := by
  intro before h after heq
  exact absurd heq.symm (by simp)

/-- A trail goes on with what it allows. -/
theorem Allowed.concat {h : Happening} (hallowed : Allowed c trail) (hnext : Allows c trail h) :
    Allowed c (trail ++ [h]) := by
  intro before x after heq
  rcases List.eq_nil_or_concat after with rfl | ⟨after, y, rfl⟩
  · obtain ⟨rfl, hx⟩ := List.append_inj' heq rfl
    obtain rfl := List.singleton_inj.mp hx
    exact hnext
  · have hsplit : trail ++ [h] = (before ++ x :: after) ++ [y] := by simpa using heq
    exact hallowed before x after (List.append_inj' hsplit rfl).1

/-- A message that can be read keeps a trail readable. -/
theorem AllRead.polled {plugin : Plugin} {m : Message} {e : Event} (h : AllRead plugin trail)
    (hm : plugin.Reads m e) : AllRead plugin (trail ++ [.polled m]) := by
  intro n hn
  rcases List.mem_append.mp hn with hn | hn
  · exact h n hn
  · obtain rfl := Happening.polled.inj (List.mem_singleton.mp hn)
    exact ⟨e, hm⟩

/-- What is no message keeps a trail readable. -/
theorem AllRead.other {plugin : Plugin} {h : Happening} (hread : AllRead plugin trail)
    (hother : ∀ m, h ≠ .polled m) : AllRead plugin (trail ++ [h]) := by
  intro n hn
  rcases List.mem_append.mp hn with hn | hn
  · exact hread n hn
  · exact absurd (List.mem_singleton.mp hn).symm (hother n)

/-- What is of the channel leaves the last push the last one. -/
theorem LastPushed.channel {records : List Record} {h : Happening}
    (hlast : LastPushed trail records) (hchannel : h.IsOfChannel) :
    LastPushed (trail ++ [h]) records := by
  obtain ⟨earlier, between, rfl, hbetween⟩ := hlast
  refine ⟨earlier, between ++ [h], by simp, ?_⟩
  intro x hx
  rcases List.mem_append.mp hx with hx | hx
  · exact hbetween x hx
  · exact List.mem_singleton.mp hx ▸ hchannel

/-- What is of the channel changes nothing of what the session gave. -/
theorem session_channel {h : Happening} (hchannel : h.IsOfChannel) :
    session (trail ++ [h]) = session trail := by
  cases h <;> first | exact hchannel.elim | simp

/-- What is of the channel publishes nothing. -/
theorem published_channel {h : Happening} (hchannel : h.IsOfChannel) :
    published (trail ++ [h]) = published trail := by
  cases h <;> first | exact hchannel.elim | simp [published]

end Trail

/-! ## The invariant -/

namespace Feed

/-- What holds at a control point of a feed that groups: all messages can be read, the buffer
holds what the session told last, and a batch that is handed over is the one pushed last and ends
behind the position. A feed that will not go on has nothing to keep. -/
def Stage (c : FeedContext) (trail : List Happening) (position : Position)
    (b : TransactionBuffer) : Control → Prop
  | .pushing records last _ => Trail.AllRead c.plugin trail ∧ b.grouped = true ∧
    b.Holds c.plugin (Trail.session trail) ∧ Trail.LastPushed trail records ∧
    EndsAt records last ∧ position < last
  | .closing (.error (.session _)) => Trail.AllRead c.plugin trail ∧ b.grouped = true
  | .closing _ => True
  | .finished _ => True
  | control => Trail.AllRead c.plugin trail ∧ b.grouped = true ∧
    b.Holds c.plugin (Trail.session trail) ∧ (control.Waits → b.current = none)

variable {c : FeedContext} {trail : List Happening} {position : Position} {b : TransactionBuffer}
  {control : Control}

/-- What holds while the loop reads. -/
theorem stage_reads (h : control.Reads) : Stage c trail position b control ↔
    Trail.AllRead c.plugin trail ∧ b.grouped = true ∧ b.Holds c.plugin (Trail.session trail) := by
  cases control <;> first | exact h.elim | simp [Stage, Control.Waits]

/-- What holds while the loop has no session. -/
theorem stage_waits (h : control.Waits) : Stage c trail position b control ↔
    Trail.AllRead c.plugin trail ∧ b.grouped = true ∧ b.current = none := by
  have hholds : b.current = none → b.Holds c.plugin (Trail.session trail) :=
    fun hnone t ht => absurd (hnone.symm.trans ht) (by simp)
  cases control <;> first | exact h.elim | (simp [Stage, Control.Waits]; tauto)

/-- What becomes of records changes nothing at a control point. -/
theorem stage_channel {h : Happening} (hchannel : h.IsOfChannel)
    (hstage : Stage c trail position b control) :
    Stage c (trail ++ [h]) position b control := by
  have hread (hread : Trail.AllRead c.plugin trail) : Trail.AllRead c.plugin (trail ++ [h]) :=
    hread.other fun m heq => (heq ▸ hchannel : (Happening.polled m).IsOfChannel).elim
  have hsession : Trail.session (trail ++ [h]) = Trail.session trail :=
    Trail.session_channel hchannel
  by_cases hreads : control.Reads
  · rw [stage_reads hreads] at hstage ⊢
    rw [hsession]
    exact ⟨hread hstage.1, hstage.2⟩
  by_cases hwaits : control.Waits
  · rw [stage_waits hwaits] at hstage ⊢
    exact ⟨hread hstage.1, hstage.2⟩
  cases control with
  | pushing records last confirmed =>
      obtain ⟨hall, hgrouped, hholds, hlast, hends⟩ := hstage
      exact ⟨hread hall, hgrouped, hsession.symm ▸ hholds, hlast.channel hchannel, hends⟩
  | closing outcome =>
      cases outcome with
      | ok _ => trivial
      | error fault =>
          cases fault with
          | session fault => exact ⟨hread hstage.1, hstage.2⟩
          | _ => trivial
  | finished result => trivial
  | _ => first | exact absurd trivial hreads | exact absurd trivial hwaits

/-- What holds of a feed that groups at every moment. -/
structure Orderly (c : FeedContext) (f : Feed) : Prop where
  allowed : Trail.Allowed c f.trail
  position_eq : f.loop.position = (Trail.published f.trail).getLastD c.start
  ascending : (c.start :: Trail.published f.trail).Pairwise (· < ·)
  stage : Stage c f.trail f.loop.position f.loop.buffer f.loop.control
  sends : f.Sends ∨ f.Breaks

variable {f g : Feed} {event : LoopEvent} {after : Loop}

/-- A feed that groups starts in order. -/
theorem orderly_feed (hgrouped : c.settings.grouped = true) (capacity : Nat)
    (durable : Option Position) : (c.feed capacity durable).Orderly c where
  allowed := .nil
  position_eq := rfl
  ascending := List.pairwise_singleton _ _
  stage := by
    have hwaits : Control.starting.Waits := trivial
    exact (stage_waits hwaits).mpr ⟨fun _ hm => absurd hm List.not_mem_nil, hgrouped, rfl⟩
  sends := .inl (sends_feed c capacity durable)

/-- No position of an ascending list is behind the last one. -/
theorem le_last_of_ascending {first : Position} {rest : List Position}
    (h : (first :: rest).Pairwise (· < ·)) : ∀ p ∈ first :: rest, p ≤ rest.getLastD first := by
  induction rest generalizing first with
  | nil => simp
  | cons next rest ih =>
      obtain ⟨hfirst, hrest⟩ := List.pairwise_cons.mp h
      intro p hp
      rw [List.getLastD_cons]
      rcases List.mem_cons.mp hp with rfl | hp
      · exact (hfirst next List.mem_cons_self).le.trans (ih hrest next List.mem_cons_self)
      · exact ih hrest p hp

/-- All published positions are up to the loop's position. -/
theorem Orderly.published_le (h : f.Orderly c) :
    ∀ p ∈ c.start :: Trail.published f.trail, p ≤ f.loop.position := by
  rw [h.position_eq]
  exact le_last_of_ascending h.ascending

/-- Where nothing is noted, order is kept if it is at the new control point. -/
theorem Orderly.silent (h : f.Orderly c) (htrail : g.trail = f.trail)
    (hposition : g.loop.position = f.loop.position)
    (hstage : Stage c g.trail g.loop.position g.loop.buffer g.loop.control)
    (hsends : g.Sends ∨ g.Breaks) : g.Orderly c where
  allowed := htrail ▸ h.allowed
  position_eq := by rw [hposition, htrail, h.position_eq]
  ascending := htrail ▸ h.ascending
  stage := hstage
  sends := hsends

/-- Where something is noted that was allowed and publishes nothing, order is kept if it is at the
new control point. -/
theorem Orderly.notes (h : f.Orderly c) {x : Happening} (htrail : g.trail = f.trail ++ [x])
    (hnext : Trail.Allows c f.trail x)
    (hpublished : Trail.published (f.trail ++ [x]) = Trail.published f.trail)
    (hposition : g.loop.position = f.loop.position)
    (hstage : Stage c g.trail g.loop.position g.loop.buffer g.loop.control)
    (hsends : g.Sends ∨ g.Breaks) : g.Orderly c where
  allowed := htrail ▸ h.allowed.concat hnext
  position_eq := by rw [hposition, htrail, hpublished, h.position_eq]
  ascending := by rw [htrail, hpublished]; exact h.ascending
  stage := hstage
  sends := hsends

/-- Publishing the end of the batch that was pushed last keeps order. -/
theorem Orderly.publishes {records : List Record} {last confirmed : Position} (h : f.Orderly c)
    (hbefore : f.loop.control = .pushing records last confirmed) (hafter : after.control.Reads)
    (hposition : after.position = max f.loop.position last)
    (hbuffer : after.buffer = f.loop.buffer) (hlast : f.channel.lastPush? = some .pushed)
    (hsends : (f.advance (.pushed true) after).Sends ∨ (f.advance (.pushed true) after).Breaks) :
    (f.advance (.pushed true) after).Orderly c := by
  have hstage := h.stage
  rw [hbefore] at hstage
  obtain ⟨hall, hgrouped, hholds, hpushed, hends, hlt⟩ := hstage
  rw [max_eq_right hlt.le] at hposition
  have hnew : ∀ p ∈ c.start :: Trail.published f.trail, p < last :=
    fun p hp => (h.published_le p hp).trans_lt hlt
  -- The last push has nothing left and no other one waits, so all that is in flight has arrived.
  have harrived : Trail.pushed f.trail = Trail.taken f.trail ++ f.channel.buffered := by
    rcases h.sends with hworks | hbroken
    · rw [hworks.conserved, (hworks.one_at_a_time.idle_of_last_push hlast rfl).in_flight_eq]
    · exact absurd (hlast.symm.trans hbroken.last_push) (by simp)
  rw [advance_publishes hbefore hafter, hposition] at hsends ⊢
  have hpublished : Trail.published (f.trail ++ [.published last f.channel.buffered]) =
      Trail.published f.trail ++ [last] := by simp [Trail.published]
  exact {
    allowed := h.allowed.concat ⟨hall, hnew, ⟨records, hpushed, hends⟩, harrived⟩
    position_eq := by rw [hpublished, List.getLastD_concat]; exact hposition
    ascending := by
      rw [hpublished, ← List.cons_append]
      refine List.pairwise_append.mpr ⟨h.ascending, List.pairwise_singleton _ _, ?_⟩
      intro p hp q hq
      exact List.mem_singleton.mp hq ▸ hnew p hp
    stage := by
      refine (stage_reads hafter).mpr ⟨hall.other (by simp), ?_, ?_⟩
      · exact hbuffer ▸ hgrouped
      · have hsession : Trail.session (f.trail ++ [.published last f.channel.buffered]) =
            Trail.session f.trail := by simp [Trail.session]
        rw [hsession, hbuffer]
        exact hholds
    sends := hsends }

/-- A message that gives nothing to hand over keeps order. -/
theorem Orderly.collects {m : Message} {confirmed : Position} {buffer : TransactionBuffer}
    (h : f.Orderly c) (hbefore : f.loop.control = .polling confirmed)
    (hreceive : c.receive f.loop m = .ok (buffer, none)) (hafter : after.control.Reads)
    (hposition : after.position = f.loop.position) (hbuffer : after.buffer = buffer)
    (hsends : (f.advance (.polled (.ok (some m))) after).Sends ∨
      (f.advance (.polled (.ok (some m))) after).Breaks) :
    (f.advance (.polled (.ok (some m))) after).Orderly c := by
  have hreads : f.loop.control.Reads := hbefore ▸ trivial
  obtain ⟨hall, hgrouped, hholds⟩ := (stage_reads hreads).mp h.stage
  have hreceives := FeedContext.receives_of_receive hgrouped hreceive
  obtain ⟨e, he⟩ := FeedContext.reads_of_receive hreceive
  rw [advance_collects hbefore hafter] at hsends ⊢
  refine h.notes rfl hall (by simp [Trail.published]) hposition ?_ hsends
  refine (stage_reads hafter).mpr ⟨hall.polled he, hbuffer ▸ hreceives.grouped, ?_⟩
  rw [Trail.session_polled, hbuffer]
  exact hreceives.holds_after hholds

/-- A message that is rejected keeps order. If it cannot be read, the feed will not go on. -/
theorem Orderly.rejects {m : Message} {fault : FeedFault} {confirmed : Position}
    (h : f.Orderly c) (hbefore : f.loop.control = .polling confirmed)
    (hreceive : c.receive f.loop m = .error fault)
    (hafter : after.control = .closing (.error fault)) (hkeeps : f.loop.Keeps after)
    (hsends : (f.advance (.polled (.ok (some m))) after).Sends ∨
      (f.advance (.polled (.ok (some m))) after).Breaks) :
    (f.advance (.polled (.ok (some m))) after).Orderly c := by
  have hreads : f.loop.control.Reads := hbefore ▸ trivial
  obtain ⟨hall, hgrouped, -⟩ := (stage_reads hreads).mp h.stage
  rw [advance_rejects hbefore hafter] at hsends ⊢
  refine h.notes rfl hall (by simp [Trail.published]) hkeeps.1 ?_ hsends
  show Stage c (f.trail ++ [.polled m]) after.position after.buffer after.control
  rw [hafter]
  cases fault with
  | session fault =>
      obtain ⟨e, he⟩ := FeedContext.reads_of_session_fault hreceive
      exact ⟨hall.polled he, hkeeps.2 ▸ hgrouped⟩
  | _ => trivial

/-- Starting to push a batch keeps order. -/
theorem Orderly.hands {m : Message} {batch : Batch} {confirmed : Position}
    {buffer : TransactionBuffer} (h : f.Orderly c)
    (hbefore : f.loop.control = .polling confirmed)
    (hreceive : c.receive f.loop m = .ok (buffer, some batch))
    (hafter : after.control = .pushing batch.records batch.last confirmed)
    (hposition : after.position = f.loop.position) (hbuffer : after.buffer = buffer)
    (hsends : (f.advance (.polled (.ok (some m))) after).Sends ∨
      (f.advance (.polled (.ok (some m))) after).Breaks) :
    (f.advance (.polled (.ok (some m))) after).Orderly c := by
  have hreads : f.loop.control.Reads := hbefore ▸ trivial
  obtain ⟨hall, hgrouped, hholds⟩ := (stage_reads hreads).mp h.stage
  have hreceives := FeedContext.receives_of_receive hgrouped hreceive
  obtain ⟨hwhole, hends, hlt⟩ := hreceives.whole_batch hholds
  obtain ⟨e, he⟩ := FeedContext.reads_of_receive hreceive
  have hread : Trail.AllRead c.plugin (f.trail ++ [.polled m]) := hall.polled he
  rw [advance_hands hbefore hafter] at hsends ⊢
  have hpublished : Trail.published (f.trail ++ [.polled m] ++ [.pushed batch.records]) =
      Trail.published f.trail := by simp [Trail.published]
  have hpolled : Trail.Allows c f.trail (.polled m) := hall
  exact {
    allowed := (h.allowed.concat hpolled).concat
      ⟨hread, ⟨f.trail, m, rfl⟩, by rw [Trail.session_polled]; exact hwhole⟩
    position_eq := by rw [hpublished, ← h.position_eq]; exact hposition
    ascending := by rw [hpublished]; exact h.ascending
    stage := by
      show Stage c (f.trail ++ [.polled m] ++ [.pushed batch.records]) after.position after.buffer
        after.control
      rw [hafter, hbuffer, hposition]
      refine ⟨hread.other (by simp), hreceives.grouped, ?_, ?_, hends, hlt⟩
      · rw [Trail.session_pushed, Trail.session_polled]
        exact hreceives.holds_after hholds
      · exact ⟨f.trail ++ [.polled m], [], rfl, by simp⟩
    sends := hsends }

/-- Every transition of the loop keeps order. -/
theorem Orderly.moves (h : f.Orderly c) (hmoves : f.loop.Moves c f.durable event after)
    (hhears : f.Hears event) : (f.advance event after).Orderly c := by
  have hsends := sends_or_breaks_of_moves hmoves hhears h.sends
  cases hmoves with
  | waits hbefore hafter hresume hposition hbuffer hevent =>
      obtain ⟨hall, hgrouped, hcurrent⟩ := (stage_waits hbefore).mp h.stage
      rw [advance_waits hbefore hafter hevent] at hsends ⊢
      refine h.silent rfl hposition ((stage_waits hafter).mpr ⟨hall, ?_⟩) hsends
      rcases hbuffer with hbuffer | hbuffer
      · exact hbuffer ▸ ⟨hgrouped, hcurrent⟩
      · exact hbuffer ▸ ⟨hgrouped, rfl⟩
  | opens resume hbefore hafter hkeeps =>
      have hwaits : f.loop.control.Waits := hbefore ▸ trivial
      have hreads : after.control.Reads := hafter ▸ trivial
      obtain ⟨hall, hgrouped, hcurrent⟩ := (stage_waits hwaits).mp h.stage
      rw [advance_opens hbefore hafter] at hsends ⊢
      refine h.notes rfl hall (by simp [Trail.published]) hkeeps.1 ?_ hsends
      refine (stage_reads hreads).mpr ⟨hall.other (by simp), hkeeps.2 ▸ hgrouped, ?_⟩
      intro t ht
      rw [hkeeps.2, hcurrent] at ht
      exact absurd ht (by simp)
  | reads hbefore hafter hconfirm hevent hkeeps =>
      obtain ⟨hall, hgrouped, hholds⟩ := (stage_reads hbefore).mp h.stage
      rw [advance_reads hbefore hafter hevent] at hsends ⊢
      refine h.silent rfl hkeeps.1 ((stage_reads hafter).mpr ⟨hall, ?_⟩) hsends
      exact hkeeps.2 ▸ ⟨hgrouped, hholds⟩
  | leaves outcome hbefore hafter hevent hkeeps =>
      obtain ⟨hall, hgrouped, hholds⟩ := (stage_reads hbefore).mp h.stage
      rw [advance_leaves hbefore hafter hevent] at hsends ⊢
      refine h.silent rfl hkeeps.1 ?_ hsends
      show Stage c f.trail after.position after.buffer after.control
      rw [hafter, hkeeps.2]
      rcases outcome with fault | _
      · cases fault <;> first | exact ⟨hall, hgrouped⟩ | trivial
      · trivial
  | rejects m fault confirmed hbefore hreceive hafter hkeeps =>
      exact h.rejects hbefore hreceive hafter hkeeps hsends
  | collects m buffer confirmed hbefore hreceive hafter hconfirm hposition hbuffer =>
      exact h.collects hbefore hreceive hafter hposition hbuffer hsends
  | hands m buffer batch confirmed hbefore hreceive hafter hposition hbuffer =>
      exact h.hands hbefore hreceive hafter hposition hbuffer hsends
  | publishes records last confirmed hbefore hafter hconfirm hposition hbuffer =>
      exact h.publishes hbefore hafter hposition hbuffer (hhears true rfl) hsends
  | refused records last confirmed hbefore hafter hkeeps =>
      rw [advance_refused hbefore hafter] at hsends ⊢
      refine h.silent rfl hkeeps.1 ?_ hsends
      show Stage c f.trail after.position after.buffer after.control
      rw [hafter]
      trivial
  | recovers fault closed hbefore hafter hposition hbuffer =>
      have hstage := h.stage
      rw [hbefore] at hstage
      have hwaits : after.control.Waits := hafter ▸ trivial
      rw [advance_recovers hbefore hafter] at hsends ⊢
      refine h.silent rfl hposition ((stage_waits hwaits).mpr ⟨hstage.1, ?_⟩) hsends
      exact hbuffer ▸ ⟨hstage.2, rfl⟩
  | ends result hbefore hafter hposition hevent =>
      rw [advance_ends hbefore hafter hevent] at hsends ⊢
      refine h.silent rfl hposition ?_ hsends
      show Stage c f.trail after.position after.buffer after.control
      rw [hafter]
      trivial

/-- Every move of a feed keeps order. -/
theorem Orderly.steps (h : f.Orderly c) (hstep : Steps c f g) : g.Orderly c := by
  have hsends := sends_or_breaks_of_steps hstep h.sends
  cases hstep with
  | rests => exact h
  | moves hmoves hhears => exact h.moves hmoves hhears
  | receives record channel hreceive =>
      exact h.notes rfl trivial (Trail.published_channel trivial) rfl
        (stage_channel trivial h.stage) hsends
  | closes => exact h.silent rfl rfl h.stage hsends
  | drops =>
      exact h.notes rfl trivial (Trail.published_channel trivial) rfl
        (stage_channel trivial h.stage) hsends
  | persists position => exact h.silent rfl rfl h.stage hsends
  | stops => exact h.silent rfl rfl h.stage hsends

/-! ## The main result -/

/-- What a feed that groups has done is whole. -/
structure DeliversWhole (c : FeedContext) (f : Feed) : Prop where
  /-- A push directly follows the message that completes its batch, and the batch is whole. -/
  pushed_whole : ∀ before records after, f.trail = before ++ .pushed records :: after →
    (∃ earlier m, before = earlier ++ [.polled m]) ∧ c.IsWhole (Trail.session before) records
  /-- After a message that cannot be read the feed opens, polls, pushes and publishes nothing. -/
  unread_last : ∀ before m after, f.trail = before ++ .polled m :: after →
    (∀ e, ¬ c.plugin.Reads m e) → ∀ h ∈ after, h.IsOfChannel
  /-- A transaction of which some change cannot be converted is not pushed. -/
  unconverted_left : ∀ before after told (t : ToldTransaction c.plugin),
    f.trail = before ++ after → Trail.session before = told ++ t.messages →
    (∀ contents, c.converter.convertAll t.changes ≠ .ok contents) →
    ∀ records, after.head? ≠ some (.pushed records)
  /-- A position is published when all of the batch pushed last is in the channel, and is the
  greatest one of that batch. -/
  published_arrived : ∀ before position buffered after,
    f.trail = before ++ .published position buffered :: after →
    (∃ records, Trail.LastPushed before records ∧ EndsAt records position) ∧
      Trail.pushed before = Trail.taken before ++ buffered
  /-- Published positions ascend from the start of the feed. -/
  ascending : (c.start :: Trail.published f.trail).Pairwise (· < ·)
  /-- The position that observers see is the one published last. -/
  position_eq : f.loop.position = (Trail.published f.trail).getLastD c.start

/-- A feed in order delivers whole transactions. -/
theorem Orderly.pushes_whole (h : f.Orderly c) : f.DeliversWhole c where
  pushed_whole before records after htrail := (h.allowed before _ after htrail).2
  unread_last := by
    intro before m after htrail hunread x hx
    obtain ⟨between, rest, rfl⟩ := List.append_of_mem hx
    have hnext := h.allowed (before ++ .polled m :: between) x rest (by simp [htrail])
    have hmem : Happening.polled m ∈ before ++ .polled m :: between := by simp
    have hbad (hread : Trail.AllRead c.plugin (before ++ .polled m :: between)) : False :=
      (hread m hmem).elim hunread
    cases x with
    | received record => trivial
    | dropped records => trivial
    | opened resume => exact (hbad hnext).elim
    | polled n => exact (hbad hnext).elim
    | pushed records => exact (hbad hnext.1).elim
    | published position buffered => exact (hbad hnext.1).elim
  unconverted_left := by
    intro before after told t htrail hsession hfails records hhead
    obtain ⟨rest, rfl⟩ := List.head?_eq_some_iff.mp hhead
    obtain ⟨contents, hcontents⟩ := (h.allowed before _ rest htrail).2.2.converted hsession
    exact hfails contents hcontents
  published_arrived before position buffered after htrail :=
    (h.allowed before _ after htrail).2.2
  ascending := h.ascending
  position_eq := h.position_eq

/-- A feed that groups never delivers part of a transaction, whatever its sessions give and
wherever they fail. -/
theorem delivers_whole (c : FeedContext) (hgrouped : c.settings.grouped = true) (capacity : Nat)
    (durable : Option Position) (moves : List FeedMove) :
    ((c.feed capacity durable).run c moves).DeliversWhole c := by
  have horderly : ((c.feed capacity durable).run c moves).Orderly c :=
    run_keeps (P := fun f => f.Orderly c) (fun _ _ hstep h => h.steps hstep)
      (orderly_feed hgrouped capacity durable) moves
  exact horderly.pushes_whole

end Feed

/-- A feed that groups the rows of a table with one column. -/
def FeedContext.ofItems : FeedContext where
  settings := ⟨"items", "items_slot", true, ⟨3, 0, 0⟩⟩
  plugin := .testDecoding
  converter := ⟨⟨[⟨"public.item", [⟨"id", .int32, false⟩], ["id"]⟩]⟩, []⟩
  start := .zero

/-- A feed that has a session receives a message. -/
def FeedMove.polls (position : Position) (line : String) : List FeedMove :=
  [.read .next, .read .next,
    .read (.polled (.ok (some ⟨position, none, Text.toUtf8 line.toList⟩)))]

/-- A feed opens a session, receives a transaction and hands it over. -/
def FeedMove.insertItem : List FeedMove :=
  [.read .next, .read (.opened (.ok ()))] ++ polls ⟨10⟩ "BEGIN 7" ++
    polls ⟨20⟩ "table public.item: INSERT: id[integer]:1" ++ polls ⟨30⟩ "COMMIT 7" ++ [.learn]

/-- A feed that inserts an item has published its commit and delivered it whole. -/
theorem Feed.delivers_whole_item :
    FeedContext.ofItems.settings.grouped = true ∧
      Trail.published ((FeedContext.ofItems.feed 8 none).run .ofItems
        FeedMove.insertItem).trail = [⟨30⟩] ∧
      ((FeedContext.ofItems.feed 8 none).run .ofItems FeedMove.insertItem).DeliversWhole
        .ofItems :=
  ⟨rfl, by decide +kernel, delivers_whole .ofItems rfl 8 none FeedMove.insertItem⟩

end ChangeFeed
