import ChangeFeed.Feed.Loop
import ChangeFeed.Proofs.Plugin.Position
import ChangeFeed.Proofs.Position.Order
import ChangeFeed.Proofs.Record.Conversion

/-!
# What a message adds

The ways in which a feed deals with a message: as rules for the buffer (`TransactionBuffer.Offers`)
and as rules for a feed that groups (`FeedContext.Receives`). A transaction that was told by
messages (`ToldTransaction`) is what a buffer collects between a beginning and its commit; its
batch holds the changes, stamped, and then the commit.
-/

namespace ChangeFeed

/-! ## The greatest position -/

namespace FeedContext

/-- The greatest of a position and those of events is reached and exceeded by none of them. -/
theorem fold_position_facts (es : List Event) (q : Position) :
    (es.foldl (fun last event => max last event.position) q = q ∨
      ∃ x ∈ es, x.position = es.foldl (fun last event => max last event.position) q) ∧
    q ≤ es.foldl (fun last event => max last event.position) q ∧
    ∀ x ∈ es, x.position ≤ es.foldl (fun last event => max last event.position) q := by
  induction es generalizing q with
  | nil => exact ⟨.inl rfl, le_refl q, by simp⟩
  | cons x es ih =>
      obtain ⟨hreached, hle, hall⟩ := ih (max q x.position)
      rw [List.foldl_cons]
      refine ⟨?_, (le_max_left _ _).trans hle, ?_⟩
      · rcases hreached with hsame | ⟨y, hy, heq⟩
        · rcases max_choice q x.position with hmax | hmax
          · exact .inl (hsame.trans hmax)
          · exact .inr ⟨x, List.mem_cons_self, (hsame.trans hmax).symm⟩
        · exact .inr ⟨y, List.mem_cons_of_mem _ hy, heq⟩
      · intro y hy
        rcases List.mem_cons.mp hy with rfl | hy
        · exact (le_max_right _ _).trans hle
        · exact hall y hy

/-- The greatest position of events is reached, and no event is behind it. -/
theorem last_position_of_cons (e : Event) (rest : List Event) (p : Position) :
    (∃ x ∈ e :: rest, x.position = lastPosition (e :: rest) p) ∧
      ∀ x ∈ e :: rest, x.position ≤ lastPosition (e :: rest) p := by
  obtain ⟨hreached, hle, hall⟩ := fold_position_facts rest e.position
  refine ⟨?_, fun x hx => ?_⟩
  · rcases hreached with hsame | ⟨x, hx, heq⟩
    · exact ⟨e, List.mem_cons_self, hsame.symm⟩
    · exact ⟨x, List.mem_cons_of_mem _ hx, heq⟩
  · rcases List.mem_cons.mp hx with rfl | hx
    · exact hle
    · exact hall x hx

/-- The greatest position of events that end with one at the greatest. -/
theorem last_position_of_le {init : List Event} {e : Event} (p : Position)
    (h : ∀ x ∈ init, x.position ≤ e.position) : lastPosition (init ++ [e]) p = e.position := by
  obtain ⟨x, rest, hcons⟩ : ∃ x rest, init ++ [e] = x :: rest :=
    List.exists_cons_of_ne_nil (by simp)
  obtain ⟨⟨y, hy, hreached⟩, hall⟩ := last_position_of_cons x rest p
  rw [← hcons] at hy hreached hall
  refine le_antisymm ?_ (hall e (by simp))
  rw [← hreached]
  rcases List.mem_append.mp hy with hy | hy
  · exact h y hy
  · exact (congrArg Event.position (List.mem_singleton.mp hy)).le

end FeedContext

/-! ## The buffer -/

namespace TransactionBuffer

/-- What a buffer that groups makes of an event: the buffer after it, and the batch it gives. -/
inductive Offers : TransactionBuffer → Event → TransactionBuffer → Option (List Event) → Prop
  /-- A beginning opens a transaction. -/
  | opens (p : Position) (xid csn : Option UInt64) :
      Offers ⟨true, none⟩ (.begin p xid csn) ⟨true, some ⟨xid, csn, []⟩⟩ none
  /-- A mark of progress outside a transaction is a batch of its own. -/
  | passes (p : Position) :
      Offers ⟨true, none⟩ (.placeholder p) ⟨true, none⟩ (some [.placeholder p])
  /-- A change is held back. -/
  | adds (t : OpenTransaction) (e : Event) (he : e.IsChange) :
      Offers ⟨true, some t⟩ e ⟨true, some { t with events := t.events ++ [e] }⟩ none
  /-- A commit gives the whole transaction out. -/
  | closes (t : OpenTransaction) (p : Position) (xid csn : Option UInt64)
      (time : Option Calendar.Instant) :
      Offers ⟨true, some t⟩ (.commit p xid csn time) ⟨true, none⟩ (some (t.commit p xid csn time))

/-- The rules are those of buffers that group. -/
theorem Offers.grouped {b after : TransactionBuffer} {e : Event} {out : Option (List Event)}
    (h : Offers b e after out) : b.grouped = true ∧ after.grouped = true := by
  cases h <;> exact ⟨rfl, rfl⟩

/-- A buffer that groups follows the rules. -/
theorem offers_of_offer {b after : TransactionBuffer} {e : Event} {out : Option (List Event)}
    (hgrouped : b.grouped = true) (h : b.offer e = .ok (after, out)) : Offers b e after out := by
  obtain ⟨grouped, current⟩ := b
  obtain rfl : grouped = true := hgrouped
  cases current with
  | none =>
      cases e <;> simp only [offer, if_true, Except.ok.injEq, Prod.mk.injEq, reduceCtorEq] at h
      · obtain ⟨rfl, rfl⟩ := h
        exact .opens _ _ _
      · obtain ⟨rfl, rfl⟩ := h
        exact .passes _
  | some t =>
      cases e <;> simp only [offer, if_true, Except.ok.injEq, Prod.mk.injEq, reduceCtorEq] at h
      · obtain ⟨rfl, rfl⟩ := h
        exact .closes _ _ _ _ _
      · obtain ⟨rfl, rfl⟩ := h
        exact .adds t _ trivial
      · obtain ⟨rfl, rfl⟩ := h
        exact .adds t _ trivial

/-- A buffer that does not group gives out every event but a beginning, and holds nothing. -/
theorem offer_ungrouped {b after : TransactionBuffer} {e : Event} {out : Option (List Event)}
    (hgrouped : b.grouped = false) (h : b.offer e = .ok (after, out)) :
    after = b ∧ ((∃ p xid csn, e = .begin p xid csn) ∧ out = none ∨ out = some [e]) := by
  cases e with
  | begin p xid csn =>
      obtain ⟨rfl, rfl⟩ : b = after ∧ none = out := by simpa [offer, hgrouped] using h
      exact ⟨rfl, .inl ⟨⟨p, xid, csn, rfl⟩, rfl⟩⟩
  | commit p xid csn time =>
      obtain ⟨rfl, rfl⟩ : b = after ∧ some [_] = out := by simpa [offer, hgrouped] using h
      exact ⟨rfl, .inr rfl⟩
  | row row =>
      obtain ⟨rfl, rfl⟩ : b = after ∧ some [_] = out := by simpa [offer, hgrouped] using h
      exact ⟨rfl, .inr rfl⟩
  | placeholder p =>
      obtain ⟨rfl, rfl⟩ : b = after ∧ some [_] = out := by simpa [offer, hgrouped] using h
      exact ⟨rfl, .inr rfl⟩

end TransactionBuffer

/-! ## Transactions told by messages -/

/-- What a message says. -/
def Plugin.Reads (plugin : Plugin) (m : Message) (e : Event) : Prop :=
  plugin.decode m.position m.data = .ok e

instance (plugin : Plugin) (m : Message) (e : Event) : Decidable (plugin.Reads m e) :=
  inferInstanceAs (Decidable (_ = _))

/-- An event stands where its message stands. -/
theorem Plugin.Reads.position_eq {plugin : Plugin} {m : Message} {e : Event}
    (h : plugin.Reads m e) : e.position = m.position :=
  Plugin.decode_position h

/-- A message says one thing only. -/
theorem Plugin.Reads.unique {plugin : Plugin} {m : Message} {e e' : Event}
    (h : plugin.Reads m e) (h' : plugin.Reads m e') : e = e' :=
  Except.ok.inj (h.symm.trans h')

/-- A transaction of which the beginning and changes were told by messages. -/
structure TellsOpen (plugin : Plugin) (told : List Message) (t : OpenTransaction) : Prop where
  told_eq : ∃ opening body, told = opening :: body ∧
    plugin.Reads opening (.begin opening.position t.xid t.csn) ∧
    List.Forall₂ plugin.Reads body t.events
  changes : ∀ e ∈ t.events, e.IsChange

/-- Another change is told. -/
theorem TellsOpen.add {plugin : Plugin} {told : List Message} {t : OpenTransaction} {m : Message}
    {e : Event} (h : TellsOpen plugin told t) (hm : plugin.Reads m e) (he : e.IsChange) :
    TellsOpen plugin (told ++ [m]) { t with events := t.events ++ [e] } := by
  obtain ⟨opening, body, rfl, hopening, hbody⟩ := h.told_eq
  refine ⟨⟨opening, body ++ [m], rfl, hopening, List.rel_append hbody (.cons hm .nil)⟩, ?_⟩
  intro x hx
  rcases List.mem_append.mp hx with hx | hx
  · exact h.changes x hx
  · exact List.mem_singleton.mp hx ▸ he

/-- Messages tell one transaction only. -/
theorem TellsOpen.unique {plugin : Plugin} {told : List Message} {t u : OpenTransaction}
    (ht : TellsOpen plugin told t) (hu : TellsOpen plugin told u) : t = u := by
  obtain ⟨opening, body, rfl, hopening, hbody⟩ := ht.told_eq
  obtain ⟨opening', body', heq, hopening', hbody'⟩ := hu.told_eq
  obtain ⟨rfl, rfl⟩ := List.cons.inj heq
  obtain ⟨-, hxid, hcsn⟩ := Event.begin.inj (hopening.unique hopening')
  have hevents : t.events = u.events :=
    List.right_unique_forall₂' (fun _ _ _ h h' => h.unique h') hbody hbody'
  obtain ⟨xid, csn, events⟩ := t
  obtain ⟨rfl, rfl, rfl⟩ : xid = u.xid ∧ csn = u.csn ∧ events = u.events := ⟨hxid, hcsn, hevents⟩
  rfl

/-- Messages that end with an open transaction end with one only. -/
theorem TellsOpen.unique_of_append {plugin : Plugin} {before before' told told' : List Message}
    {t u : OpenTransaction} (h : before ++ told = before' ++ told') (ht : TellsOpen plugin told t)
    (hu : TellsOpen plugin told' u) : told = told' := by
  -- A beginning inside the longer one would be one of its changes.
  have hsuffix {more tail : List Message} {v w : OpenTransaction} (hv : TellsOpen plugin tail v)
      (hw : TellsOpen plugin (more ++ tail) w) : more = [] := by
    cases more with
    | nil => rfl
    | cons m rest =>
        obtain ⟨opening, body, rfl, hopening, -⟩ := hv.told_eq
        obtain ⟨first, others, heq, -, hothers⟩ := hw.told_eq
        obtain ⟨-, rfl⟩ := List.cons.inj heq
        obtain ⟨e, he, hreads⟩ := hothers.exists_of_mem_left
          (List.mem_append_right rest List.mem_cons_self)
        have hchange := hw.changes e he
        rw [← hopening.unique hreads] at hchange
        exact hchange.elim
  rcases List.append_eq_append_iff.mp h with ⟨more, -, rfl⟩ | ⟨more, -, rfl⟩
  · rw [hsuffix hu ht, List.nil_append]
  · rw [hsuffix ht hu, List.nil_append]

/-- A transaction as messages tell it from its beginning to its commit. -/
structure ToldTransaction (plugin : Plugin) where
  /-- The messages before the commit. -/
  told : List Message
  closing : Message
  /-- What the messages before the commit tell. -/
  content : OpenTransaction
  xid : Option UInt64
  csn : Option UInt64
  time : Option Calendar.Instant
  tells : TellsOpen plugin told content
  closes : plugin.Reads closing (.commit closing.position xid csn time)

namespace ToldTransaction

variable {plugin : Plugin}

/-- All messages of the transaction. -/
def messages (t : ToldTransaction plugin) : List Message :=
  t.told ++ [t.closing]

/-- The number that the transaction's records carry. -/
def number (t : ToldTransaction plugin) : Option UInt64 :=
  t.csn.or t.content.csn

/-- The commit as the transaction's batch ends with it. -/
def commit (t : ToldTransaction plugin) : Event :=
  .commit t.closing.position (t.xid.or t.content.xid) t.number t.time

/-- The changes as the transaction's batch holds them. -/
def changes (t : ToldTransaction plugin) : List Event :=
  t.content.events.map (Event.stamp (t.xid.or t.content.xid) t.number)

/-- The events of the transaction's batch. -/
def batch (t : ToldTransaction plugin) : List Event :=
  t.changes ++ [t.commit]

/-- A converted batch is the converted changes and then the end of the transaction. -/
theorem convert_batch {c : Converter} {t : ToldTransaction plugin} {records : List Record} :
    c.convertAll t.batch = .ok records ↔ ∃ contents, c.convertAll t.changes = .ok contents ∧
      records = contents ++
        [.transaction ⟨t.xid.or t.content.xid, t.number, t.time, t.closing.position⟩] := by
  rw [batch, Converter.convert_all_append]
  constructor
  · rintro ⟨contents, ending, hcontents, hending, rfl⟩
    obtain ⟨r, hr, rfl⟩ := Converter.convert_all_singleton.mp hending
    exact ⟨contents, hcontents, by rw [← Except.ok.inj hr]⟩
  · rintro ⟨contents, hcontents, rfl⟩
    exact ⟨contents, _, hcontents, Converter.convert_all_singleton.mpr ⟨_, rfl, rfl⟩, rfl⟩

/-- Every data record of a converted batch carries the number of the transaction's end. -/
theorem csn_of_mem_records {c : Converter} {t : ToldTransaction plugin} {records : List Record}
    (h : c.convertAll t.batch = .ok records) {d : DataRecord} (hd : .data d ∈ records) :
    d.csn = t.number := by
  obtain ⟨e, he, hconvert⟩ := Converter.exists_event_of_mem h hd
  rcases List.mem_append.mp he with he | he
  · obtain ⟨x, -, rfl⟩ := List.mem_map.mp he
    exact Converter.convert_stamp_csn hconvert
  · rw [List.mem_singleton.mp he] at hconvert
    exact absurd (Except.ok.inj hconvert) (by simp)

/-- Messages that end with a transaction end with one only. -/
theorem unique {before before' : List Message} {t u : ToldTransaction plugin}
    (h : before ++ t.messages = before' ++ u.messages) : t = u := by
  obtain ⟨told, closing, content, xid, csn, time, htells, hcloses⟩ := t
  obtain ⟨told', closing', content', xid', csn', time', htells', hcloses'⟩ := u
  simp only [messages, ← List.append_assoc] at h
  obtain ⟨htold, hclosing⟩ := List.append_inj' h rfl
  obtain rfl := List.singleton_inj.mp hclosing
  obtain rfl := TellsOpen.unique_of_append htold htells htells'
  obtain rfl := htells.unique htells'
  obtain ⟨-, rfl, rfl, rfl⟩ := Event.commit.inj (hcloses.unique hcloses')
  rfl

/-- What was told of an open transaction is a whole transaction once its commit is told. -/
theorem of_tells_open {told : List Message} {content : OpenTransaction} {closing : Message}
    {xid csn : Option UInt64} {time : Option Calendar.Instant}
    (htells : TellsOpen plugin told content)
    (hcloses : plugin.Reads closing (.commit closing.position xid csn time)) :
    ∃ t : ToldTransaction plugin, t.messages = told ++ [closing] ∧
      t.batch = content.commit closing.position xid csn time :=
  ⟨⟨told, closing, content, xid, csn, time, htells, hcloses⟩, rfl, rfl⟩

end ToldTransaction

/-! ## Receiving -/

namespace FeedContext

/-- A feed that groups makes of a message: the buffer after it, and the batch it gives. Where
nothing comes out of a batch that is complete, its end was pushed before. -/
inductive Receives (c : FeedContext) (position : Position) (m : Message) :
    TransactionBuffer → TransactionBuffer → Option Batch → Prop
  /-- The buffer takes the event and gives nothing out. -/
  | holds {b after : TransactionBuffer} {e : Event} (hm : c.plugin.Reads m e)
      (hoffer : b.Offers e after none) : Receives c position m b after none
  /-- The batch that is complete was pushed before. -/
  | skips {b after : TransactionBuffer} {e : Event} {events : List Event}
      (hm : c.plugin.Reads m e) (hoffer : b.Offers e after (some events))
      (hle : lastPosition events m.position ≤ position) : Receives c position m b after none
  /-- The batch that is complete is new. -/
  | gives {b after : TransactionBuffer} {e : Event} {events : List Event} {records : List Record}
      (hm : c.plugin.Reads m e) (hoffer : b.Offers e after (some events))
      (hlt : position < lastPosition events m.position)
      (hconvert : c.converter.convertAll events = .ok records) :
      Receives c position m b after (some ⟨records, lastPosition events m.position⟩)

/-- The rules are those of a feed that groups. -/
theorem Receives.grouped {c : FeedContext} {position : Position} {m : Message}
    {b after : TransactionBuffer} {out : Option Batch} (h : c.Receives position m b after out) :
    after.grouped = true := by
  cases h with
  | holds hm hoffer => exact hoffer.grouped.2
  | skips hm hoffer hle => exact hoffer.grouped.2
  | gives hm hoffer hlt hconvert => exact hoffer.grouped.2

/-- How a message is received: its event is taken by the buffer, and a batch that is complete and
not skipped is converted. -/
theorem receive_cases {c : FeedContext} {loop : Loop} {m : Message} {after : TransactionBuffer}
    {out : Option Batch} (h : c.receive loop m = .ok (after, out)) :
    ∃ e given, c.plugin.Reads m e ∧ loop.buffer.offer e = .ok (after, given) ∧
      ((given = none ∧ out = none) ∨ ∃ events, given = some events ∧
        ((after.grouped = true ∧ lastPosition events m.position ≤ loop.position ∧ out = none) ∨
        (¬ (after.grouped = true ∧ lastPosition events m.position ≤ loop.position) ∧
          ∃ records, c.converter.convertAll events = .ok records ∧
            out = some ⟨records, lastPosition events m.position⟩))) := by
  unfold receive at h
  obtain ⟨e, he, h⟩ := Except.bind_eq_ok.mp h
  obtain ⟨⟨buffer, given⟩, hoffer, h⟩ := Except.bind_eq_ok.mp h
  rw [Except.map_error_eq_ok] at he hoffer
  cases given with
  | none =>
      obtain ⟨rfl, rfl⟩ := Prod.mk.inj (Except.pure_eq_ok.mp h)
      exact ⟨e, none, he, hoffer, .inl ⟨rfl, rfl⟩⟩
  | some events =>
      dsimp only at h
      split at h
      · rename_i hskip
        obtain ⟨rfl, rfl⟩ := Prod.mk.inj (Except.pure_eq_ok.mp h)
        exact ⟨e, some events, he, hoffer, .inr ⟨events, rfl, .inl ⟨hskip.1, hskip.2, rfl⟩⟩⟩
      · rename_i hnew
        obtain ⟨records, hrecords, h⟩ := Except.bind_eq_ok.mp h
        obtain ⟨rfl, rfl⟩ := Prod.mk.inj (Except.pure_eq_ok.mp h)
        exact ⟨e, some events, he, hoffer, .inr ⟨events, rfl, .inr ⟨hnew, records, hrecords, rfl⟩⟩⟩

/-- A feed that groups follows the rules. -/
theorem receives_of_receive {c : FeedContext} {loop : Loop} {m : Message}
    {after : TransactionBuffer} {out : Option Batch} (hgrouped : loop.buffer.grouped = true)
    (h : c.receive loop m = .ok (after, out)) :
    Receives c loop.position m loop.buffer after out := by
  obtain ⟨e, given, he, hoffer, hout⟩ := receive_cases h
  have hoffers := TransactionBuffer.offers_of_offer hgrouped hoffer
  have hafter : after.grouped = true := hoffers.grouped.2
  rcases hout with ⟨rfl, rfl⟩ | ⟨events, rfl, ⟨-, hle, rfl⟩ | ⟨hnew, records, hrecords, rfl⟩⟩
  · exact .holds he hoffers
  · exact .skips he hoffers hle
  · refine .gives he hoffers ?_ hrecords
    exact not_le.mp fun hle => hnew ⟨hafter, hle⟩

/-- A message that cannot be read is not received. -/
theorem reads_of_receive {c : FeedContext} {loop : Loop} {m : Message}
    {after : TransactionBuffer} {out : Option Batch} (h : c.receive loop m = .ok (after, out)) :
    ∃ e, c.plugin.Reads m e := by
  obtain ⟨e, -, he, -⟩ := receive_cases h
  exact ⟨e, he⟩

end FeedContext

end ChangeFeed
