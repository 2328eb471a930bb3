import ChangeFeed.Proofs.Feed.Batch
import ChangeFeed.Proofs.Session.SlotServer

/-!
# Transactions of a server, as a feed tells them

The messages of a transaction in the log of a server are framed (`LoggedTransaction.IsFramed`):
as far as they can be read, they are a beginning, changes and a commit. Its records are those of
its batch (`LoggedTransaction.IsConverted`), which a feed that groups stamps and a feed that does
not group leaves as it is.
-/

namespace ChangeFeed

namespace ToldTransaction

variable {plugin : Plugin}

/-- The events that become the records of the transaction. -/
def events (t : ToldTransaction plugin) (grouped : Bool) : List Event :=
  if grouped then t.batch
  else t.content.events ++ [.commit t.closing.position t.xid t.csn t.time]

/-- The events of a transaction stand where its messages but the first stand, and the last one of
them is its commit. -/
theorem events_eq (t : ToldTransaction plugin) (grouped : Bool) :
    ∃ contents ending, t.events grouped = contents ++ [ending] ∧
      ending.position = t.closing.position ∧
      ∀ e ∈ contents, ∃ m ∈ t.told.tail, e.position = m.position := by
  have hcontent {x : Event} (hx : x ∈ t.content.events) :
      ∃ m ∈ t.told.tail, x.position = m.position := by
    obtain ⟨opening, body, htold, -, hbody⟩ := t.tells.told_eq
    obtain ⟨m, hm, hreads⟩ := hbody.exists_of_mem_right hx
    rw [htold]
    exact ⟨m, hm, hreads.position_eq⟩
  cases grouped with
  | true =>
      refine ⟨t.changes, t.commit, rfl, rfl, ?_⟩
      intro e he
      obtain ⟨x, hx, rfl⟩ := List.mem_map.mp he
      rw [Event.position_stamp]
      exact hcontent hx
  | false => exact ⟨t.content.events, _, rfl, rfl, fun e he => hcontent he⟩

/-- The events of a transaction stand where its messages stand. -/
theorem position_of_mem_events {t : ToldTransaction plugin} {grouped : Bool} {e : Event}
    (h : e ∈ t.events grouped) : ∃ m ∈ t.messages, e.position = m.position := by
  obtain ⟨contents, ending, heq, hending, hcontents⟩ := t.events_eq grouped
  rw [heq] at h
  rcases List.mem_append.mp h with h | h
  · obtain ⟨m, hm, hposition⟩ := hcontents e h
    exact ⟨m, List.mem_append_left _ (List.mem_of_mem_tail hm), hposition⟩
  · rw [List.mem_singleton.mp h]
    exact ⟨t.closing, List.mem_append_right _ (List.mem_singleton_self _), hending⟩

end ToldTransaction

namespace LoggedTransaction

/-- A transaction whose messages, as far as a plugin can read them, are a beginning, changes and a
commit. -/
structure IsFramed (plugin : Plugin) (t : LoggedTransaction) : Prop where
  begins : ∃ opening body, t.changes = opening :: body ∧
    (∀ e, plugin.Reads (opening.toMessage t.xid) e → ∃ p xid csn, e = .begin p xid csn) ∧
    ∀ m ∈ body, ∀ e, plugin.Reads (m.toMessage t.xid) e → e.IsChange
  commits : ∀ e, plugin.Reads (t.commit.toMessage t.xid) e →
    ∃ p xid csn time, e = .commit p xid csn time

/-- The rows of a transaction stand before its commit. -/
def HasRowsBefore (t : LoggedTransaction) : Prop :=
  ∀ m ∈ t.changes.tail, m.position < t.position

/-- The records of a transaction: all its messages can be read, and its events are converted. -/
def IsConverted (c : FeedContext) (t : LoggedTransaction) (records : List Record) : Prop :=
  ∃ u : ToldTransaction c.plugin, u.messages = t.messages ∧
    c.converter.convertAll (u.events c.settings.grouped) = .ok records

variable {plugin : Plugin} {t : LoggedTransaction} {told more : List Message} {m : Message}

/-- The last message of a transaction is its commit. -/
theorem messages_eq (t : LoggedTransaction) :
    t.messages = t.changes.map (LoggedMessage.toMessage t.xid) ++ [t.commit.toMessage t.xid] := by
  simp [messages, logged]

/-- The message that ends a transaction is its commit. -/
theorem last_message (h : t.messages = told ++ [m]) : m = t.commit.toMessage t.xid := by
  rw [t.messages_eq] at h
  exact (List.singleton_inj.mp (List.append_inj' h rfl).2).symm

/-- A transaction starts with its beginning, and that is not all of it. -/
theorem IsFramed.first (hframed : t.IsFramed plugin) (h : t.messages = m :: more) :
    (∀ e, plugin.Reads m e → ∃ p xid csn, e = .begin p xid csn) ∧ more ≠ [] := by
  obtain ⟨opening, body, hchanges, hopening, -⟩ := hframed.begins
  rw [t.messages_eq, hchanges, List.map_cons, List.cons_append] at h
  obtain ⟨rfl, rfl⟩ := List.cons.inj h
  exact ⟨hopening, by simp⟩

/-- What comes between the first and the last message of a transaction is one of its rows. -/
theorem exists_row_of_inner (h : t.messages = told ++ m :: more) (htold : told ≠ [])
    (hmore : more ≠ []) : ∃ l ∈ t.changes.tail, m = l.toMessage t.xid := by
  obtain ⟨first, others, rfl⟩ := List.exists_cons_of_ne_nil htold
  obtain ⟨init, last, rfl⟩ := (List.eq_nil_or_concat more).resolve_left hmore
  rw [t.messages_eq, List.concat_eq_append, ← List.cons_append, ← List.append_assoc] at h
  obtain ⟨hinner, -⟩ := List.append_inj' h rfl
  have hm : m ∈ (t.changes.map (LoggedMessage.toMessage t.xid)).tail := by
    rw [hinner]
    simp
  rw [← List.map_tail] at hm
  obtain ⟨l, hl, rfl⟩ := List.mem_map.mp hm
  exact ⟨l, hl, rfl⟩

/-- What comes between the first and the last message of a transaction is a change. -/
theorem IsFramed.inner (hframed : t.IsFramed plugin) (h : t.messages = told ++ m :: more)
    (htold : told ≠ []) (hmore : more ≠ []) : ∀ e, plugin.Reads m e → e.IsChange := by
  obtain ⟨opening, body, hchanges, -, hbody⟩ := hframed.begins
  obtain ⟨l, hl, rfl⟩ := exists_row_of_inner h htold hmore
  exact hbody l (by simpa [hchanges] using hl)

/-- What comes between the first and the last message of a transaction stands before its commit. -/
theorem HasRowsBefore.inner (hrows : t.HasRowsBefore) (h : t.messages = told ++ m :: more)
    (htold : told ≠ []) (hmore : more ≠ []) : m.position < t.position := by
  obtain ⟨l, hl, rfl⟩ := exists_row_of_inner h htold hmore
  exact hrows l hl

/-- A transaction has only one list of records. -/
theorem IsConverted.unique {c : FeedContext} {records records' : List Record}
    (h : t.IsConverted c records) (h' : t.IsConverted c records') : records = records' := by
  obtain ⟨u, hu, hconvert⟩ := h
  obtain ⟨v, hv, hconvert'⟩ := h'
  have hsame : [] ++ u.messages = [] ++ v.messages := by rw [hu, hv]
  obtain rfl : u = v := ToldTransaction.unique hsame
  exact Except.ok.inj (hconvert.symm.trans hconvert')

/-- No record of a transaction is behind its commit. -/
theorem IsConverted.position_le {c : FeedContext} {records : List Record}
    (h : t.IsConverted c records) {r : Record} (hr : r ∈ records) : r.position ≤ t.position := by
  obtain ⟨u, hmessages, hconvert⟩ := h
  obtain ⟨e, he, hrecord⟩ := Converter.exists_event_of_mem hconvert hr
  obtain ⟨m, hm, hposition⟩ := ToldTransaction.position_of_mem_events he
  rw [Converter.convert_position hrecord, hposition]
  exact position_le_of_mem_messages (hmessages ▸ hm)

/-- Where the rows of a transaction are before its commit, so are its records but the last one,
which stands at the commit. -/
theorem IsConverted.split {c : FeedContext} {records : List Record} (hrows : t.HasRowsBefore)
    (h : t.IsConverted c records) : ∃ contents ending, records = contents ++ [ending] ∧
      ending.position = t.position ∧ ∀ r ∈ contents, r.position < t.position := by
  obtain ⟨u, hmessages, hconvert⟩ := h
  obtain ⟨events, commit, heq, hcommit, hevents⟩ := u.events_eq c.settings.grouped
  rw [t.messages_eq, ToldTransaction.messages] at hmessages
  obtain ⟨htold, hclosing⟩ := List.append_inj' hmessages rfl
  rw [heq] at hconvert
  obtain ⟨contents, last, hcontents, hlast, rfl⟩ := Converter.convert_all_append.mp hconvert
  obtain ⟨ending, hending, rfl⟩ := Converter.convert_all_singleton.mp hlast
  refine ⟨contents, ending, rfl, ?_, fun r hr => ?_⟩
  · rw [Converter.convert_position hending, hcommit, List.singleton_inj.mp hclosing]
    rfl
  · obtain ⟨e, he, hrecord⟩ := Converter.exists_event_of_mem hcontents hr
    obtain ⟨m, hm, hposition⟩ := hevents e he
    rw [htold, ← List.map_tail] at hm
    obtain ⟨l, hl, rfl⟩ := List.mem_map.mp hm
    rw [Converter.convert_position hrecord, hposition]
    exact hrows l hl

/-- Where the rows of a transaction are before its commit, only its last record stands there. -/
theorem IsConverted.last_at_commit {c : FeedContext} {before after : List Record} {r : Record}
    (hrows : t.HasRowsBefore) (h : t.IsConverted c (before ++ r :: after))
    (hr : r.position = t.position) : after = [] := by
  obtain ⟨contents, ending, hsplit, -, hcontents⟩ := h.split hrows
  rcases List.eq_nil_or_concat after with hnil | ⟨init, last, rfl⟩
  · exact hnil
  · rw [List.concat_eq_append, ← List.cons_append, ← List.append_assoc] at hsplit
    obtain ⟨rfl, -⟩ := List.append_inj' hsplit rfl
    exact absurd hr (hcontents r (by simp)).ne

/-- A transaction told by messages ends at the position of its commit. -/
theorem last_position_of_told {u : ToldTransaction plugin} (h : u.messages = t.messages)
    (p : Position) : FeedContext.lastPosition u.batch p = t.position := by
  have hclosing : u.closing = t.commit.toMessage t.xid := last_message h.symm
  have hcommit : u.commit.position = t.position := by
    rw [ToldTransaction.commit, Event.position, hclosing]
    rfl
  rw [ToldTransaction.batch, FeedContext.last_position_of_le p, hcommit]
  intro e he
  rw [hcommit]
  have hmem : e ∈ u.events true := List.mem_append_left _ he
  obtain ⟨m, hm, hposition⟩ := ToldTransaction.position_of_mem_events hmem
  rw [hposition]
  exact position_le_of_mem_messages (h ▸ hm)

/-- A list of transactions of which messages were told: whole ones, and then perhaps the first
messages of the next one, but not all of them. -/
def IsPart (todo : List LoggedTransaction) (part : List Message) : Prop :=
  part = [] ∨ ∃ t rest more, todo = t :: rest ∧ t.messages = part ++ more ∧ more ≠ []

/-- The next message belongs to the first of the transactions that are still to be told. -/
theorem IsPart.next {todo : List LoggedTransaction} {part left : List Message} {m : Message}
    (h : IsPart todo part) (hleft : messagesOf todo = part ++ m :: left) :
    ∃ t rest more, todo = t :: rest ∧ t.messages = part ++ m :: more ∧
      left = more ++ messagesOf rest := by
  rcases h with rfl | ⟨t, rest, more, rfl, hmessages, hmore⟩
  · obtain _ | ⟨t, rest⟩ := todo
    · exact absurd hleft (by simp)
    · obtain ⟨n, more, hmessages⟩ := List.exists_cons_of_ne_nil t.messages_ne_nil
      rw [messages_of_cons, hmessages, List.nil_append, List.cons_append] at hleft
      obtain ⟨rfl, rfl⟩ := List.cons.inj hleft
      exact ⟨t, rest, more, rfl, hmessages, rfl⟩
  · obtain ⟨n, more, rfl⟩ := List.exists_cons_of_ne_nil hmore
    rw [messages_of_cons, hmessages, List.append_assoc] at hleft
    obtain ⟨rfl, rfl⟩ := List.cons.inj (List.append_cancel_left hleft)
    exact ⟨t, rest, more, rfl, hmessages, rfl⟩

end LoggedTransaction

/-! ## Reading a transaction message by message -/

/-- Where a feed stands in a transaction of which messages were told: the buffer, and the records
of the transaction that were given out already. -/
inductive Cursor (c : FeedContext) : List Message → TransactionBuffer → List Record → Prop
  /-- Nothing of the transaction was told. -/
  | between : Cursor c [] ⟨c.settings.grouped, none⟩ []
  /-- A feed that groups holds back what was told. -/
  | collects {told : List Message} (content : OpenTransaction)
      (hgrouped : c.settings.grouped = true) (htells : TellsOpen c.plugin told content) :
      Cursor c told ⟨true, some content⟩ []
  /-- A feed that does not group gives out what was told. -/
  | passes {told : List Message} {emitted : List Record} (content : OpenTransaction)
      (hgrouped : c.settings.grouped = false) (htells : TellsOpen c.plugin told content)
      (hconvert : c.converter.convertAll content.events = .ok emitted) :
      Cursor c told ⟨false, none⟩ emitted

namespace Cursor

open LoggedTransaction

variable {c : FeedContext} {told more : List Message} {after : TransactionBuffer}
  {emitted : List Record} {t : LoggedTransaction} {m : Message} {loop : Loop}
  {out : Option Batch}

/-- The buffer groups as the feed does. -/
theorem grouped_eq {b : TransactionBuffer} (h : Cursor c told b emitted) :
    b.grouped = c.settings.grouped := by
  cases h with
  | between => rfl
  | collects content hgrouped htells => exact hgrouped.symm
  | passes content hgrouped htells hconvert => exact hgrouped.symm

/-- What a message inside of a transaction leads to: nothing is given out, or the record of a change
by a feed that does not group. -/
def GoesOn (c : FeedContext) (told : List Message) (m : Message) (emitted : List Record)
    (after : TransactionBuffer) (out : Option Batch) : Prop :=
  (out = none ∧ Cursor c (told ++ [m]) after emitted) ∨
    told ≠ [] ∧ c.settings.grouped = false ∧ ∃ r, out = some ⟨[r], m.position⟩ ∧
      r.position = m.position ∧ Cursor c (told ++ [m]) after (emitted ++ [r])

/-- What the last message of a transaction leads to: the rest of the transaction is given out,
unless a feed that groups has pushed it before. -/
def Ends (c : FeedContext) (t : LoggedTransaction) (position : Position) (emitted : List Record)
    (after : TransactionBuffer) (out : Option Batch) : Prop :=
  after = ⟨c.settings.grouped, none⟩ ∧
    ((out = none ∧ c.settings.grouped = true ∧ t.position ≤ position) ∨
    ∃ records, out = some ⟨records, t.position⟩ ∧ t.IsConverted c (emitted ++ records) ∧
      (c.settings.grouped = true → position < t.position))

/-- A batch of one event is at the position of its message. -/
theorem last_position_of_one {e : Event} (he : c.plugin.Reads m e) (p : Position) :
    FeedContext.lastPosition [e] p = m.position :=
  he.position_eq

/-- The beginning of a transaction is held back or left out. -/
theorem receives_begin (hbegin : ∀ e, c.plugin.Reads m e → ∃ p xid csn, e = .begin p xid csn)
    (hbuffer : loop.buffer = ⟨c.settings.grouped, none⟩)
    (hreceive : c.receive loop m = .ok (after, out)) : GoesOn c [] m [] after out := by
  obtain ⟨e, given, hm, hoffer, hout⟩ := FeedContext.receive_cases hreceive
  obtain ⟨p, xid, csn, rfl⟩ := hbegin e hm
  obtain rfl : p = m.position := hm.position_eq
  have htells : TellsOpen c.plugin [m] ⟨xid, csn, []⟩ := ⟨⟨m, [], rfl, hm, .nil⟩, by simp⟩
  have hopened : given = none ∧ Cursor c [m] after [] := by
    rw [hbuffer] at hoffer
    cases hgrouped : c.settings.grouped with
    | true =>
        rw [hgrouped] at hoffer
        cases TransactionBuffer.offers_of_offer rfl hoffer with
        | opens => exact ⟨rfl, .collects _ hgrouped htells⟩
    | false =>
        rw [hgrouped] at hoffer
        obtain ⟨rfl, rfl⟩ : (⟨false, none⟩ : TransactionBuffer) = after ∧ none = given := by
          simpa [TransactionBuffer.offer] using hoffer
        exact ⟨rfl, .passes _ hgrouped htells rfl⟩
  obtain ⟨rfl, hcursor⟩ := hopened
  rcases hout with ⟨-, rfl⟩ | ⟨events, hevents, -⟩
  · exact .inl ⟨rfl, hcursor⟩
  · exact absurd hevents (by simp)

/-- A change is held back or given out. -/
theorem receives_change {b : TransactionBuffer} (h : Cursor c told b emitted) (htold : told ≠ [])
    (hchange : ∀ e, c.plugin.Reads m e → e.IsChange) (hbuffer : loop.buffer = b)
    (hreceive : c.receive loop m = .ok (after, out)) : GoesOn c told m emitted after out := by
  obtain ⟨e, given, hm, hoffer, hout⟩ := FeedContext.receive_cases hreceive
  have he := hchange e hm
  rw [hbuffer] at hoffer
  cases h with
  | between => exact absurd rfl htold
  | collects content hgrouped htells =>
      cases TransactionBuffer.offers_of_offer rfl hoffer with
      | adds t e he' =>
          rcases hout with ⟨-, rfl⟩ | ⟨events, hevents, -⟩
          · exact .inl ⟨rfl, .collects _ hgrouped (htells.add hm he)⟩
          · exact absurd hevents (by simp)
      | closes t p xid csn time => exact he.elim
  | passes content hgrouped htells hconvert =>
      obtain ⟨rfl, ⟨⟨p, xid, csn, rfl⟩, -⟩ | rfl⟩ := TransactionBuffer.offer_ungrouped rfl hoffer
      · exact he.elim
      · rcases hout with ⟨hnone, -⟩ | ⟨events, hevents, ⟨hskips, -⟩ | ⟨-, records, hrecords, rfl⟩⟩
        · exact absurd hnone (by simp)
        · exact absurd hskips (by simp)
        · -- The record is out before its transaction is complete.
          obtain rfl := Option.some.inj hevents
          obtain ⟨r, hr, rfl⟩ := Converter.convert_all_singleton.mp hrecords
          refine .inr ⟨htold, hgrouped, r, by rw [last_position_of_one hm], ?_, ?_⟩
          · rw [Converter.convert_position hr, hm.position_eq]
          · refine .passes _ hgrouped (htells.add hm he) (Converter.convert_all_append.mpr ?_)
            exact ⟨emitted, [r], hconvert, hrecords, rfl⟩

/-- The commit of a transaction gives out the rest of it, unless it was pushed before. -/
theorem receives_commit {b : TransactionBuffer} (h : Cursor c told b emitted) (htold : told ≠ [])
    (hmessages : t.messages = told ++ [m])
    (hcommit : ∀ e, c.plugin.Reads m e → ∃ p xid csn time, e = .commit p xid csn time)
    (hbuffer : loop.buffer = b) (hreceive : c.receive loop m = .ok (after, out)) :
    Ends c t loop.position emitted after out := by
  obtain ⟨e, given, hm, hoffer, hout⟩ := FeedContext.receive_cases hreceive
  obtain ⟨p, xid, csn, time, rfl⟩ := hcommit e hm
  obtain rfl : p = m.position := hm.position_eq
  rw [hbuffer] at hoffer
  cases h with
  | between => exact absurd rfl htold
  | collects content hgrouped htells =>
      obtain ⟨u, hu, hbatch⟩ := ToldTransaction.of_tells_open htells hm
      have hwhole : u.messages = t.messages := hu.trans hmessages.symm
      cases TransactionBuffer.offers_of_offer rfl hoffer with
      | adds t e he => exact he.elim
      | closes t p xid csn time =>
          refine ⟨by rw [hgrouped], ?_⟩
          rcases hout with
            ⟨hnone, -⟩ | ⟨events, hevents, ⟨-, hle, rfl⟩ | ⟨hnew, records, hrecords, rfl⟩⟩
          · exact absurd hnone (by simp)
          · -- The batch was pushed before, and it is left out without being converted.
            obtain rfl := Option.some.inj hevents
            rw [← hbatch, last_position_of_told hwhole] at hle
            exact .inl ⟨rfl, hgrouped, hle⟩
          · obtain rfl := Option.some.inj hevents
            rw [← hbatch] at hrecords hnew ⊢
            rw [last_position_of_told hwhole] at hnew ⊢
            refine .inr ⟨records, rfl, ⟨u, hwhole, ?_⟩,
              fun _ => not_le.mp fun hle => hnew ⟨rfl, hle⟩⟩
            rw [ToldTransaction.events, hgrouped]
            exact hrecords
  | passes content hgrouped htells hconvert =>
      obtain ⟨rfl, ⟨⟨q, xid', csn', heq⟩, -⟩ | rfl⟩ := TransactionBuffer.offer_ungrouped rfl hoffer
      · exact absurd heq (by simp)
      · refine ⟨by rw [hgrouped], ?_⟩
        rcases hout with ⟨hnone, -⟩ | ⟨events, hevents, ⟨hskips, -⟩ | ⟨-, records, hrecords, rfl⟩⟩
        · exact absurd hnone (by simp)
        · exact absurd hskips (by simp)
        · obtain rfl := Option.some.inj hevents
          have hposition : m.position = t.position := by
            rw [last_message hmessages]
            rfl
          refine .inr ⟨records, by rw [last_position_of_one hm, hposition],
            ⟨⟨told, m, content, xid, csn, time, htells, hm⟩, hmessages.symm, ?_⟩,
            by simp [hgrouped]⟩
          rw [ToldTransaction.events, hgrouped]
          exact Converter.convert_all_append.mpr ⟨emitted, records, hconvert, hrecords, rfl⟩

/-- Only the beginning of a transaction is read where nothing was told. -/
theorem eq_nil_of_nil {b : TransactionBuffer} (h : Cursor c [] b emitted) :
    b = ⟨c.settings.grouped, none⟩ ∧ emitted = [] := by
  cases h with
  | between => exact ⟨rfl, rfl⟩
  | collects content hgrouped htells =>
      obtain ⟨opening, body, hnil, -⟩ := htells.told_eq
      exact absurd hnil (by simp)
  | passes content hgrouped htells hconvert =>
      obtain ⟨opening, body, hnil, -⟩ := htells.told_eq
      exact absurd hnil (by simp)

/-- What the next message of a transaction leads to. -/
theorem receives (hframed : t.IsFramed c.plugin) (h : Cursor c told loop.buffer emitted)
    (hmessages : t.messages = told ++ m :: more) (hreceive : c.receive loop m = .ok (after, out)) :
    (more ≠ [] ∧ GoesOn c told m emitted after out) ∨
      (more = [] ∧ Ends c t loop.position emitted after out) := by
  by_cases htold : told = []
  · subst htold
    obtain ⟨hbuffer, rfl⟩ := h.eq_nil_of_nil
    obtain ⟨hbegin, hmore⟩ := hframed.first hmessages
    exact .inl ⟨hmore, receives_begin hbegin hbuffer hreceive⟩
  · by_cases hmore : more = []
    · subst hmore
      have hcommit := last_message hmessages ▸ hframed.commits
      exact .inr ⟨rfl, h.receives_commit htold hmessages hcommit rfl hreceive⟩
    · have hchange := hframed.inner hmessages htold hmore
      exact .inl ⟨hmore, h.receives_change htold hchange rfl hreceive⟩

end Cursor

/-! ## Samples -/

/-- A transaction whose messages are read as a beginning, changes and a commit is framed. -/
theorem LoggedTransaction.framed_of_reads {plugin : Plugin} {t : LoggedTransaction}
    {opening : LoggedMessage} {body : List LoggedMessage} (hchanges : t.changes = opening :: body)
    (hbegin : ∃ p xid csn, plugin.Reads (opening.toMessage t.xid) (.begin p xid csn))
    (hbody : ∀ m ∈ body, ∃ e : Event, plugin.Reads (m.toMessage t.xid) e ∧ e.IsChange)
    (hcommit : ∃ p xid csn time,
      plugin.Reads (t.commit.toMessage t.xid) (.commit p xid csn time)) : t.IsFramed plugin := by
  obtain ⟨p, xid, csn, hbegin⟩ := hbegin
  obtain ⟨p', xid', csn', time, hcommit⟩ := hcommit
  refine ⟨⟨opening, body, hchanges, fun e he => ?_, fun m hm e he => ?_⟩, fun e he => ?_⟩
  · exact ⟨p, xid, csn, he.unique hbegin⟩
  · obtain ⟨change, hreads, hchange⟩ := hbody m hm
    rwa [he.unique hreads]
  · exact ⟨p', xid', csn', time, he.unique hcommit⟩

/-- A transaction that inserts an item. -/
def LoggedTransaction.ofItem : LoggedTransaction :=
  ⟨some "7", [⟨⟨10⟩, some "BEGIN 7"⟩, ⟨⟨20⟩, some "table public.item: INSERT: id[integer]:1"⟩],
    ⟨⟨30⟩, some "COMMIT 7"⟩, by decide⟩

namespace LoggedTransaction

theorem framed_of_item : ofItem.IsFramed .testDecoding ∧ ofItem.HasRowsBefore := by
  refine ⟨framed_of_reads rfl ⟨⟨10⟩, some 7, none, ?_⟩ ?_ ⟨⟨30⟩, some 7, none, none, ?_⟩, ?_⟩
  · decide +kernel
  · exact List.forall_mem_singleton.mpr ⟨.row ⟨⟨20⟩, .insert, "public", "item",
      [⟨"id", "integer", .text "1"⟩], [], none, none⟩, by decide +kernel, trivial⟩
  · decide +kernel
  · exact List.forall_mem_singleton.mpr (by decide)

end LoggedTransaction

/-- A server with a transaction that inserts an item. -/
def SlotServer.ofItem : SlotServer where
  committed := [.ofItem]
  slot := none
  plugin := none
  origin := .zero
  ascending := List.pairwise_singleton _ _

/-- The transaction of that server is framed and has its row before its commit. -/
theorem SlotServer.framed_item :
    ∀ t ∈ SlotServer.ofItem.committed, t.IsFramed .testDecoding ∧ t.HasRowsBefore :=
  List.forall_mem_singleton.mpr LoggedTransaction.framed_of_item

end ChangeFeed
