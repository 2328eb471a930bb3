import ChangeFeed.Proofs.Feed.Framing

/-!
# What is given out up to a position

A record stands for more than itself: when it is given out, so is every transaction of the slot up
to its position (`InOrder`), although the positions of the records of several transactions go back
and forth. This holds because a feed is abreast of its session (`Abreast`): it has given out the
transactions that the session has told, and holds what was told of the next one. Read
`Abreast.receives` first: it says what each message adds.
-/

namespace ChangeFeed

open LoggedTransaction

/-! ## Transactions up to a position -/

namespace SlotServer

/-- Every transaction that is behind the origin of the slot and up to a position has a property,
and no other one can commit there. -/
structure UpTo (s : SlotServer) (P : LoggedTransaction → Prop) (q : Position) : Prop where
  bounded : q ≤ s.origin ∨ ∃ t ∈ s.committed, q ≤ t.position
  all : ∀ t ∈ s.past s.origin, t.position ≤ q → P t

variable {s s' : SlotServer} {P Q : LoggedTransaction → Prop} {p q : Position}

/-- Nothing is behind the origin and up to it. -/
theorem UpTo.of_le_origin (h : q ≤ s.origin) : s.UpTo P q where
  bounded := .inl h
  all _ ht hq := absurd (hq.trans h) (not_le.mpr (mem_past.mp ht).2)

/-- What is up to a position is up to a later one. -/
theorem UpTo.of_le (h : s.UpTo P q) (hle : p ≤ q) : s.UpTo P p where
  bounded := h.bounded.imp hle.trans fun ⟨t, ht, hq⟩ => ⟨t, ht, hle.trans hq⟩
  all t ht hp := h.all t ht (hp.trans hle)

/-- A weaker property is had up to the same position. -/
theorem UpTo.imp (h : s.UpTo P q) (himp : ∀ t, P t → Q t) : s.UpTo Q q :=
  ⟨h.bounded, fun t ht hq => himp t (h.all t ht hq)⟩

/-- What is had up to two positions is had up to the later one. -/
theorem UpTo.to_max (hp : s.UpTo P p) (hq : s.UpTo P q) : s.UpTo P (max p q) := by
  rcases max_choice p q with h | h
  · rw [h]
    exact hp
  · rw [h]
    exact hq

/-- What is had up to a position is had there on every server with the same log. -/
theorem UpTo.same_log (h : s.UpTo P q) (hlog : s.SameLog s') : s'.UpTo P q := by
  refine ⟨?_, fun t ht hq => ?_⟩
  · rw [hlog.1, hlog.2]
    exact h.bounded
  · rw [hlog.2, hlog.past_eq] at ht
    exact h.all t ht hq

/-- Another commit is behind every position up to which something is had. -/
theorem UpTo.commit (h : s.UpTo P q) (t : LoggedTransaction) : (s.commit t).UpTo P q := by
  rcases s.commit_cases t with hsame | ⟨hadded, hbehind⟩
  · exact h.same_log ⟨hsame, s.commit_origin t⟩
  · refine ⟨?_, fun u hu hq => ?_⟩
    · rw [commit_origin, hadded]
      exact h.bounded.imp_right fun ⟨c, hc, hle⟩ => ⟨c, List.mem_append_left _ hc, hle⟩
    · rw [commit_origin] at hu
      obtain ⟨hu, horigin⟩ := mem_past.mp hu
      rw [hadded] at hu
      rcases List.mem_append.mp hu with hu | hu
      · exact h.all u (mem_past.mpr ⟨hu, horigin⟩) hq
      · obtain rfl := List.mem_singleton.mp hu
        rcases h.bounded with hle | ⟨c, hc, hle⟩
        · exact absurd (hq.trans hle) (not_le.mpr horigin)
        · exact absurd (hq.trans hle) (not_le.mpr (hbehind c hc))

/-- Where a property is had up to a base and by the first transactions behind it, it is had up to
the next one, and up to its commit if that one has it too. -/
theorem UpTo.next {base : Position} {done rest : List LoggedTransaction} {t : LoggedTransaction}
    (h : s.UpTo P base) (hcut : s.past base = done ++ t :: rest) (hdone : ∀ u ∈ done, P u)
    (hq : q ≤ t.position) (ht : q = t.position → P t) : s.UpTo P q := by
  have hsorted := s.past_ascending base
  rw [hcut] at hsorted
  have hrest : ∀ u ∈ rest, t.position < u.position :=
    (List.pairwise_cons.mp (List.pairwise_append.mp hsorted).2.1).1
  have hmem : t ∈ s.past base := by simp [hcut]
  have hcommitted : t ∈ s.committed := (mem_past.mp hmem).1
  refine ⟨.inr ⟨t, hcommitted, hq⟩, ?_⟩
  intro u hu huq
  by_cases hbase : u.position ≤ base
  · exact h.all u hu hbase
  · have hmem : u ∈ s.past base := mem_past.mpr ⟨(mem_past.mp hu).1, not_le.mp hbase⟩
    rw [hcut] at hmem
    rcases List.mem_append.mp hmem with hmem | hmem
    · exact hdone u hmem
    · rcases List.mem_cons.mp hmem with rfl | hmem
      · exact ht (le_antisymm hq huq)
      · exact absurd (huq.trans hq) (not_le.mpr (hrest u hmem))

end SlotServer

/-! ## Records that stand for what is before them -/

namespace LoggedTransaction

/-- A transaction was delivered before, or its records were given out among others. -/
def IsGiven (c : FeedContext) (delivered : LoggedTransaction → Prop) (records : List Record)
    (t : LoggedTransaction) : Prop :=
  delivered t ∨ ∃ rs, t.IsConverted c rs ∧ rs.Sublist records

/-- What was given out stays given out. -/
theorem IsGiven.sublist {c : FeedContext} {delivered : LoggedTransaction → Prop}
    {records records' : List Record} {t : LoggedTransaction} (h : t.IsGiven c delivered records)
    (hsub : records.Sublist records') : t.IsGiven c delivered records' :=
  h.imp_right fun ⟨rs, hrs, hin⟩ => ⟨rs, hrs, hin.trans hsub⟩

/-- Transactions of which the next one was told in part are followed by others. -/
theorem IsPart.append {todo : List LoggedTransaction} {part : List Message} (h : IsPart todo part)
    (more : List LoggedTransaction) : IsPart (todo ++ more) part := by
  rcases h with rfl | ⟨t, rest, left, rfl, hmessages, hleft⟩
  · exact .inl rfl
  · exact .inr ⟨t, rest ++ more, left, rfl, hmessages, hleft⟩

end LoggedTransaction

section

variable (server : SlotServer) (c : FeedContext) (delivered : LoggedTransaction → Prop)

/-- Records come in such an order that with each of them everything up to its position is given
out. -/
def InOrder (records : List Record) : Prop :=
  ∀ before r after, records = before ++ r :: after →
    server.UpTo (IsGiven c delivered (before ++ [r])) r.position

/-- How a feed stands with a session: the first transactions behind the base of the session are
given out like everything up to the base, and the next one was told in part. -/
structure Abreast (base : Position) (records : List Record) (returned : List Message)
    (b : TransactionBuffer) : Prop where
  origin_le : server.origin ≤ base
  base_given : server.UpTo (IsGiven c delivered records) base
  cut : ∃ done todo part emitted, server.past base = done ++ todo ∧
    (∀ t ∈ done, t.IsGiven c delivered records) ∧ returned = messagesOf done ++ part ∧
    IsPart todo part ∧ Cursor c part b emitted ∧ emitted.Sublist records

end

variable {server server' : SlotServer} {c : FeedContext} {delivered : LoggedTransaction → Prop}
  {records batch kept : List Record}

/-- A batch is in order behind records that are. -/
theorem InOrder.append (h : InOrder server c delivered records)
    (hbatch : ∀ before r after, batch = before ++ r :: after →
      server.UpTo (IsGiven c delivered (records ++ (before ++ [r]))) r.position) :
    InOrder server c delivered (records ++ batch) := by
  intro before r after hsplit
  rcases List.append_eq_append_iff.mp hsplit with ⟨more, rfl, hmore⟩ | ⟨more, hmore, hrest⟩
  · rw [List.append_assoc]
    exact hbatch more r after hmore
  · cases more with
    | nil =>
        rw [List.append_nil] at hmore
        have hfirst := hbatch [] r after (by simpa using hrest.symm)
        rwa [hmore] at hfirst
    | cons x more =>
        obtain ⟨rfl, -⟩ := List.cons.inj hrest
        exact h before r more hmore

/-- With each of the first records, everything up to its position is among the first records. -/
theorem InOrder.up_to_of_mem (h : InOrder server c delivered records) (hkept : kept <+: records)
    {r : Record} (hr : r ∈ kept) : server.UpTo (IsGiven c delivered kept) r.position := by
  obtain ⟨before, after, rfl⟩ := List.append_of_mem hr
  obtain ⟨more, rfl⟩ := hkept
  refine (h before r (after ++ more) (by simp)).imp fun t ht => ht.sublist ?_
  exact List.Sublist.append_left (by simp) before

/-- Records stay in order on a server where everything is had up to the same positions. -/
theorem InOrder.of_up_to (h : InOrder server c delivered records)
    (hserver : ∀ P q, server.UpTo P q → server'.UpTo P q) :
    InOrder server' c delivered records :=
  fun before r after hsplit => hserver _ _ (h before r after hsplit)

namespace Abreast

variable {base : Position} {returned : List Message} {b : TransactionBuffer}

/-- A feed is abreast of a session that has told nothing. -/
theorem starts (horigin : server.origin ≤ base)
    (hbase : server.UpTo (IsGiven c delivered records) base)
    (hb : b = ⟨c.settings.grouped, none⟩) : Abreast server c delivered base records [] b :=
  ⟨horigin, hbase, [], server.past base, [], [], rfl, by simp, rfl, .inl rfl, hb ▸ .between,
    by simp⟩

/-- A feed stays abreast when another transaction commits. -/
theorem commit (h : Abreast server c delivered base records returned b) (t : LoggedTransaction) :
    Abreast (server.commit t) c delivered base records returned b := by
  obtain ⟨done, todo, part, emitted, hcut, hdone, hreturned, hpart, hcursor, hsub⟩ := h.cut
  obtain ⟨more, hmore⟩ := server.past_commit_prefix t base
  refine ⟨?_, h.base_given.commit t, done, todo ++ more, part, emitted, ?_, hdone, hreturned,
    hpart.append more, hcursor, hsub⟩
  · rw [SlotServer.commit_origin]
    exact h.origin_le
  · rw [← hmore, hcut, List.append_assoc]

/-- A feed stays abreast on a server with the same log. -/
theorem same_log (h : Abreast server c delivered base records returned b)
    (hlog : server.SameLog server') : Abreast server' c delivered base records returned b := by
  obtain ⟨done, todo, part, emitted, hcut, hrest⟩ := h.cut
  refine ⟨?_, h.base_given.same_log hlog, done, todo, part, emitted, ?_, hrest⟩
  · rw [hlog.2]
    exact h.origin_le
  · rw [hlog.past_eq, hcut]

/-- The message that the session tells next belongs to the first transaction that it has not told
whole. -/
theorem next (h : Abreast server c delivered base records returned b) {m : Message}
    (hm : returned ++ [m] <+: messagesOf (server.past base)) :
    ∃ done t rest part more emitted, server.past base = done ++ t :: rest ∧
      (∀ u ∈ done, u.IsGiven c delivered records) ∧ returned = messagesOf done ++ part ∧
      t.messages = part ++ m :: more ∧ Cursor c part b emitted ∧ emitted.Sublist records := by
  obtain ⟨done, todo, part, emitted, hcut, hdone, rfl, hpart, hcursor, hsub⟩ := h.cut
  obtain ⟨left, hleft⟩ := hm
  rw [hcut, messages_of_append, List.append_assoc, List.append_assoc] at hleft
  obtain ⟨t, rest, more, rfl, hmessages, -⟩ :=
    hpart.next (by simpa using (List.append_cancel_left hleft).symm)
  exact ⟨done, t, rest, part, more, emitted, hcut, hdone, rfl, hmessages, hcursor, hsub⟩

section

variable {done rest : List LoggedTransaction} {t : LoggedTransaction} {part more : List Message}
  {m : Message} {records' : List Record}

/-- Everything up to a position that is not behind the next transaction is given out, if that
transaction is where the position reaches it. -/
theorem up_to_next (h : Abreast server c delivered base records returned b)
    (hcut : server.past base = done ++ t :: rest)
    (hdone : ∀ u ∈ done, u.IsGiven c delivered records) (hkept : records.Sublist records')
    {q : Position} (hq : q ≤ t.position)
    (ht : q = t.position → t.IsGiven c delivered records') :
    server.UpTo (IsGiven c delivered records') q :=
  (h.base_given.imp fun _ hu => hu.sublist hkept).next hcut
    (fun u hu => (hdone u hu).sublist hkept) hq ht

/-- A feed stays abreast while a transaction is told. -/
theorem told_part (h : Abreast server c delivered base records returned b)
    (hcut : server.past base = done ++ t :: rest)
    (hdone : ∀ u ∈ done, u.IsGiven c delivered records) (hkept : records.Sublist records')
    (hmessages : t.messages = part ++ m :: more) (hmore : more ≠ []) {after : TransactionBuffer}
    {emitted : List Record} (hcursor : Cursor c (part ++ [m]) after emitted)
    (hsub : emitted.Sublist records') :
    Abreast server c delivered base records' (messagesOf done ++ part ++ [m]) after where
  origin_le := h.origin_le
  base_given := h.base_given.imp fun _ hu => hu.sublist hkept
  cut := by
    refine ⟨done, t :: rest, part ++ [m], emitted, hcut, fun u hu => (hdone u hu).sublist hkept,
      by simp, .inr ?_, hcursor, hsub⟩
    exact ⟨t, rest, more, rfl, by simp [hmessages], hmore⟩

/-- A feed stays abreast when a transaction was told whole and is given out. -/
theorem told_whole (h : Abreast server c delivered base records returned b)
    (hcut : server.past base = done ++ t :: rest)
    (hdone : ∀ u ∈ done, u.IsGiven c delivered records) (hkept : records.Sublist records')
    (hmessages : t.messages = part ++ [m]) (hgiven : t.IsGiven c delivered records') :
    Abreast server c delivered base records' (messagesOf done ++ part ++ [m])
      ⟨c.settings.grouped, none⟩ where
  origin_le := h.origin_le
  base_given := h.base_given.imp fun _ hu => hu.sublist hkept
  cut := by
    refine ⟨done ++ [t], rest, [], [], by simp [hcut], ?_, by simp [hmessages],
      .inl rfl, .between, by simp⟩
    intro u hu
    rcases List.mem_append.mp hu with hu | hu
    · exact (hdone u hu).sublist hkept
    · exact List.mem_singleton.mp hu ▸ hgiven

end

/-- What a message of the session adds. Either nothing is given out, or a batch that is in order;
the feed stays abreast, and a feed that groups has then given out everything up to the end of the
batch. -/
theorem receives (hframed : ∀ t ∈ server.committed, t.IsFramed c.plugin ∧ t.HasRowsBefore)
    {loop : Loop} (h : Abreast server c delivered base records returned loop.buffer) {m : Message}
    (hm : returned ++ [m] <+: messagesOf (server.past base))
    (hposition : c.settings.grouped = true →
      server.UpTo (IsGiven c delivered records) loop.position)
    {after : TransactionBuffer} {out : Option Batch}
    (hreceive : c.receive loop m = .ok (after, out)) :
    (out = none ∧ Abreast server c delivered base records (returned ++ [m]) after) ∨
      ∃ batch, out = some batch ∧
        Abreast server c delivered base (records ++ batch.records) (returned ++ [m]) after ∧
        (∀ before r rest, batch.records = before ++ r :: rest →
          server.UpTo (IsGiven c delivered (records ++ (before ++ [r]))) r.position) ∧
        (c.settings.grouped = true →
          server.UpTo (IsGiven c delivered (records ++ batch.records)) batch.last) := by
  obtain ⟨done, t, rest, part, more, emitted, hcut, hdone, rfl, hmessages, hcursor, hsub⟩ :=
    h.next hm
  have hmem : t ∈ server.past base := hcut ▸ by simp
  obtain ⟨hcommitted, hbehind⟩ := SlotServer.mem_past.mp hmem
  obtain ⟨hframe, hrows⟩ := hframed t hcommitted
  have hkept (added : List Record) : records.Sublist (records ++ added) :=
    List.sublist_append_left _ _
  rcases hcursor.receives hframe hmessages hreceive with
    ⟨hmore, ⟨rfl, hnext⟩ | ⟨htold, hpasses, r, rfl, hr, hnext⟩⟩ |
    ⟨rfl, rfl, ⟨rfl, hgroups, hle⟩ | ⟨rs, rfl, hrs, -⟩⟩
  · exact .inl ⟨rfl, h.told_part hcut hdone (.refl _) hmessages hmore hnext hsub⟩
  · -- A feed that passes rows on gives out a row in the middle of its transaction.
    have hbefore : r.position < t.position := hr ▸ hrows.inner hmessages htold hmore
    have hon := h.told_part hcut hdone (hkept [r]) hmessages hmore hnext (hsub.append (.refl _))
    refine .inr ⟨_, rfl, hon, fun before x after hsplit => ?_, fun hgroups => ?_⟩
    · obtain ⟨rfl, rfl⟩ : before = [] ∧ x = r := by
        cases before with
        | nil => exact ⟨rfl, (List.cons.inj hsplit).1.symm⟩
        | cons y before => exact absurd (congrArg List.length hsplit) (by simp)
      exact h.up_to_next hcut hdone (hkept _) hbefore.le fun heq => absurd heq hbefore.ne
    · exact absurd (hgroups.symm.trans hpasses) (by simp)
  · -- A transaction that is replayed was given out before.
    have horigin : t ∈ server.past server.origin :=
      SlotServer.mem_past.mpr ⟨hcommitted, h.origin_le.trans_lt hbehind⟩
    have hgiven := (hposition hgroups).all t horigin hle
    exact .inl ⟨rfl, h.told_whole hcut hdone (.refl _) hmessages hgiven⟩
  · have hwhole : (emitted ++ rs).Sublist (records ++ rs) := hsub.append (.refl _)
    have hgiven : t.IsGiven c delivered (records ++ rs) := .inr ⟨_, hrs, hwhole⟩
    refine .inr ⟨_, rfl, h.told_whole hcut hdone (hkept rs) hmessages hgiven, ?_,
      fun _ => h.up_to_next hcut hdone (hkept rs) (le_refl _) fun _ => hgiven⟩
    rintro before x after rfl
    refine h.up_to_next hcut hdone (hkept _) (hrs.position_le (by simp)) ?_
    intro heq
    -- A record at the position of the commit is the last one of its batch.
    rw [← List.append_assoc] at hrs
    obtain rfl := hrs.last_at_commit hrows heq
    exact hgiven

end Abreast

end ChangeFeed
