import ChangeFeed.Proofs.Session.Delivery

/-!
# How far a release goes

A session that is told what is durable releases the transactions which it has returned completely
and which end by there, and nothing less: where the names of transactions differ, no such
transaction is left at the head of the slot (`Dialogue.InStep.confirm_releases`). The names matter
because a log counts neighbouring transactions of one name as one.
-/

namespace ChangeFeed

open LoggedTransaction

namespace LoggedTransaction

/-- The name that the messages of a transaction carry. -/
def name (t : LoggedTransaction) : Option UInt64 :=
  t.xid.bind fun text => (Number.readUInt64 text.toList).toOption

/-- The messages of a transaction carry its name. -/
theorem xid_eq_name {t : LoggedTransaction} {m : Message} (hm : m ∈ t.messages) :
    m.xid = t.name := by
  obtain ⟨_, _, rfl⟩ := List.mem_map.mp hm
  rfl

end LoggedTransaction

/-- The transactions have different names. -/
def DistinctNames (ts : List LoggedTransaction) : Prop :=
  ts.Pairwise fun t u => t.name ≠ u.name

/-- Whether transactions have different names can be decided. -/
instance (ts : List LoggedTransaction) : Decidable (DistinctNames ts) :=
  inferInstanceAs (Decidable (List.Pairwise _ _))

/-- Where names differ after a commit, they have differed before. -/
theorem DistinctNames.of_commit {server : SlotServer} {t : LoggedTransaction}
    (h : DistinctNames (server.commit t).committed) : DistinctNames server.committed := by
  rcases server.commit_cases t with hsame | ⟨hadded, -⟩
  · exact hsame ▸ h
  · exact (List.pairwise_append.mp (hadded ▸ h)).1

namespace DeliveryLog

variable {server : SlotServer} {base slot : Position} {returned held : List Message}
  {log : DeliveryLog}

/-- Messages that carry the name of a transaction and are followed by another name are those of the
transaction, if all of that is what transactions of different names give. -/
theorem run_eq_messages {t : LoggedTransaction} {others : List LoggedTransaction}
    (hnames : ∀ u ∈ others, t.name ≠ u.name) {run later tail : List Message}
    (hrun : ∀ m ∈ run, m.xid = t.name) (hlater : ¬ GoesOn t.name later)
    (hwhole : t.messages <+: run ++ later)
    (hall : run ++ later ++ tail = messagesOf (t :: others)) : run = t.messages := by
  rcases List.prefix_or_prefix_of_prefix hwhole (List.prefix_append run later) with hle | hle
  · obtain ⟨more, rfl⟩ := hle
    cases more with
    | nil => exact List.append_nil _
    | cons m more =>
        -- The run would go on with a message of the next transaction.
        have hnext : m :: more ++ later ++ tail = messagesOf others := by
          simpa [messages_of_cons] using hall
        have hm : m ∈ messagesOf others := by
          rw [← hnext]
          exact List.mem_cons_self
        obtain ⟨u, hu, hmu⟩ := List.mem_flatMap.mp hm
        have hsame : t.name = u.name := by
          rw [← hrun m (by simp), xid_eq_name hmu]
        exact absurd hsame (hnames u hu)
  · obtain ⟨more, hmore⟩ := hle
    cases more with
    | nil => exact (List.append_nil run).symm.trans hmore
    | cons m more =>
        -- What follows the run would still belong to the transaction.
        obtain ⟨rest, hrest⟩ := hwhole
        rw [← hmore, List.append_assoc] at hrest
        have hfollows : m :: more ++ rest = later := List.append_cancel_left hrest
        refine absurd ⟨m, more ++ rest, hfollows.symm, ?_⟩ hlater
        exact xid_eq_name (hmore ▸ by simp)

/-- The only entry is complete where what is pending are messages of transactions with other
names. -/
theorem complete_of_others {first : DeliveredTransaction} {others : List LoggedTransaction}
    {pending unread : List Message} (hpending : pending ++ unread = messagesOf others)
    (hothers : ∀ u ∈ others, first.xid ≠ u.name) : isFirstComplete ⟨pending, [first], 0⟩ = true := by
  cases pending with
  | nil => rfl
  | cons m pending =>
      have hm : m ∈ messagesOf others := by
        rw [← hpending]
        exact List.mem_cons_self
      obtain ⟨u, hu, hmu⟩ := List.mem_flatMap.mp hm
      have hdiffers : first.xid ≠ m.xid := by
        rw [xid_eq_name hmu]
        exact hothers u hu
      simpa [isFirstComplete] using hdiffers

/-- Messages that start with those of a transaction, and with messages of one name, have the name of
the transaction there. -/
theorem StandsFor.xid_eq_name {first : DeliveredTransaction} {run later : List Message}
    (hrun : StandsFor first run) {t : LoggedTransaction} (hwhole : t.messages <+: run ++ later) :
    first.xid = t.name := by
  obtain ⟨m, more, hm⟩ := List.exists_cons_of_ne_nil t.messages_ne_nil
  obtain ⟨n, rest, rfl⟩ := List.exists_cons_of_ne_nil hrun.ne_nil
  obtain ⟨tail, htail⟩ := hwhole
  rw [hm] at htail
  obtain ⟨rfl, -⟩ := List.cons.inj htail
  have hmem : m ∈ t.messages := hm ▸ List.mem_cons_self
  exact (hrun.xid_eq m List.mem_cons_self).symm.trans (LoggedTransaction.xid_eq_name hmem)

/-- Where the first transaction behind the slot was delivered as a whole, the first entry of the log
stands for it and is complete. -/
theorem Agrees.first_entry (h : Agrees server base slot returned held log)
    {t : LoggedTransaction} {others : List LoggedTransaction}
    (hpast : server.past slot = t :: others) (hnames : DistinctNames (t :: others))
    (hwhole : t.messages <+: held) :
    ∃ first rest, log.delivered = first :: rest ∧ first.last = t.position ∧
      isFirstComplete ⟨log.pending, first :: rest, 0⟩ = true := by
  have hothers := (List.pairwise_cons.mp hnames).1
  obtain ⟨read, ⟨unread, hread⟩, hheld⟩ := h.read
  have hall : held ++ (log.pending ++ messagesOf unread) = messagesOf (t :: others) := by
    rw [← List.append_assoc, ← hheld, ← messages_of_append, hread, hpast]
  cases hdelivered : log.delivered with
  | nil =>
      have hempty : held = [] := eq_nil_of_tally_eq_nil (h.delivered_eq ▸ hdelivered)
      exact absurd (List.prefix_nil.mp (hempty ▸ hwhole)) t.messages_ne_nil
  | cons first rest =>
      obtain ⟨run, later, rfl, hrun, hlater, hstop⟩ :=
        tally_eq_cons (h.delivered_eq ▸ hdelivered)
      have hname : first.xid = t.name := hrun.xid_eq_name hwhole
      have hmessages : run = t.messages :=
        run_eq_messages hothers (fun n hn => (hrun.xid_eq n hn).trans hname) (hname ▸ hstop) hwhole
          hall
      refine ⟨first, rest, rfl, ?_, ?_⟩
      · have hone : StandsFor first (messagesOf [t]) := by simpa [hmessages] using hrun
        obtain ⟨d, hd, hlast⟩ := hone.last_commit.1
        rw [hlast, List.mem_singleton.mp hd]
      · cases rest with
        | cons second rest => rfl
        | nil =>
            -- Nothing else was delivered, so what is pending belongs to the other transactions.
            obtain rfl : later = [] := eq_nil_of_tally_eq_nil hlater
            have hpending : log.pending ++ messagesOf unread = messagesOf others := by
              simpa [hmessages] using hall
            rw [← hname] at hothers
            exact complete_of_others hpending hothers

end DeliveryLog

namespace SlotServer

/-- Messages that start behind a base go on to the end of a transaction. -/
def HasGiven (s : SlotServer) (base : Position) (ms : List Message) (t : LoggedTransaction) : Prop :=
  messagesOf (s.between base t.position) <+: ms

/-- Whether messages go on to the end of a transaction can be decided. -/
instance (s : SlotServer) (base : Position) (ms : List Message) (t : LoggedTransaction) :
    Decidable (s.HasGiven base ms t) :=
  inferInstanceAs (Decidable (_ <+: _))

/-- What is given is given in the order of the commits. -/
theorem HasGiven.of_le {s : SlotServer} {base : Position} {ms : List Message}
    {t u : LoggedTransaction} (h : s.HasGiven base ms t) (hbase : base ≤ u.position)
    (hle : u.position ≤ t.position) : s.HasGiven base ms u := by
  refine List.IsPrefix.trans ?_ h
  rw [← s.between_append_between hbase hle]
  exact messages_of_prefix (List.prefix_append _ _)

/-- The transactions up to the first one behind a position are those up to the position and this
one. -/
theorem between_first {s : SlotServer} {base p : Position} {first : LoggedTransaction}
    {others : List LoggedTransaction} (hbase : base ≤ p) (h : s.past p = first :: others) :
    s.between base first.position = s.between base p ++ [first] := by
  have hcut : s.past p = [first] ++ others := h
  obtain ⟨hlt, hfirst, -⟩ := s.cut_at_last hcut (List.mem_singleton_self first) rfl
    (fun u hu => (congrArg position (List.mem_singleton.mp hu)).le)
  rw [← s.between_append_between hbase hlt.le, hfirst]

end SlotServer

namespace DeliveryLog

/-- After a release, a transaction that was returned as a whole is behind the slot only if it ends
behind the position up to which was released. -/
theorem Agrees.releases {server : SlotServer} {base slot : Position} {returned held : List Message}
    {log : DeliveryLog} {p : Position}
    (h : Agrees server base slot returned held (log.releaseThrough p).1)
    (hnames : DistinctNames server.committed) {t : LoggedTransaction} (ht : t ∈ server.past slot)
    (hgiven : server.HasGiven base returned t) : p < t.position := by
  cases hpast : server.past slot with
  | nil => exact absurd (hpast ▸ ht) List.not_mem_nil
  | cons first others =>
      have hsorted := server.past_ascending slot
      rw [hpast] at ht hsorted
      have hfirst : first.position ≤ t.position := by
        rcases List.mem_cons.mp ht with rfl | ht
        · exact le_refl _
        · exact ((List.pairwise_cons.mp hsorted).1 t ht).le
      have hbehind : slot < first.position :=
        (SlotServer.mem_past.mp (hpast ▸ List.mem_cons_self)).2
      -- The first transaction behind the slot was delivered too, and the release has stopped at it.
      have hwhole : first.messages <+: held := by
        have hfirst := hgiven.of_le (h.base_le.trans hbehind.le) hfirst
        rw [SlotServer.HasGiven, SlotServer.between_first h.base_le hpast, messages_of_append,
          h.returned_eq, List.prefix_append_right_inj] at hfirst
        simpa using hfirst
      have hdistinct : DistinctNames (first :: others) :=
        hpast ▸ hnames.sublist List.filter_sublist
      obtain ⟨entry, rest, hentry, hlast, hcomplete⟩ := h.first_entry hpast hdistinct hwhole
      obtain ⟨removed, hreleases⟩ := log.exists_releases p
      refine lt_of_lt_of_le (not_le.mp fun hle => ?_) hfirst
      exact is_first_complete_iff.mp hcomplete (hreleases.stops entry rest hentry (hlast ▸ hle))

end DeliveryLog

namespace Dialogue

/-- A session in step with its server that had returned some messages when it was told last what is
durable; the slot has passed nothing else. -/
structure HasTold (base : Position) (pageSize : Nat) (d : Dialogue) (told : List Message) :
    Prop where
  in_step : d.InStep base pageSize
  told_prefix : told <+: d.returned
  passed_prefix : ∀ slot ∈ d.server.slot, messagesOf (d.server.between base slot) <+: told

/-- The slot has passed what ends by a position and had been returned when the session was told. -/
def HasReleased (base : Position) (d : Dialogue) (told : List Message) (p : Position) : Prop :=
  ∀ slot ∈ d.server.slot, ∀ t ∈ d.server.past slot, d.server.HasGiven base told t → p < t.position

variable {base p : Position} {pageSize : Nat} {d : Dialogue} {told : List Message}
  {t : LoggedTransaction}

/-- Where all that ends by a position has been released, the slot has passed a transaction if and
only if it had been returned when the session was told. -/
theorem HasTold.passed_iff (h : d.HasTold base pageSize told) (hreleased : d.HasReleased base told p)
    (ht : t ∈ d.server.past base) (hle : t.position ≤ p) {slot : Position}
    (hslot : d.server.slot = some slot) :
    t.position ≤ slot ↔ d.server.HasGiven base told t := by
  obtain ⟨hmem, hbase⟩ := SlotServer.mem_past.mp ht
  constructor
  · intro hpassed
    refine List.IsPrefix.trans ?_ (h.passed_prefix slot hslot)
    rw [← d.server.between_append_between hbase.le hpassed]
    exact messages_of_prefix (List.prefix_append _ _)
  · intro hgiven
    by_contra hnot
    have hpast : t ∈ d.server.past slot := SlotServer.mem_past.mpr ⟨hmem, not_le.mp hnot⟩
    exact absurd hle (not_le.mpr (hreleased slot hslot t hpast hgiven))

/-- A new session has returned nothing when it is told first. -/
theorem has_told_open {server : SlotServer} {name : String} {plugin : Plugin} {start : Position}
    (h : Dialogue.open server name plugin pageSize start = .ok d) :
    d.HasTold (d.server.slot.getD d.server.origin) (max 1 pageSize) [] ∧
      d.HasReleased (d.server.slot.getD d.server.origin) [] p := by
  obtain ⟨opened, hopen, hstep, hslot, -⟩ := open_in_step server name plugin pageSize start
  obtain rfl := Except.ok.inj (h.symm.trans hopen)
  rw [hslot, Option.getD_some]
  refine ⟨⟨hstep, List.nil_prefix, ?_⟩, ?_⟩
  · intro slot hat
    obtain rfl := Option.some.inj (hslot.symm.trans hat)
    rw [SlotServer.between_self]
    exact List.nil_prefix
  · intro slot hat t ht hgiven
    obtain rfl := Option.some.inj (hslot.symm.trans hat)
    -- A transaction that is behind the base has a message, and nothing has been returned.
    obtain ⟨hmem, hbase⟩ := SlotServer.mem_past.mp ht
    obtain ⟨m, hm, -⟩ := t.exists_message_at_commit
    have hbetween : t ∈ d.server.between (max (server.slot.getD server.origin) start) t.position :=
      List.mem_filter.mpr ⟨hmem, decide_eq_true ⟨hbase, le_refl _⟩⟩
    have hgave : m ∈ ([] : List Message) :=
      hgiven.subset (List.mem_flatMap.mpr ⟨t, hbetween, hm⟩)
    exact absurd hgave List.not_mem_nil

/-- Polling a session tells it nothing. -/
theorem HasTold.poll (h : d.HasTold base pageSize told) :
    d.poll.2.HasTold base pageSize told ∧ d.poll.2.server = d.server := by
  obtain ⟨slot, held, hslot, -⟩ := h.in_step.agrees
  have hserver : d.poll.2.server = d.server := by
    rcases poll_cases_of_live h.in_step.link_eq hslot with ⟨-, hpoll⟩ | ⟨-, hpoll⟩ <;> rw [hpoll]
  refine ⟨⟨h.in_step.poll, h.told_prefix.trans (List.prefix_append _ _), ?_⟩, hserver⟩
  rw [hserver]
  exact h.passed_prefix

/-- A session that is told what is durable lets the slot pass every transaction that it has returned
as a whole and that ends by there. -/
theorem InStep.confirm_releases (h : d.InStep base pageSize)
    (hnames : DistinctNames d.server.committed) (p : Position) :
    (d.confirm p).2.HasReleased base d.returned p := by
  intro slot hslot t ht hgiven
  obtain ⟨before, held, hbefore, hagrees⟩ := h.agrees
  have hlog := (h.confirm p hbefore).2.2.1
  rcases hagrees.release p with hnone | ⟨last, later, hlast, -, -, hlater⟩
  · have hsame : (d.confirm p).2 = d := by
      simp [Dialogue.confirm, Session.confirm_of_none SlotServer.answer d.server hnone]
    rw [hsame] at hslot ht hgiven
    obtain rfl := Option.some.inj (hbefore.symm.trans hslot)
    have hlog : (d.session.log.releaseThrough p).1 = d.session.log := congrArg Prod.fst hnone
    exact DeliveryLog.Agrees.releases (hlog ▸ hagrees) hnames ht hgiven
  · have hreply : SlotServer.answer (.advanceSlot d.session.slot last) d.server =
        (.rows [[.null]], { d.server with slot := some last }) := rfl
    have hconfirmed : (d.confirm p).2.server = { d.server with slot := some last } := by
      simp [Dialogue.confirm, Session.confirm_of_some h.link_eq hlast hreply]
    rw [hconfirmed] at hslot ht hgiven
    obtain rfl := Option.some.inj hslot
    exact hlater.releases hnames ht hgiven

/-- A session that is told what is durable has told all that it has returned. -/
theorem HasTold.confirm (h : d.HasTold base pageSize told) (p : Position) :
    (d.confirm p).1 = .ok () ∧ (d.confirm p).2.HasTold base pageSize d.returned ∧
      (d.confirm p).2.server.committed = d.server.committed := by
  obtain ⟨before, held, hbefore, -⟩ := h.in_step.agrees
  obtain ⟨hok, hstep, hcommitted, -⟩ := h.in_step.confirm p hbefore
  refine ⟨hok, ⟨hstep, List.prefix_refl _, ?_⟩, hcommitted⟩
  intro slot hslot
  exact (hstep.passed_prefix hslot).2

/-- Another commit tells a session nothing. -/
theorem HasTold.commit (h : d.HasTold base pageSize told) (t : LoggedTransaction) :
    (d.step (.commit t)).HasTold base pageSize told := by
  obtain ⟨at_, held, hat, hagrees⟩ := h.in_step.agrees
  refine ⟨h.in_step.step (.commit t), h.told_prefix, ?_⟩
  intro slot hslot
  have hbefore : slot ∈ d.server.slot := (d.server.commit_slot t).symm.trans hslot
  obtain rfl := Option.some.inj (hat.symm.trans hbefore)
  show messagesOf ((d.server.commit t).between base at_) <+: told
  rw [d.server.between_commit t hagrees.reached]
  exact h.passed_prefix at_ hat

/-- A transaction that commits behind everything has not been returned yet. -/
theorem InStep.not_given_of_commit (h : d.InStep base pageSize) (htold : told <+: d.returned)
    (hadded : (d.server.commit t).committed = d.server.committed ++ [t])
    (hbehind : ∀ c ∈ d.server.committed, c.position < t.position) (hbase : base < t.position) :
    ¬ (d.server.commit t).HasGiven base told t := by
  intro hgiven
  obtain ⟨slot, held, -, hagrees⟩ := h.agrees
  have hall : (d.server.commit t).between base t.position = d.server.past base ++ [t] := by
    rw [SlotServer.between, hadded, List.filter_append, SlotServer.past]
    congr 1
    · refine List.filter_congr ?_
      intro c hc
      simp [(hbehind c hc).le]
    · simp [hbase]
  have hprefix := hgiven.trans (htold.trans hagrees.returned_prefix)
  rw [hall, messages_of_append] at hprefix
  have hlength := hprefix.length_le
  have hsome := List.length_pos_iff.mpr t.messages_ne_nil
  simp only [List.length_append, messages_of_cons, messages_of_nil, List.append_nil] at hlength
  omega

/-- Another commit is not returned yet, so it leaves nothing to release. -/
theorem HasReleased.commit (h : d.HasReleased base told p) (htold : d.HasTold base pageSize told)
    (t : LoggedTransaction) : (d.step (.commit t)).HasReleased base told p := by
  intro slot hslot u hu hgiven
  have hbefore : slot ∈ d.server.slot := (d.server.commit_slot t).symm.trans hslot
  obtain ⟨hmem, hlt⟩ := SlotServer.mem_past.mp hu
  have hold (hu : u ∈ d.server.committed) : p < u.position := by
    refine h slot hbefore u (SlotServer.mem_past.mpr ⟨hu, hlt⟩) ?_
    rw [SlotServer.HasGiven, ← d.server.between_commit t (.inr ⟨u, hu, le_refl _⟩)]
    exact hgiven
  rcases d.server.commit_cases t with hsame | ⟨hadded, hbehind⟩
  · exact hold (hsame ▸ hmem)
  · rcases List.mem_append.mp (hadded ▸ hmem) with hu | hu
    · exact hold hu
    · obtain rfl := List.mem_singleton.mp hu
      have hbase : base < u.position :=
        (htold.in_step.passed_prefix hbefore).1.trans_lt hlt
      exact absurd hgiven (htold.in_step.not_given_of_commit htold.told_prefix hadded hbehind hbase)

end Dialogue

end ChangeFeed
