import ChangeFeed.Proofs.Feed.Batch

/-!
# Events that are grouped

What a buffer makes of a whole sequence of events, refused ones among them. Read `settled` first:
it says of the accepted events alone what they come to. `TransactionBuffer.grouping_account` says
that a buffer that groups gives out and holds back just that, that a refusal changes nothing, and
that apart from the numbers of commits both kinds of buffer give out the same events.
-/

namespace ChangeFeed

/-! ## What accepted events come to -/

/-- The numbers of the next commit, if there is one. -/
def closing? : List Event → Option (Option UInt64 × Option UInt64)
  | [] => none
  | .commit _ xid csn _ :: _ => some (xid, csn)
  | _ :: rest => closing? rest

/-- What accepted events come to, behind a beginning with the numbers `xid` and `csn`. Beginnings
are left out. A row of a transaction that is committed has the commit's sequence number or else that
of the beginning, and its own transaction number or else that of the commit or of the beginning;
the commit has the same two numbers. -/
def settledFrom (xid csn : Option UInt64) : List Event → List Event
  | [] => []
  | .begin _ xid csn :: rest => settledFrom xid csn rest
  | .commit position commitXid commitCsn time :: rest =>
    .commit position (commitXid.or xid) (commitCsn.or csn) time :: settledFrom none none rest
  | .row row :: rest =>
    (match closing? rest with
      | some (commitXid, commitCsn) =>
        .row { row with csn := commitCsn.or csn, xid := row.xid.or (commitXid.or xid) }
      | none => .row row) :: settledFrom xid csn rest
  | .placeholder position :: rest => .placeholder position :: settledFrom xid csn rest

/-- What accepted events come to, from outside a transaction on. -/
def settled (events : List Event) : List Event :=
  settledFrom none none events

/-- An event without the numbers of its transaction. -/
def Event.unnumbered : Event → Event
  | .begin position _ _ => .begin position none none
  | .commit position _ _ time => .commit position none none time
  | .row r => .row { r with xid := none, csn := none }
  | .placeholder position => .placeholder position

/-- Whether an event is the beginning of a transaction. -/
def Event.isBegin : Event → Bool
  | .begin _ _ _ => true
  | _ => false

/-- Changes do not close a transaction. -/
theorem closing_append {changes : List Event} (h : ∀ e ∈ changes, e.IsChange)
    (rest : List Event) : closing? (changes ++ rest) = closing? rest := by
  induction changes with
  | nil => rfl
  | cons e changes ih =>
      have he := h e List.mem_cons_self
      have hrest := ih fun x hx => h x (List.mem_cons_of_mem e hx)
      cases e with
      | begin position xid csn => exact he.elim
      | commit position xid csn time => exact he.elim
      | row row => exact hrest
      | placeholder position => exact hrest

/-- Changes that no commit follows stay as they are. -/
theorem settled_from_changes {changes : List Event} (h : ∀ e ∈ changes, e.IsChange)
    (xid csn : Option UInt64) : settledFrom xid csn changes = changes := by
  induction changes with
  | nil => rfl
  | cons e changes ih =>
      have he := h e List.mem_cons_self
      have hchanges : ∀ x ∈ changes, x.IsChange := fun x hx => h x (List.mem_cons_of_mem e hx)
      have hopen : closing? changes = none := by
        rw [← List.append_nil changes, closing_append hchanges]
        rfl
      cases e with
      | begin position xid csn => exact he.elim
      | commit position xid csn time => exact he.elim
      | row row => rw [settledFrom, hopen, ih hchanges]
      | placeholder position => rw [settledFrom, ih hchanges]

/-- Changes in front of their commit come to the batch of their transaction. -/
theorem settled_from_commit {t : OpenTransaction} (h : ∀ e ∈ t.events, e.IsChange)
    (position : Position) (xid csn : Option UInt64) (time : Option Calendar.Instant)
    (rest : List Event) :
    settledFrom t.xid t.csn (t.events ++ .commit position xid csn time :: rest) =
      t.commit position xid csn time ++ settled rest := by
  obtain ⟨openXid, openCsn, changes⟩ := t
  simp only [OpenTransaction.commit]
  induction changes with
  | nil => rfl
  | cons e changes ih =>
      have he := h e List.mem_cons_self
      have hchanges : ∀ x ∈ changes, x.IsChange := fun x hx => h x (List.mem_cons_of_mem e hx)
      have hcloses : closing? (changes ++ .commit position xid csn time :: rest) =
          some (xid, csn) := closing_append hchanges _
      cases e with
      | begin position xid csn => exact he.elim
      | commit position xid csn time => exact he.elim
      | row row =>
          rw [List.cons_append, settledFrom, hcloses]
          simp only [ih hchanges]
          rfl
      | placeholder position =>
          rw [List.cons_append, settledFrom, ih hchanges]
          rfl

/-- Apart from the numbers, events come to themselves without the beginnings. -/
theorem settled_from_unnumbered (xid csn : Option UInt64) (events : List Event) :
    (settledFrom xid csn events).map Event.unnumbered =
      (events.filter (!·.isBegin)).map Event.unnumbered := by
  induction events generalizing xid csn with
  | nil => rfl
  | cons e events ih =>
      cases e with
      | begin position xid csn => simpa [settledFrom, Event.isBegin] using ih xid csn
      | commit position xid csn time =>
          simpa [settledFrom, Event.isBegin, Event.unnumbered] using ih none none
      | row row =>
          rw [settledFrom]
          split
          · simpa [Event.isBegin, Event.unnumbered] using ih xid csn
          · simpa [Event.isBegin, Event.unnumbered] using ih xid csn
      | placeholder position =>
          simpa [settledFrom, Event.isBegin, Event.unnumbered] using ih xid csn

namespace TransactionBuffer

/-! ## Offers in place -/

/-- Offers an event to a buffer in place: the answer, and the buffer after it. The open transaction
is taken out first, so what is to stay open has to be put back, on a refusal too. -/
def exchange (b : TransactionBuffer) (event : Event) :
    Except DecodeError (Option (List Event)) × TransactionBuffer :=
  if b.grouped then
    let taken := b.reset
    match b.current, event with
    | none, .begin _ xid csn => (.ok none, { taken with current := some ⟨xid, csn, []⟩ })
    | none, .placeholder position => (.ok (some [.placeholder position]), taken)
    | none, event => (.error (.outsideTransaction event.kindName event.position), taken)
    | some t, .begin position _ _ =>
      (.error (.malformed position (.nestedBegin t.xid)), { taken with current := some t })
    | some t, .commit position xid csn time =>
      (.ok (some (t.commit position xid csn time)), taken)
    | some t, event =>
      (.ok none, { taken with current := some { t with events := t.events ++ [event] } })
  else
    match event with
    | .begin _ _ _ => (.ok none, b)
    | event => (.ok (some [event]), b)

/-- An offer in place leaves what the offer says, and the same buffer if it is refused. -/
theorem exchange_eq (b : TransactionBuffer) (e : Event) :
    b.exchange e = match b.offer e with
      | .ok (after, out) => (.ok out, after)
      | .error fault => (.error fault, b) := by
  obtain ⟨grouped, current⟩ := b
  cases grouped with
  | false => cases e <;> rfl
  | true => cases current <;> cases e <;> rfl

/-- The events that a buffer refuses: rows and commits outside a transaction, and beginnings in
one. -/
def Refuses (b : TransactionBuffer) (e : Event) : Prop :=
  match b.current, e with
  | none, .row _ => True
  | none, .commit _ _ _ _ => True
  | some _, .begin _ _ _ => True
  | _, _ => False

/-- A buffer that groups answers with a fault exactly to what it refuses. -/
theorem offer_eq_error_iff {b : TransactionBuffer} (hgrouped : b.grouped = true) (e : Event) :
    (∃ fault, b.offer e = .error fault) ↔ b.Refuses e := by
  obtain ⟨grouped, current⟩ := b
  obtain rfl : grouped = true := hgrouped
  cases current <;> cases e <;> simp [offer, Refuses]

/-- A fault in place is the fault of the offer, and the buffer stays as it is. -/
theorem exchange_of_error {b : TransactionBuffer} {e : Event} {fault : DecodeError}
    (h : (b.exchange e).1 = .error fault) : b.offer e = .error fault ∧ (b.exchange e).2 = b := by
  rw [exchange_eq] at h ⊢
  cases hoffer : b.offer e with
  | ok result => exact absurd (hoffer ▸ h) (by simp)
  | error other =>
      rw [hoffer] at h
      exact ⟨by simpa using h, rfl⟩

/-! ## Sequences of offers -/

/-- The answers to events that are offered one after another, and the buffer in the end. -/
def offerAll : TransactionBuffer → List Event →
    List (Except DecodeError (Option (List Event))) × TransactionBuffer
  | b, [] => ([], b)
  | b, e :: rest =>
    let (answer, next) := b.exchange e
    let (answers, last) := next.offerAll rest
    (answer :: answers, last)

/-- The events of all batches among answers, in order. -/
def released (answers : List (Except DecodeError (Option (List Event)))) : List Event :=
  answers.flatMap fun
    | .ok (some batch) => batch
    | _ => []

/-- The events that were not refused, in order. -/
def accepted (events : List Event) (answers : List (Except DecodeError (Option (List Event)))) :
    List Event :=
  (events.zip answers).filterMap fun
    | (e, .ok _) => some e
    | (_, .error _) => none

variable {events : List Event} {answers : List (Except DecodeError (Option (List Event)))}

@[simp]
theorem released_cons_ok (out : Option (List Event)) :
    released (.ok out :: answers) = out.getD [] ++ released answers := by
  cases out <;> rfl

@[simp]
theorem released_cons_error (fault : DecodeError) :
    released (.error fault :: answers) = released answers :=
  rfl

@[simp]
theorem accepted_cons_ok (e : Event) (out : Option (List Event)) :
    accepted (e :: events) (.ok out :: answers) = e :: accepted events answers :=
  rfl

@[simp]
theorem accepted_cons_error (e : Event) (fault : DecodeError) :
    accepted (e :: events) (.error fault :: answers) = accepted events answers :=
  rfl

/-- All events are accepted if there is no fault among the answers. -/
theorem accepted_of_no_fault {b : TransactionBuffer}
    (h : ∀ answer ∈ (b.offerAll events).1, ∃ out, answer = .ok out) :
    accepted events (b.offerAll events).1 = events := by
  induction events generalizing b with
  | nil => rfl
  | cons e events ih =>
      obtain ⟨out, hout⟩ := h (b.exchange e).1 List.mem_cons_self
      simp only [offerAll, hout, accepted_cons_ok, List.cons.injEq, true_and]
      exact ih fun answer hanswer => h answer (List.mem_cons_of_mem _ hanswer)

/-- A buffer that does not group gives out all events but the beginnings, without a fault. -/
theorem offer_all_ungrouped (events : List Event) :
    (∀ answer ∈ ((empty false).offerAll events).1, ∃ out, answer = .ok out) ∧
      released ((empty false).offerAll events).1 = events.filter (!·.isBegin) := by
  induction events with
  | nil => exact ⟨by simp [offerAll], rfl⟩
  | cons e events ih =>
      obtain ⟨hanswers, hreleased⟩ := ih
      obtain ⟨out, hexchange, hout⟩ : ∃ out, (empty false).exchange e = (.ok out, empty false) ∧
          out.getD [] = [e].filter (!·.isBegin) := by
        cases e <;> exact ⟨_, rfl, rfl⟩
      simp only [offerAll, hexchange]
      refine ⟨List.forall_mem_cons.mpr ⟨⟨out, rfl⟩, hanswers⟩, ?_⟩
      rw [released_cons_ok, hreleased, hout, ← List.filter_append, List.singleton_append]

/-! ## Accounts -/

/-- A buffer that holds nothing but changes. -/
def HoldsChanges (b : TransactionBuffer) : Prop :=
  ∀ e ∈ b.held, e.IsChange

/-- What accepted events come to for a buffer: in an open transaction, behind what it holds. -/
def settle (b : TransactionBuffer) (events : List Event) : List Event :=
  match b.current with
  | none => settled events
  | some t => settledFrom t.xid t.csn (t.events ++ events)

/-- Without further events, what a buffer holds stays as it is. -/
theorem settle_nil {b : TransactionBuffer} (h : b.HoldsChanges) : b.settle [] = b.held := by
  obtain ⟨grouped, current⟩ := b
  cases current with
  | none => rfl
  | some t =>
      simp only [settle, List.append_nil]
      exact settled_from_changes h t.xid t.csn

/-- The batch of one offer, and what later events come to for the buffer after it, are what the
event and the later ones come to. -/
theorem Offers.settle {b after : TransactionBuffer} {e : Event} {out : Option (List Event)}
    (h : Offers b e after out) (hholds : b.HoldsChanges) :
    after.HoldsChanges ∧ ∀ later, out.getD [] ++ after.settle later = b.settle (e :: later) := by
  cases h with
  | opens position xid csn => exact ⟨by simp [HoldsChanges, held], fun later => rfl⟩
  | passes position => exact ⟨hholds, fun later => rfl⟩
  | adds t e he =>
      refine ⟨?_, fun later => by simp [TransactionBuffer.settle]⟩
      intro x hx
      rcases List.mem_append.mp hx with hx | hx
      · exact hholds x hx
      · exact List.mem_singleton.mp hx ▸ he
  | closes t position xid csn time =>
      refine ⟨by simp [HoldsChanges, held], fun later => ?_⟩
      exact (settled_from_commit hholds position xid csn time later).symm

/-- All that is given out, and what is held in the end, are what the accepted events come to. -/
theorem released_append_held {b : TransactionBuffer} (hgrouped : b.grouped = true)
    (hholds : b.HoldsChanges) (events : List Event) :
    released (b.offerAll events).1 ++ (b.offerAll events).2.held =
      b.settle (accepted events (b.offerAll events).1) := by
  induction events generalizing b with
  | nil => exact (settle_nil hholds).symm
  | cons e events ih =>
      have hexchange := exchange_eq b e
      cases hoffer : b.offer e with
      | error fault =>
          rw [hoffer] at hexchange
          simp only [offerAll, hexchange, released_cons_error, accepted_cons_error]
          exact ih hgrouped hholds
      | ok result =>
          obtain ⟨after, out⟩ := result
          rw [hoffer] at hexchange
          have hoffers := offers_of_offer hgrouped hoffer
          obtain ⟨hafter, hsettle⟩ := hoffers.settle hholds
          simp only [offerAll, hexchange, released_cons_ok, accepted_cons_ok, List.append_assoc]
          rw [ih hoffers.grouped.2 hafter, hsettle]

/-- A buffer that groups, over every sequence of events. An offer fails exactly for what the buffer
refuses, and leaves the buffer as it was. What is given out and what is held in the end make up what
the accepted events come to. Without a fault and outside a transaction in the end, a buffer that
does not group gives out the same events, apart from the numbers. -/
theorem grouping_account (events : List Event) :
    (∀ b : TransactionBuffer, b.grouped = true → ∀ e,
      ((∃ fault, b.offer e = .error fault) ↔ b.Refuses e) ∧
      ∀ fault, (b.exchange e).1 = .error fault →
        b.offer e = .error fault ∧ (b.exchange e).2 = b) ∧
    released ((empty true).offerAll events).1 ++ ((empty true).offerAll events).2.held =
      settled (accepted events ((empty true).offerAll events).1) ∧
    ((∀ answer ∈ ((empty true).offerAll events).1, ∃ out, answer = .ok out) →
      ((empty true).offerAll events).2.isIdle = true →
      (∀ answer ∈ ((empty false).offerAll events).1, ∃ out, answer = .ok out) ∧
      (released ((empty true).offerAll events).1).map Event.unnumbered =
        (released ((empty false).offerAll events).1).map Event.unnumbered) := by
  have hsettled := released_append_held (b := empty true) rfl (by simp [HoldsChanges, held, empty])
    events
  refine ⟨fun b hgrouped e => ⟨offer_eq_error_iff hgrouped e, fun _ => exchange_of_error⟩,
    hsettled, fun hnofault hidle => ?_⟩
  obtain ⟨hanswers, hreleased⟩ := offer_all_ungrouped events
  have hheld : ((empty true).offerAll events).2.held = [] := by
    rw [held, Option.isNone_iff_eq_none.mp hidle]
  rw [hheld, List.append_nil, accepted_of_no_fault hnofault] at hsettled
  refine ⟨hanswers, ?_⟩
  rw [hsettled, hreleased]
  exact settled_from_unnumbered none none events

/-- A second beginning is refused and does not disturb the transaction. -/
example :
    (empty true).offerAll [.begin ⟨1⟩ (some 7) none, .begin ⟨2⟩ none none,
      .commit ⟨3⟩ none (some 9) none] =
    ([.ok none, .error (.malformed ⟨2⟩ (.nestedBegin (some 7))),
      .ok (some [.commit ⟨3⟩ (some 7) (some 9) none])], empty true) :=
  rfl

end TransactionBuffer

end ChangeFeed
