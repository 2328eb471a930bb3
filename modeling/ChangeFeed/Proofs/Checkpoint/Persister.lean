import ChangeFeed.Checkpoint.Persister
import ChangeFeed.Proofs.Position.Order

/-!
# What a persister saves and tells

`Persister.Moves` lists what a transition of a persister can be; what it saves is what it has seen
acknowledged, and what it takes for durable is what was saved (`Persister.step_facts`).

A log keeps a persister together with the cell that it looks at and with all that happened:
positions that are published there in any order, the end of whoever publishes them, the order to
end, and the transitions of the persister. Read `Persister.Log.keeps_account` first: over every run,
what the durable feed has carried is the first position and then the successful saves, in order and
strictly increasing.
-/

namespace ChangeFeed.Persister

variable {interval : Nat} {seen : Acknowledged} {p after : Persister} {event : PersisterEvent}

/-- The position that a persister is about to save. -/
def IsTarget (control : Control) (target : Position) : Prop :=
  control = .saving target ∨ control = .savingLast target

/-- A persister is about to save one position only. -/
theorem IsTarget.unique {control : Control} {target target' : Position}
    (h : IsTarget control target) (h' : IsTarget control target') : target = target' := by
  rcases h with rfl | rfl
  · exact h'.elim Control.saving.inj (by simp)
  · exact h'.elim (by simp) Control.savingLast.inj

/-! ## The rules -/

/-- How a persister goes on after a look around: it waits, it asks the store, or it leaves its
loop, and asks only for what is not durable yet. -/
inductive Goes (seen : Acknowledged) (p : Persister) : Persister → Prop
  | waits : Goes seen p { p with control := .waiting }
  | asks (hdue : p.durable < seen.position) :
      Goes seen p { p with control := .saving seen.position }
  | asksLast (hdue : p.durable < seen.position) (hend : seen.isClosed ∨ seen.endAsked) :
      Goes seen p { p with control := .savingLast seen.position }
  | ends (hdue : seen.position ≤ p.durable) (hend : seen.isClosed ∨ seen.endAsked) :
      Goes seen p { p with control := .finished (.ok ()) }

/-- The rules for a transition of a persister. -/
inductive Moves (seen : Acknowledged) (p : Persister) : PersisterEvent → Persister → Prop
  | starts (hcontrol : p.control = .starting) : Moves seen p .next { p with control := .waiting }
  | breaks (hcontrol : p.control = .starting) : Moves seen p .next { p with control := .broken }
  /-- A persister that goes on waiting has seen nothing to save. -/
  | looks {after : Persister} (hcontrol : p.control = .waiting) (hgoes : Goes seen p after)
      (hwaits : after.control = .waiting → seen.position ≤ p.durable) : Moves seen p .woke after
  | saves {target : Position} {after : Persister} (hcontrol : p.control = .saving target)
      (hgoes : Goes seen { p with durable := target } after) : Moves seen p (.saved (.ok ())) after
  | fails {target : Position} {failure : Failure} {after : Persister}
      (hcontrol : p.control = .saving target) (hgoes : Goes seen p after) :
      Moves seen p (.saved (.error failure)) after
  | savesLast {target : Position} (hcontrol : p.control = .savingLast target) :
      Moves seen p (.saved (.ok ())) ⟨target, .finished (.ok ())⟩
  | failsLast {target : Position} {failure : Failure} (hcontrol : p.control = .savingLast target) :
      Moves seen p (.saved (.error failure))
        { p with control := .finished (.error (failure.within (lastSaveContext target))) }

/-- A persister that goes to its end asks for what is due, and ends if nothing is. -/
theorem goes_of_finish (hend : seen.isClosed ∨ seen.endAsked) : Goes seen p (p.finish seen) := by
  unfold finish
  split
  · rename_i hdue
    exact .asksLast hdue hend
  · rename_i hdue
    exact .ends (not_lt.mp hdue) hend

/-- A persister that has dealt with a tick waits for the next, or goes to its end. -/
theorem goes_of_rest (p : Persister) (seen : Acknowledged) : Goes seen p (p.rest seen) := by
  unfold rest
  split
  · rename_i hclosed
    exact goes_of_finish (.inl hclosed)
  · exact .waits

/-- A persister that goes to its end does not wait for a tick any more. -/
theorem finish_not_waiting (p : Persister) (seen : Acknowledged) :
    (p.finish seen).control ≠ .waiting := by
  unfold finish
  split <;> simp

/-- Every transition of a persister follows the rules. -/
theorem moves_of_step (h : p.step interval seen event = some after) : Moves seen p event after := by
  unfold step at h
  split at h
  · rename_i hcontrol
    obtain rfl := Option.some.inj h
    split
    · exact .breaks hcontrol
    · exact .starts hcontrol
  · rename_i hcontrol
    split at h
    · rename_i hasked
      obtain rfl := Option.some.inj h
      exact .looks hcontrol (goes_of_finish (.inr hasked))
        fun hwaits => absurd hwaits (p.finish_not_waiting seen)
    · split at h <;> obtain rfl := Option.some.inj h
      · rename_i hdue
        exact .looks hcontrol (.asks hdue) nofun
      · rename_i hdue
        exact .looks hcontrol (p.goes_of_rest seen) fun _ => not_lt.mp hdue
  · rename_i target hcontrol
    obtain rfl := Option.some.inj h
    exact .saves hcontrol (goes_of_rest _ seen)
  · rename_i hcontrol
    obtain rfl := Option.some.inj h
    exact .fails hcontrol (p.goes_of_rest seen)
  · rename_i hcontrol
    obtain rfl := Option.some.inj h
    exact .savesLast hcontrol
  · rename_i hcontrol
    obtain rfl := Option.some.inj h
    exact .failsLast hcontrol
  · exact absurd h (by simp)

/-- To go on is not to save. -/
@[simp] theorem Goes.durable_eq (h : Goes seen p after) : after.durable = p.durable := by
  cases h <;> rfl

/-- A persister that goes on to ask for a position asks for what is due. -/
theorem Goes.due {target : Position} (h : Goes seen p after)
    (hasks : IsTarget after.control target) : target = seen.position ∧ p.durable < target := by
  cases h with
  | asks hdue =>
      obtain rfl : seen.position = target := hasks.elim Control.saving.inj nofun
      exact ⟨rfl, hdue⟩
  | asksLast hdue =>
      obtain rfl : seen.position = target := hasks.elim nofun Control.savingLast.inj
      exact ⟨rfl, hdue⟩
  | waits | ends => exact hasks.elim nofun nofun

/-- Whether a persister has left its loop, for the last save or without one. -/
def hasLeft (p : Persister) : Bool :=
  match p.control with
  | .savingLast _ => true
  | .finished _ => true
  | _ => false

/-- A persister leaves its loop when nobody is left to publish or when it is told to end. -/
theorem Goes.told (h : Goes seen p after) (hleft : after.hasLeft = true) :
    seen.isClosed ∨ seen.endAsked := by
  cases h with
  | asksLast _ hend => exact hend
  | ends _ hend => exact hend
  | waits | asks => exact absurd hleft nofun

/-! ## What follows from the rules -/

/-- A persister that goes on does not break. -/
theorem Goes.not_broken (h : Goes seen p after) : after.control ≠ .broken := by
  cases h <;> exact nofun

/-- A persister goes on to save what it sees acknowledged, and what it takes for durable is what was
saved. -/
theorem step_facts (h : p.step interval seen event = some after) :
    (after.durable = p.durable ∨ event = .saved (.ok ()) ∧ IsTarget p.control after.durable) ∧
      ∀ target, IsTarget after.control target → target = seen.position := by
  cases moves_of_step h with
  | starts | breaks => exact ⟨.inl rfl, fun _ ht => ht.elim nofun nofun⟩
  | looks hcontrol hgoes => exact ⟨.inl hgoes.durable_eq, fun _ ht => (hgoes.due ht).1⟩
  | saves hcontrol hgoes =>
      exact ⟨.inr ⟨rfl, .inl (hgoes.durable_eq ▸ hcontrol)⟩, fun _ ht => (hgoes.due ht).1⟩
  | fails hcontrol hgoes => exact ⟨.inl hgoes.durable_eq, fun _ ht => (hgoes.due ht).1⟩
  | savesLast hcontrol => exact ⟨.inr ⟨rfl, .inr hcontrol⟩, fun _ ht => ht.elim nofun nofun⟩
  | failsLast => exact ⟨.inl rfl, fun _ ht => ht.elim nofun nofun⟩

/-- A persister breaks only when it makes its timer, with no time between the ticks. -/
theorem step_breaks (h : p.step interval seen event = some after)
    (hbroken : after.control = .broken) : p.control = .starting ∧ interval = 0 := by
  cases moves_of_step h with
  | breaks hcontrol =>
      refine ⟨hcontrol, ?_⟩
      by_cases hzero : interval = 0
      · exact hzero
      · simp [step, hcontrol, hzero] at h
  | looks _ hgoes | saves _ hgoes | fails _ hgoes => exact absurd hbroken hgoes.not_broken
  | starts | savesLast | failsLast => exact absurd hbroken nofun

/-! ## The log -/

/-- A save that the store has answered. -/
structure Save where
  target : Position
  result : Except Failure Unit

/-- The positions that the store has taken. -/
def taken (saves : List Save) : List Position :=
  (saves.filter (·.result.isOk)).map Save.target

/-- How a persister has left its loop. -/
structure Departure where
  /-- What was durable then. -/
  durable : Position
  /-- What was published last then. -/
  position : Position
  /-- What was published since then. -/
  later : List Position

/-- A persister, what it looks at, and what has happened. -/
structure Log where
  persister : Persister
  seen : Acknowledged
  saves : List Save
  /-- The positions that the durable feed has carried, one after the other. -/
  feed : List Position
  departure : Option Departure

/-- What can happen around a persister. -/
inductive Occurrence where
  /-- A position is published, greater or smaller than the one before. -/
  | publish (position : Position)
  /-- Whoever publishes positions goes. -/
  | close
  /-- The persister is told to end. -/
  | cancel
  /-- The persister goes on. -/
  | turn (event : PersisterEvent)

namespace Log

/-- The log of a persister that starts, with the position that is published at that time. -/
def start (initial : Position) : Log :=
  ⟨.start initial, ⟨initial, false, false⟩, [], [initial], none⟩

/-- The log with one more published position. -/
def publish (k : Log) (position : Position) : Log :=
  { k with
    seen := { k.seen with position := position }
    departure := k.departure.map fun d => { d with later := d.later ++ [position] } }

/-- The save that an event answers. -/
def answered (control : Control) : PersisterEvent → List Save
  | .saved result =>
    match control with
    | .saving target => [⟨target, result⟩]
    | .savingLast target => [⟨target, result⟩]
    | _ => []
  | _ => []

/-- The save that is answered is the one that was asked for. -/
theorem answered_of_target {control : Control} {target : Position} (h : IsTarget control target)
    (result : Except Failure Unit) : answered control (.saved result) = [⟨target, result⟩] := by
  rcases h with rfl | rfl <;> rfl

/-- The log after a transition of its persister. -/
def advance (k : Log) (event : PersisterEvent) (after : Persister) : Log where
  persister := after
  seen := k.seen
  saves := k.saves ++ answered k.persister.control event
  feed := if after.durable = k.persister.durable then k.feed else k.feed ++ [after.durable]
  departure :=
    if after.hasLeft ∧ ¬k.persister.hasLeft then some ⟨after.durable, k.seen.position, []⟩
    else k.departure

/-- The log after an occurrence. Nobody publishes anything after they are gone, and an event that
the persister does not wait for changes nothing. -/
def step (interval : Nat) (k : Log) : Occurrence → Log
  | .publish position => if k.seen.isClosed then k else k.publish position
  | .close => { k with seen := { k.seen with isClosed := true } }
  | .cancel => { k with seen := { k.seen with endAsked := true } }
  | .turn event => (k.persister.step interval k.seen event).elim k (k.advance event)

/-- The log after a number of occurrences. -/
def run (interval : Nat) (k : Log) (occurrences : List Occurrence) : Log :=
  occurrences.foldl (step interval) k

/-- What the persister is to save: what is published, if it is not durable yet. -/
def due (k : Log) : Option Position :=
  if k.persister.durable < k.seen.position then some k.seen.position else none

end Log

/-- The books of the saves and of the feed: the feed has carried the first position and then what
was saved, in order, up to what is durable. -/
structure Books (initial durable : Position) (saves : List Save) (feed : List Position) : Prop where
  feed_eq : feed = initial :: taken saves
  last : feed.getLast? = some durable
  increases : feed.Pairwise (· < ·)
  /-- The store is only asked for a position beyond all that it took before. -/
  advances : saves.Pairwise fun earlier later => earlier.result.isOk → earlier.target < later.target

section Books

variable {initial durable target : Position} {saves : List Save} {feed : List Position}

/-- A persister that starts has nothing in its books but the first position. -/
theorem books_start (initial : Position) : Books initial initial [] [initial] where
  feed_eq := rfl
  last := rfl
  increases := List.pairwise_singleton _ _
  advances := .nil

/-- What the feed has carried before is before what it carries. -/
theorem Books.lt_of_mem (h : Books initial durable saves feed) (hlt : durable < target)
    {position : Position} (hmem : position ∈ feed) : position < target := by
  obtain ⟨before, rfl⟩ := List.getLast?_eq_some_iff.mp h.last
  have hbefore := (List.pairwise_append.mp h.increases).2.2
  rcases List.mem_append.mp hmem with hold | hlast
  · exact (hbefore position hold durable (List.mem_singleton_self _)).trans hlt
  · obtain rfl := List.mem_singleton.mp hlast
    exact hlt

/-- What the store has taken is on the feed. -/
theorem Books.mem_feed (h : Books initial durable saves feed) {save : Save} (hmem : save ∈ saves)
    (hok : save.result.isOk) : save.target ∈ feed := by
  rw [h.feed_eq, taken]
  exact List.mem_cons_of_mem _ (List.mem_map_of_mem (List.mem_filter.mpr ⟨hmem, hok⟩))

/-- A position beyond what is durable is beyond all that the store has taken. -/
theorem Books.advances_append (h : Books initial durable saves feed) (hlt : durable < target)
    (result : Except Failure Unit) :
    (saves ++ [Save.mk target result]).Pairwise
      fun earlier later => earlier.result.isOk → earlier.target < later.target := by
  rw [List.pairwise_append]
  refine ⟨h.advances, List.pairwise_singleton _ _, ?_⟩
  intro save hmem later hlater hok
  obtain rfl := List.mem_singleton.mp hlater
  exact h.lt_of_mem hlt (h.mem_feed hmem hok)

/-- A save that fails leaves the feed as it is. -/
theorem Books.fail (h : Books initial durable saves feed) (hlt : durable < target)
    (failure : Failure) : Books initial durable (saves ++ [⟨target, .error failure⟩]) feed where
  feed_eq := by
    rw [h.feed_eq]
    simp [taken, Except.isOk, Except.toBool]
  last := h.last
  increases := h.increases
  advances := h.advances_append hlt _

/-- A save that succeeds goes on the feed. -/
theorem Books.take (h : Books initial durable saves feed) (hlt : durable < target) :
    Books initial target (saves ++ [⟨target, .ok ()⟩]) (feed ++ [target]) where
  feed_eq := by
    rw [h.feed_eq]
    simp [taken, Except.isOk, Except.toBool]
  last := List.getLast?_concat
  increases := by
    rw [List.pairwise_append]
    refine ⟨h.increases, List.pairwise_singleton _ _, ?_⟩
    intro position hmem later hlater
    obtain rfl := List.mem_singleton.mp hlater
    exact h.lt_of_mem hlt hmem
  advances := h.advances_append hlt _

end Books

/-! ## What every occurrence keeps -/

namespace Log

/-- The account of a log: its books, what the persister asks for, and how it has left its loop. -/
structure Accounts (initial : Position) (k : Log) : Prop where
  books : Books initial k.persister.durable k.saves k.feed
  asks : ∀ target, IsTarget k.persister.control target → k.persister.durable < target
  leaves : ∀ target, k.persister.control = .savingLast target →
    ∃ d, k.departure = some d ∧ d.position = target ∧ d.durable = k.persister.durable
  ends : k.persister.control = .finished (.ok ()) →
    ∃ d, k.departure = some d ∧ k.persister.durable = max d.durable d.position
  published : ∀ d, k.departure = some d → k.seen.position = d.later.getLastD d.position
  /-- Only a persister that is told to end leaves while somebody publishes. -/
  parted : ∀ d, k.departure = some d → k.seen.isClosed ∧ d.later = [] ∨ k.seen.endAsked

variable {initial : Position} {k : Log} {event : PersisterEvent} {q after : Persister}

/-- The departure of a persister that leaves its loop. -/
theorem departure_of_leaves (hloop : k.persister.hasLeft = false) (hleft : after.hasLeft = true) :
    (k.advance event after).departure = some ⟨after.durable, k.seen.position, []⟩ :=
  if_pos ⟨hleft, by simp [hloop]⟩

/-- A persister that stays in its loop, or that has left it, departs no more. -/
theorem departure_of_stays (h : k.persister.hasLeft = true ∨ after.hasLeft = false) :
    (k.advance event after).departure = k.departure := by
  refine if_neg ?_
  rintro ⟨hleft, hloop⟩
  exact h.elim hloop fun hstays => absurd (hleft.symm.trans hstays) (by simp)

/-- A persister that starts has its account in order. -/
theorem accounts_start (initial : Position) : (start initial).Accounts initial where
  books := books_start initial
  asks _ hasks := hasks.elim nofun nofun
  leaves := nofun
  ends := nofun
  published := nofun
  parted := nofun

/-- A position that is published changes nothing in the account but what was published since the
persister has left. -/
theorem Accounts.publish (h : k.Accounts initial) (hopen : k.seen.isClosed = false)
    (position : Position) : (k.publish position).Accounts initial where
  books := h.books
  asks := h.asks
  leaves target hcontrol := by
    obtain ⟨d, hd, hposition, hdurable⟩ := h.leaves target hcontrol
    exact ⟨_, Option.map_eq_some_iff.mpr ⟨d, hd, rfl⟩, hposition, hdurable⟩
  ends hcontrol := by
    obtain ⟨d, hd, hdurable⟩ := h.ends hcontrol
    exact ⟨_, Option.map_eq_some_iff.mpr ⟨d, hd, rfl⟩, hdurable⟩
  published e he := by
    obtain ⟨d, -, rfl⟩ := Option.map_eq_some_iff.mp he
    exact List.getLastD_concat.symm
  parted e he := by
    obtain ⟨d, hd, rfl⟩ := Option.map_eq_some_iff.mp he
    rcases h.parted d hd with ⟨hclosed, -⟩ | hasked
    · exact absurd (hopen.symm.trans hclosed) (by simp)
    · exact .inr hasked

/-- That nobody is left to publish anything, or that the persister is told to end, changes nothing
in the account. -/
theorem Accounts.told (h : k.Accounts initial) {told : Acknowledged}
    (hposition : told.position = k.seen.position) (hclosed : k.seen.isClosed → told.isClosed)
    (hasked : k.seen.endAsked → told.endAsked) : Accounts initial { k with seen := told } where
  books := h.books
  asks := h.asks
  leaves := h.leaves
  ends := h.ends
  published d hd := hposition.trans (h.published d hd)
  parted d hd := (h.parted d hd).imp (And.imp_left hclosed) hasked

/-- The account after a transition in which the persister does not leave its loop. -/
theorem Accounts.stays (h : k.Accounts initial)
    (hstays : k.persister.hasLeft = true ∨ after.hasLeft = false)
    (hbooks : Books initial after.durable (k.advance event after).saves
      (k.advance event after).feed)
    (hasks : ∀ target, IsTarget after.control target → after.durable < target)
    (hleaves : ∀ target, after.control ≠ .savingLast target)
    (hends : after.control = .finished (.ok ()) →
      ∃ d, k.departure = some d ∧ after.durable = max d.durable d.position) :
    (k.advance event after).Accounts initial where
  books := hbooks
  asks := hasks
  leaves target hcontrol := absurd hcontrol (hleaves target)
  ends hcontrol := by
    rw [departure_of_stays hstays]
    exact hends hcontrol
  published d hd := h.published d (departure_of_stays hstays ▸ hd)
  parted d hd := h.parted d (departure_of_stays hstays ▸ hd)

/-- The account after a transition in which the persister leaves its loop. -/
theorem Accounts.departs (hloop : k.persister.hasLeft = false) (hgoes : Goes k.seen q after)
    (hleft : after.hasLeft = true)
    (hbooks : Books initial after.durable (k.advance event after).saves
      (k.advance event after).feed) :
    (k.advance event after).Accounts initial := by
  have hdeparture : (k.advance event after).departure = some ⟨after.durable, k.seen.position, []⟩ :=
    departure_of_leaves hloop hleft
  refine {
    books := hbooks
    asks := fun target hasks => hgoes.durable_eq.trans_lt (hgoes.due hasks).2
    leaves := fun target hcontrol => ⟨_, hdeparture, (hgoes.due (.inr hcontrol)).1.symm, rfl⟩
    ends := ?_
    published := ?_
    parted := ?_ }
  · intro hcontrol
    cases hgoes with
    | ends hdue => exact ⟨_, hdeparture, (max_eq_left hdue).symm⟩
    | waits | asks | asksLast => exact absurd hcontrol nofun
  · intro d hd
    obtain rfl := Option.some.inj (hdeparture.symm.trans hd)
    rfl
  · intro d hd
    obtain rfl := Option.some.inj (hdeparture.symm.trans hd)
    exact (hgoes.told hleft).imp_left fun hclosed => ⟨hclosed, rfl⟩

/-- A persister within its loop goes on or leaves; its account is kept if its books are. -/
theorem Accounts.goes (h : k.Accounts initial) (hloop : k.persister.hasLeft = false)
    (hgoes : Goes k.seen q after)
    (hbooks : Books initial after.durable (k.advance event after).saves
      (k.advance event after).feed) :
    (k.advance event after).Accounts initial := by
  cases hleft : after.hasLeft with
  | true => exact Accounts.departs hloop hgoes hleft hbooks
  | false =>
      refine h.stays (.inr hleft) hbooks ?_ ?_ ?_
      · exact fun target hasks => hgoes.durable_eq.trans_lt (hgoes.due hasks).2
      · exact fun target hcontrol => absurd hleft (by simp [hasLeft, hcontrol])
      · exact fun hcontrol => absurd hleft (by simp [hasLeft, hcontrol])

/-- Where no save is answered the books stay as they are. -/
theorem Accounts.books_quiet (h : k.Accounts initial)
    (hanswered : answered k.persister.control event = [])
    (hdurable : after.durable = k.persister.durable) :
    Books initial after.durable (k.advance event after).saves (k.advance event after).feed := by
  rw [Log.advance, hanswered, if_pos hdurable, hdurable, List.append_nil]
  exact h.books

/-- The books after a save that failed. -/
theorem Accounts.books_fail (h : k.Accounts initial) {target : Position}
    (htarget : IsTarget k.persister.control target) (failure : Failure)
    (hdurable : after.durable = k.persister.durable) :
    Books initial after.durable (k.advance (.saved (.error failure)) after).saves
      (k.advance (.saved (.error failure)) after).feed := by
  rw [Log.advance, answered_of_target htarget, if_pos hdurable, hdurable]
  exact h.books.fail (h.asks target htarget) failure

/-- The books after a save that the store took. -/
theorem Accounts.books_take (h : k.Accounts initial) {target : Position}
    (htarget : IsTarget k.persister.control target) (hdurable : after.durable = target) :
    Books initial after.durable (k.advance (.saved (.ok ())) after).saves
      (k.advance (.saved (.ok ())) after).feed := by
  obtain rfl := hdurable
  have hlt := h.asks _ htarget
  rw [Log.advance, answered_of_target htarget, if_neg hlt.ne']
  exact h.books.take hlt

/-- Every transition of the persister keeps the account. -/
theorem Accounts.advance (h : k.Accounts initial) (hmoves : Moves k.seen k.persister event after) :
    (k.advance event after).Accounts initial := by
  cases hmoves with
  | starts hcontrol => exact h.goes (by rw [hasLeft, hcontrol]) .waits (h.books_quiet rfl rfl)
  | breaks hcontrol =>
      exact h.stays (.inr rfl) (h.books_quiet rfl rfl)
        (fun target hasks => hasks.elim nofun nofun) nofun nofun
  | looks hcontrol hgoes =>
      exact h.goes (by rw [hasLeft, hcontrol]) hgoes (h.books_quiet rfl hgoes.durable_eq)
  | saves hcontrol hgoes =>
      exact h.goes (by rw [hasLeft, hcontrol]) hgoes
        (h.books_take (.inl hcontrol) hgoes.durable_eq)
  | fails hcontrol hgoes =>
      exact h.goes (by rw [hasLeft, hcontrol]) hgoes
        (h.books_fail (.inl hcontrol) _ hgoes.durable_eq)
  | savesLast hcontrol =>
      obtain ⟨d, hd, rfl, hdurable⟩ := h.leaves _ hcontrol
      have hlt := h.asks _ (.inr hcontrol)
      refine h.stays (.inl (by rw [hasLeft, hcontrol])) (h.books_take (.inr hcontrol) rfl)
        (fun target hasks => hasks.elim nofun nofun) nofun fun _ => ⟨d, hd, ?_⟩
      rw [hdurable, max_eq_right hlt.le]
  | failsLast hcontrol =>
      exact h.stays (.inl (by rw [hasLeft, hcontrol])) (h.books_fail (.inr hcontrol) _ rfl)
        (fun target hasks => hasks.elim nofun nofun) nofun nofun

/-- Every occurrence keeps the account. -/
theorem Accounts.step (h : k.Accounts initial) (interval : Nat) (occurrence : Occurrence) :
    (k.step interval occurrence).Accounts initial := by
  cases occurrence with
  | publish position =>
      rw [Log.step]
      split
      · exact h
      · rename_i hopen
        exact h.publish (Bool.not_eq_true _ ▸ hopen) position
  | close => exact h.told rfl (fun _ => rfl) id
  | cancel => exact h.told rfl id fun _ => rfl
  | turn event =>
      rw [Log.step]
      cases hstep : k.persister.step interval k.seen event with
      | none => exact h
      | some after => exact h.advance (moves_of_step hstep)

/-- Every run keeps the account. -/
theorem Accounts.run (h : k.Accounts initial) (interval : Nat) (occurrences : List Occurrence) :
    (k.run interval occurrences).Accounts initial := by
  induction occurrences generalizing k with
  | nil => exact h
  | cons occurrence occurrences ih => exact ih (h.step interval occurrence)

/-! ## What follows from the account -/

/-- A persister asks for what is due. -/
theorem due_of_asks {target : Position} (hmoves : Moves k.seen k.persister event after)
    (hasks : IsTarget after.control target) : (k.advance event after).due = some target := by
  have hdue {q : Persister} (hgoes : Goes k.seen q after) :
      (k.advance event after).due = some target := by
    obtain ⟨rfl, hlt⟩ := hgoes.due hasks
    exact if_pos (hgoes.durable_eq.trans_lt hlt)
  cases hmoves with
  | starts | breaks | savesLast | failsLast => exact hasks.elim nofun nofun
  | looks _ hgoes => exact hdue hgoes
  | saves _ hgoes => exact hdue hgoes
  | fails _ hgoes => exact hdue hgoes

/-- A persister that wakes asks for what is due, if anything is. -/
theorem asks_iff_due (hcontrol : k.persister.control = .waiting) (target : Position) :
    IsTarget (k.step interval (.turn .woke)).persister.control target ↔ k.due = some target := by
  obtain ⟨after, hstep⟩ : ∃ after, k.persister.step interval k.seen .woke = some after := by
    simp only [Persister.step, hcontrol]
    split
    · exact ⟨_, rfl⟩
    · split <;> exact ⟨_, rfl⟩
  rw [Log.step, hstep, Option.elim_some]
  cases moves_of_step hstep with
  | looks _ hgoes hwaits =>
      cases hgoes with
      | waits =>
          have hdue : k.due = none := if_neg (hwaits rfl).not_gt
          exact ⟨fun hasks => hasks.elim nofun nofun, fun h => by simp [hdue] at h⟩
      | ends hle =>
          have hdue : k.due = none := if_neg hle.not_gt
          exact ⟨fun hasks => hasks.elim nofun nofun, fun h => by simp [hdue] at h⟩
      | asks hlt =>
          have hdue : k.due = some k.seen.position := if_pos hlt
          rw [hdue, Option.some.injEq]
          exact ⟨fun hasks => hasks.unique (.inl rfl) ▸ rfl, fun h => .inl (h ▸ rfl)⟩
      | asksLast hlt =>
          have hdue : k.due = some k.seen.position := if_pos hlt
          rw [hdue, Option.some.injEq]
          exact ⟨fun hasks => hasks.unique (.inr rfl) ▸ rfl, fun h => .inr (h ▸ rfl)⟩

/-- A save that fails changes neither the feed nor what is to be saved. -/
theorem step_of_failed (k : Log) (interval : Nat) (failure : Failure) :
    (k.step interval (.turn (.saved (.error failure)))).feed = k.feed ∧
      (k.step interval (.turn (.saved (.error failure)))).due = k.due := by
  rw [Log.step]
  cases hstep : k.persister.step interval k.seen (.saved (.error failure)) with
  | none => exact ⟨rfl, rfl⟩
  | some after =>
      have hdurable : after.durable = k.persister.durable := by
        cases moves_of_step hstep with
        | fails _ hgoes => exact hgoes.durable_eq
        | failsLast => rfl
      exact ⟨if_pos hdurable, by simp only [Option.elim_some, due, Log.advance, hdurable]⟩

/-- A persister whose last save fails ends with that failure. -/
theorem ends_of_failed {target : Position} (hcontrol : k.persister.control = .savingLast target)
    (failure : Failure) :
    (k.step interval (.turn (.saved (.error failure)))).persister.control =
      .finished (.error (failure.within (lastSaveContext target))) := by
  simp only [Log.step, Persister.step, hcontrol, Option.elim_some, Log.advance]

/-- Over every run the durable feed carries the first position and then what the store has taken,
strictly increasing, and the store is only asked for what is beyond that. What a persister asks for
is the published position if it is beyond the durable one; it does so whenever it wakes, and a save
that fails changes nothing about it. A persister that ends well leaves the greater one of what was
durable and what was published as it left its loop durable, and nothing was published since if it
was not told to end; one whose last save fails ends with that failure and publishes nothing. -/
theorem keeps_account (interval : Nat) (initial : Position) (occurrences : List Occurrence) :
    let k := (start initial).run interval occurrences
    (k.feed = initial :: taken k.saves ∧ k.feed.Pairwise (· < ·) ∧
        k.feed.getLast? = some k.persister.durable) ∧
      ((k.saves.Pairwise fun earlier later => earlier.result.isOk → earlier.target < later.target) ∧
        ∀ target, IsTarget k.persister.control target →
          ∀ position ∈ taken k.saves, position < target) ∧
      ((∀ event after, k.persister.step interval k.seen event = some after →
          ∀ target, IsTarget after.control target → (k.advance event after).due = some target) ∧
        (k.persister.control = .waiting → ∀ target,
          IsTarget (k.step interval (.turn .woke)).persister.control target ↔
            k.due = some target) ∧
        ∀ failure, (k.step interval (.turn (.saved (.error failure)))).feed = k.feed ∧
          (k.step interval (.turn (.saved (.error failure)))).due = k.due) ∧
      (k.persister.control = .finished (.ok ()) →
        ∃ d, k.departure = some d ∧ k.persister.durable = max d.durable d.position ∧
          k.seen.position = d.later.getLastD d.position ∧
          (k.seen.endAsked = false → d.later = [])) ∧
      ∀ target failure, k.persister.control = .savingLast target →
        (k.step interval (.turn (.saved (.error failure)))).persister.control =
            .finished (.error (failure.within (lastSaveContext target))) ∧
          (k.step interval (.turn (.saved (.error failure)))).feed = k.feed := by
  intro k
  have h : k.Accounts initial := (accounts_start initial).run interval occurrences
  refine ⟨⟨h.books.feed_eq, h.books.increases, h.books.last⟩, ⟨h.books.advances, ?_⟩,
    ⟨?_, asks_iff_due, k.step_of_failed interval⟩, ?_, ?_⟩
  · intro target hasks position hmem
    refine h.books.lt_of_mem (h.asks target hasks) ?_
    rw [h.books.feed_eq]
    exact List.mem_cons_of_mem _ hmem
  · exact fun event after hstep target => due_of_asks (moves_of_step hstep)
  · intro hcontrol
    obtain ⟨d, hd, hdurable⟩ := h.ends hcontrol
    refine ⟨d, hd, hdurable, h.published d hd, fun hasked => ?_⟩
    rcases h.parted d hd with ⟨-, hlater⟩ | htold
    · exact hlater
    · exact absurd (hasked.symm.trans htold) (by simp)
  · exact fun target failure hcontrol =>
      ⟨ends_of_failed hcontrol failure, (k.step_of_failed interval failure).1⟩

/-- A position that is overtaken before the next tick is never saved, a save that fails is tried
again at the end, with what was published last, and the feed tells what was saved. -/
example :
    let k := (start ⟨1⟩).run 100 [.turn .next, .publish ⟨32⟩, .publish ⟨48⟩, .turn .woke,
      .turn (.saved (.ok ())), .publish ⟨64⟩, .turn .woke, .turn (.saved (.error ⟨[]⟩)),
      .publish ⟨80⟩, .close, .turn .woke, .turn (.saved (.ok ()))]
    k.feed = [⟨1⟩, ⟨48⟩, ⟨80⟩] ∧ k.saves.map Save.target = [⟨48⟩, ⟨64⟩, ⟨80⟩] ∧
      k.persister.hasLeft = true := by
  decide

end Log

end ChangeFeed.Persister
