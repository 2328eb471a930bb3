import ChangeFeed.Proofs.Channel.Order

/-!
# A channel whose parties take turns

Senders, the receiver and whoever closes the channel take their turns in any order. A push is in
line from its start on. The first one in line gets room for a slice when there is room for all of
it, and then hands the records of the slice over one by one, so that the receiver may see a part
of a slice only. `Transit.conveys_run` says what has become of every batch after any number of
turns; read `Consignment.Lawful` and `Transit.Conveys` first. What a channel does that admits
slices at once is one way to take turns (`Transit.push_by_turns`, `Transit.receive_by_turns`,
`Transit.fetch_by_turns`).
-/

namespace ChangeFeed

variable {α : Type}

/-! ## Turns -/

/-- A channel, some of whose admitted records may not be handed over yet. -/
structure Transit (α : Type) where
  channel : Channel α
  /-- How many records at the end of the buffer are not handed over yet. -/
  unsent : Nat

/-- A turn of one of the parties. -/
inductive ChannelTurn (α : Type) where
  /-- A sender starts a push. -/
  | start (records : List α)
  /-- The first push in line gets room for a slice. -/
  | letIn
  /-- That push hands over a record of its slice. -/
  | send
  /-- The receiver takes the next record. -/
  | receive
  /-- The receiver takes what is there, up to a number of records. -/
  | fetch (count : Nat)
  | close

/-- The batch of a push that starts with a turn. -/
def ChannelTurn.batch? : ChannelTurn α → Option (List α)
  | .start records => some records
  | _ => none

/-- The batches of the pushes that start with some turns, in order. -/
def ChannelTurn.batches (turns : List (ChannelTurn α)) : List (List α) :=
  turns.filterMap batch?

namespace Channel

/-- How a push starts: an empty one is done at once; on a closed channel others fail at once. -/
def newPush (c : Channel α) (records : List α) : Push α :=
  if records.isEmpty then .pushed else if c.isClosed then .closed else .pending records

/-- A push gets in line. -/
def enlist (c : Channel α) (records : List α) : Channel α :=
  { c with pushes := c.pushes ++ [c.newPush records] }

/-- A push gets in line, and then slices are admitted. -/
theorem push_eq (c : Channel α) (records : List α) : c.push records = (c.enlist records).settle :=
  rfl

end Channel

namespace Transit

/-- The records that the receiver can see. -/
def inSight (t : Transit α) : List α :=
  t.channel.buffered.take (t.channel.buffered.length - t.unsent)

/-- The receiver takes the first records that it can see, up to a number of them. -/
def take (t : Transit α) (count : Nat) : Transit α × List α :=
  let records := t.inSight.take count
  (⟨{ t.channel with buffered := t.channel.buffered.drop records.length }, t.unsent⟩, records)

/-- The transit after a turn, and what the receiver gets. There is none for a turn that somebody
has to wait for. -/
def step (t : Transit α) : ChannelTurn α → Option (Transit α × List α)
  | .start records => some (⟨t.channel.enlist records, t.unsent⟩, [])
  | .letIn =>
    if t.unsent = 0 then
      t.channel.admit?.map fun d => (⟨d, d.buffered.length - t.channel.buffered.length⟩, [])
    else none
  | .send => if 0 < t.unsent then some (⟨t.channel, t.unsent - 1⟩, []) else none
  | .receive => if t.inSight.isEmpty then none else some (t.take 1)
  | .fetch count => some (t.take count)
  | .close => some (⟨t.channel.close, t.unsent⟩, [])

/-- The transit after some turns, and all that the receiver gets. -/
def run (t : Transit α) : List (ChannelTurn α) → Option (Transit α × List α)
  | [] => some (t, [])
  | turn :: rest => do
    let (t, first) ← t.step turn
    let (t, later) ← run t rest
    return (t, first ++ later)

end Transit

/-! ## What has become of a batch -/

/-- A batch that was handed to a push: what of it was admitted, and how the push stands. -/
structure Consignment (α : Type) where
  batch : List α
  admitted : List α
  push : Push α

namespace Consignment

/-- All of the batch was admitted. -/
def IsWhole (x : Consignment α) : Prop :=
  x.admitted = x.batch

/-- A push is done when its whole batch was admitted. Until then, and for ever if the channel was
closed before, a proper first part of the batch was. -/
def Lawful (x : Consignment α) : Prop :=
  match x.push with
  | .pending left => x.admitted ++ left = x.batch ∧ left ≠ []
  | .pushed => x.IsWhole
  | .closed => x.admitted <+: x.batch ∧ ¬x.IsWhole

/-- A push that waits has not handed over its whole batch. -/
theorem not_whole_of_pending {x : Consignment α} {left : List α} (h : x.Lawful)
    (hpush : x.push = .pending left) : ¬x.IsWhole := by
  intro hwhole
  rw [Lawful, hpush] at h
  obtain ⟨hparts, hleft⟩ := h
  rw [IsWhole, ← hparts] at hwhole
  exact hleft (List.self_eq_append_right.mp hwhole)

/-- A push has succeeded exactly if its whole batch was admitted. -/
theorem pushed_iff_whole {x : Consignment α} (h : x.Lawful) : x.push = .pushed ↔ x.IsWhole := by
  cases hpush : x.push with
  | pending left => simpa using not_whole_of_pending h hpush
  | pushed => simpa [Lawful, hpush] using h
  | closed =>
      rw [Lawful, hpush] at h
      simpa using h.2

/-- What was admitted is a first part of the batch. -/
theorem admitted_prefix {x : Consignment α} (h : x.Lawful) : x.admitted <+: x.batch := by
  cases hpush : x.push with
  | pending left =>
      rw [Lawful, hpush] at h
      exact ⟨left, h.1⟩
  | pushed =>
      rw [Lawful, hpush] at h
      exact h ▸ List.prefix_rfl
  | closed =>
      rw [Lawful, hpush] at h
      exact h.1

/-- The consignment of a push that gets in line. -/
def enlisted (c : Channel α) (records : List α) : Consignment α :=
  ⟨records, [], c.newPush records⟩

/-- A push that gets in line has handed over nothing, and is done if there is nothing to hand
over. -/
theorem lawful_enlisted (c : Channel α) (records : List α) : (enlisted c records).Lawful := by
  cases records with
  | nil => rfl
  | cons r rest =>
      cases hclosed : c.isClosed <;> simp [enlisted, Channel.newPush, Lawful, IsWhole, hclosed]

/-- The consignment of a push when the channel is closed. -/
def cutOff (x : Consignment α) : Consignment α :=
  { x with push := Channel.failed x.push }

/-- A batch is whole or not, however its push stands. -/
@[simp]
theorem whole_mk {x : Consignment α} {push : Push α} :
    (Consignment.mk x.batch x.admitted push).IsWhole ↔ x.IsWhole :=
  Iff.rfl

/-- Closing the channel ends the pushes that wait with what they have. -/
theorem Lawful.cut_off {x : Consignment α} (h : x.Lawful) : x.cutOff.Lawful := by
  have hprefix := admitted_prefix h
  have hwhole := pushed_iff_whole h
  cases hpush : x.push with
  | pending left | closed =>
      rw [hpush] at hwhole
      have hnot : ¬x.IsWhole := by simpa using hwhole
      simpa [Lawful, cutOff, hpush, Channel.failed] using And.intro hprefix hnot
  | pushed => simpa [Lawful, cutOff, hpush, Channel.failed] using hwhole.mp hpush

/-- The consignment of a push after a slice of it was admitted. -/
def afterSlice (x : Consignment α) (left : List α) (capacity : Nat) : Consignment α where
  batch := x.batch
  admitted := x.admitted ++ left.take capacity
  push := if (left.drop capacity).isEmpty then .pushed else .pending (left.drop capacity)

/-- A slice takes a push further. -/
theorem Lawful.after_slice {x : Consignment α} {left : List α} (h : x.Lawful)
    (hpush : x.push = .pending left) (capacity : Nat) : (x.afterSlice left capacity).Lawful := by
  rw [Lawful, hpush] at h
  have hparts : (x.admitted ++ left.take capacity) ++ left.drop capacity = x.batch := by
    rw [List.append_assoc, List.take_append_drop, h.1]
  cases hrest : left.drop capacity with
  | nil =>
      rw [hrest, List.append_nil] at hparts
      simpa [Lawful, afterSlice, hrest, IsWhole] using hparts
  | cons r rest =>
      rw [hrest] at hparts
      simpa [Lawful, afterSlice, hrest] using hparts

end Consignment

/-! ## What a channel conveys -/

namespace Channel

/-- What admitting a slice does: it takes from the first push that waits, if there is room. -/
theorem admit_first_split {capacity : Nat} {buffered buffered' : List α}
    {pushes pushes' : List (Push α)}
    (h : admitFirst capacity buffered pushes = some (buffered', pushes')) :
    ∃ front left rest, pushes = front ++ .pending left :: rest ∧
      (∀ p ∈ front, ∀ waiting, p ≠ .pending waiting) ∧
      buffered.length + (left.take capacity).length ≤ capacity ∧
      buffered' = buffered ++ left.take capacity ∧
      pushes' = front ++ (if (left.drop capacity).isEmpty then .pushed
        else .pending (left.drop capacity)) :: rest := by
  induction pushes generalizing pushes' with
  | nil => simp [admitFirst] at h
  | cons p pushes ih =>
      cases p with
      | pending left =>
          rw [admitFirst] at h
          split at h
          · rename_i hroom
            obtain ⟨rfl, rfl⟩ := Prod.mk.inj (Option.some.inj h)
            exact ⟨[], left, pushes, rfl, by simp, hroom, rfl, rfl⟩
          · exact absurd h (Option.some_ne_none _).symm
      | pushed | closed =>
          simp only [admitFirst, Option.map_eq_some_iff, Prod.mk.injEq] at h
          obtain ⟨⟨_, more⟩, hmore, rfl, rfl⟩ := h
          obtain ⟨front, left, rest, rfl, hfront, hroom, hbuffered, rfl⟩ := ih hmore
          refine ⟨_ :: front, left, rest, rfl, ?_, hroom, hbuffered, rfl⟩
          exact List.forall_mem_cons.mpr ⟨by simp, hfront⟩

/-- A new channel is empty and open. -/
theorem create_eq {capacity : Nat} {c : Channel α} (h : create capacity = .ok c) :
    c = ⟨capacity, [], [], false⟩ := by
  unfold create at h
  split at h
  · exact absurd h (by simp)
  · split at h
    · exact absurd h (by simp)
    · exact (Except.ok.inj h).symm

/-- Admitting a slice does not change the capacity. -/
theorem admit_capacity {c d : Channel α} (h : c.admit? = some d) : d.capacity = c.capacity := by
  unfold admit? at h
  split at h
  · exact absurd h (Option.some_ne_none _).symm
  · obtain ⟨_, -, rfl⟩ := Option.map_eq_some_iff.mp h
    rfl

end Channel

/-- A list of consignments accounts for a channel: in the order in which the pushes got in line,
all batches before the first one that is not whole were admitted, that one in part, and of later
ones nothing. -/
structure Consignments (c : Channel α) (xs : List (Consignment α)) : Prop where
  pushes : xs.map Consignment.push = c.pushes
  lawful : ∀ x ∈ xs, x.Lawful
  in_order : xs.Pairwise fun x y => x.IsWhole ∨ y.admitted = []
  /-- As long as the channel is open no push has failed. -/
  failed : c.isClosed = false → ∀ x ∈ xs, x.push ≠ .closed

namespace Consignments

variable {c : Channel α} {xs : List (Consignment α)}

/-- Another push gets in line behind all others. -/
theorem enlist (h : Consignments c xs) (records : List α) :
    Consignments (c.enlist records) (xs ++ [.enlisted c records]) := by
  refine ⟨?_, ?_, ?_, ?_⟩
  · exact (List.map_append).trans (congrArg (· ++ [_]) h.pushes)
  · refine List.forall_mem_append.mpr ⟨h.lawful, ?_⟩
    exact List.forall_mem_singleton.mpr (Consignment.lawful_enlisted c records)
  · refine List.pairwise_append.mpr ⟨h.in_order, List.pairwise_singleton _ _, ?_⟩
    intro x _ y hy
    obtain rfl := List.mem_singleton.mp hy
    exact .inr rfl
  · intro hopen
    have hopen' : c.isClosed = false := hopen
    refine List.forall_mem_append.mpr ⟨h.failed hopen', List.forall_mem_singleton.mpr ?_⟩
    cases records <;> simp [Consignment.enlisted, Channel.newPush, hopen']

/-- Closing the channel cuts the pushes off that wait. -/
theorem close (h : Consignments c xs) :
    Consignments c.close (xs.map Consignment.cutOff) := by
  refine ⟨?_, ?_, ?_, ?_⟩
  · show (xs.map Consignment.cutOff).map Consignment.push = c.pushes.map Channel.failed
    rw [← h.pushes, List.map_map, List.map_map]
    rfl
  · exact List.forall_mem_map.mpr fun x hx => (h.lawful x hx).cut_off
  · exact List.pairwise_map.mpr h.in_order
  · intro hopen
    exact absurd hopen (by simp [Channel.close])

/-- A slice of the first push that waits goes to the end of the buffer, behind everything that was
admitted before. -/
theorem let_in {d : Channel α} (h : Consignments c xs) (hstep : c.admit? = some d) :
    ∃ ys, ys.map Consignment.batch = xs.map Consignment.batch ∧
      c.buffered <+: d.buffered ∧ d.buffered.length ≤ c.capacity ∧
      xs.flatMap Consignment.admitted ++ d.buffered.drop c.buffered.length =
        ys.flatMap Consignment.admitted ∧ Consignments d ys := by
  obtain ⟨hopen, hfirst, hclosed⟩ := Channel.admit_cases hstep
  obtain ⟨front, left, rest, hpushes, hfront, hroom, hbuffered, hpushes'⟩ :=
    Channel.admit_first_split hfirst
  obtain ⟨us, vs, rfl, hus, hvs⟩ := List.map_eq_append_iff.mp (h.pushes.trans hpushes)
  obtain ⟨x, vs, rfl, hx, hvs⟩ := List.map_eq_cons_iff.mp hvs
  obtain ⟨hlawful, hx_lawful, hvs_lawful⟩ :
      (∀ u ∈ us, u.Lawful) ∧ x.Lawful ∧ ∀ v ∈ vs, v.Lawful := by
    simpa [or_imp, forall_and] using h.lawful
  obtain ⟨hus_order, hvs_order, hacross⟩ := List.pairwise_append.mp h.in_order
  obtain ⟨hx_order, hvs_order⟩ := List.pairwise_cons.mp hvs_order
  have hfailed := h.failed hopen
  -- In front of the first push that waits all are through, and behind it none has started.
  have hus_whole : ∀ u ∈ us, u.IsWhole := by
    intro u hu
    refine (Consignment.pushed_iff_whole (hlawful u hu)).mp ?_
    have hnot_failed : u.push ≠ .closed := hfailed u (List.mem_append_left _ hu)
    have hnot_waiting := hfront u.push (hus ▸ List.mem_map_of_mem hu)
    cases hpush : u.push with
    | pending waiting => exact absurd hpush (hnot_waiting waiting)
    | pushed => rfl
    | closed => exact absurd hpush hnot_failed
  have hvs_none : ∀ v ∈ vs, v.admitted = [] := by
    intro v hv
    exact (hx_order v hv).resolve_left (Consignment.not_whole_of_pending hx_lawful hx)
  refine ⟨us ++ x.afterSlice left c.capacity :: vs, by simp [Consignment.afterSlice], ?_, ?_, ?_,
    ?_, ?_, ?_, ?_⟩
  · exact hbuffered ▸ List.prefix_append _ _
  · rw [hbuffered, List.length_append]
    exact hroom
  · rw [hbuffered, List.drop_left]
    simp [Consignment.afterSlice, List.flatMap_eq_nil_iff.mpr hvs_none]
  · rw [hpushes', List.map_append, List.map_cons, hus, hvs]
    rfl
  · refine List.forall_mem_append.mpr ⟨hlawful, List.forall_mem_cons.mpr ⟨?_, hvs_lawful⟩⟩
    exact hx_lawful.after_slice hx c.capacity
  · refine List.pairwise_append.mpr ⟨hus_order, List.pairwise_cons.mpr ⟨?_, hvs_order⟩, ?_⟩
    · exact fun v hv => .inr (hvs_none v hv)
    · exact fun u hu _ _ => .inl (hus_whole u hu)
  · intro _
    have hrest : ∀ v ∈ vs, v.push ≠ .closed := fun v hv =>
      hfailed v (List.mem_append_right _ (List.mem_cons_of_mem _ hv))
    refine List.forall_mem_append.mpr ⟨?_, List.forall_mem_cons.mpr ⟨?_, hrest⟩⟩
    · exact fun u hu => hfailed u (List.mem_append_left _ hu)
    · unfold Consignment.afterSlice
      split <;> simp_all

end Consignments

/-- What a transit has conveyed: the records that were received and those that are still buffered
are together what was admitted of the batches, in order, and the buffer has room for them. -/
structure Transit.Conveys (capacity : Nat) (batches : List (List α)) (received : List α)
    (t : Transit α) : Prop where
  capacity_eq : t.channel.capacity = capacity
  room : t.channel.buffered.length ≤ capacity
  unsent : t.unsent ≤ t.channel.buffered.length
  parts : ∃ xs, Consignments t.channel xs ∧ xs.map Consignment.batch = batches ∧
    received ++ t.channel.buffered = xs.flatMap Consignment.admitted

namespace Transit

variable {t t' : Transit α} {capacity : Nat} {batches : List (List α)}
  {received records : List α}

/-- The receiver takes records from the front of the buffer. -/
theorem take_facts (t : Transit α) (count : Nat) :
    ∃ rest, t.channel.buffered = (t.take count).2 ++ rest ∧
      (t.take count).1 = ⟨{ t.channel with buffered := rest }, t.unsent⟩ ∧
      (t.unsent ≤ t.channel.buffered.length → t.unsent ≤ rest.length) := by
  obtain ⟨hidden, hhidden⟩ : t.inSight <+: t.channel.buffered := List.take_prefix _ _
  obtain ⟨later, hlater⟩ : t.inSight.take count <+: t.inSight := List.take_prefix _ _
  have hbuffered : t.channel.buffered = (t.take count).2 ++ (later ++ hidden) := by
    rw [← List.append_assoc]
    exact (hlater ▸ hhidden).symm
  refine ⟨later ++ hidden, hbuffered, ?_, ?_⟩
  · have hdrop : t.channel.buffered.drop (t.take count).2.length = later ++ hidden := by
      rw [hbuffered]
      exact List.drop_left
    exact congrArg (fun rest => Transit.mk { t.channel with buffered := rest } t.unsent) hdrop
  · intro hunsent
    have hsight : t.inSight.length = t.channel.buffered.length - t.unsent := by
      rw [inSight, List.length_take]
      omega
    have hlength := congrArg List.length hhidden
    rw [List.length_append] at hlength ⊢
    omega

/-- Taking records moves them from the front of the buffer to what was received. -/
theorem Conveys.take (h : t.Conveys capacity batches received) (count : Nat) :
    (t.take count).1.Conveys capacity batches (received ++ (t.take count).2) := by
  obtain ⟨rest, hbuffered, htake, hunsent⟩ := t.take_facts count
  obtain ⟨xs, hxs, hbatches, hparts⟩ := h.parts
  rw [htake]
  refine ⟨h.capacity_eq, ?_, hunsent h.unsent, xs,
    ⟨hxs.pushes, hxs.lawful, hxs.in_order, hxs.failed⟩, hbatches, ?_⟩
  · have hroom := h.room
    rw [hbuffered, List.length_append] at hroom
    exact Nat.le_trans (Nat.le_add_left _ _) hroom
  · rw [List.append_assoc, ← hbuffered]
    exact hparts

/-- One turn conveys what it should. -/
theorem Conveys.step (h : t.Conveys capacity batches received) {turn : ChannelTurn α}
    (hstep : t.step turn = some (t', records)) :
    t'.Conveys capacity (batches ++ turn.batch?.toList) (received ++ records) := by
  obtain ⟨xs, hxs, hbatches, hparts⟩ := h.parts
  cases turn with
  | start batch =>
      obtain ⟨rfl, rfl⟩ := Prod.mk.inj (Option.some.inj hstep)
      refine ⟨h.capacity_eq, h.room, h.unsent, _, hxs.enlist batch, ?_, ?_⟩
      · simp [hbatches, Consignment.enlisted, ChannelTurn.batch?]
      · simpa [Consignment.enlisted, Channel.enlist] using hparts
  | letIn =>
      rw [Transit.step] at hstep
      split at hstep
      · obtain ⟨d, hadmit, heq⟩ := Option.map_eq_some_iff.mp hstep
        obtain ⟨rfl, rfl⟩ := Prod.mk.inj heq
        obtain ⟨ys, hys, ⟨slice, hslice⟩, hroom, hadmitted, hconsignments⟩ := hxs.let_in hadmit
        have hcapacity := (Channel.admit_capacity hadmit).trans h.capacity_eq
        refine ⟨hcapacity, h.capacity_eq ▸ hroom, Nat.sub_le _ _, ys, hconsignments, ?_, ?_⟩
        · simpa [ChannelTurn.batch?, hbatches] using hys
        · rw [← hadmitted, ← hparts, ← hslice, List.drop_left]
          simp
      · exact absurd hstep (Option.some_ne_none _).symm
  | send =>
      rw [Transit.step] at hstep
      split at hstep
      · obtain ⟨rfl, rfl⟩ := Prod.mk.inj (Option.some.inj hstep)
        refine ⟨h.capacity_eq, h.room, Nat.le_trans (Nat.sub_le _ _) h.unsent, xs, hxs, ?_, ?_⟩
        · simpa [ChannelTurn.batch?] using hbatches
        · simpa using hparts
      · exact absurd hstep (Option.some_ne_none _).symm
  | receive =>
      rw [Transit.step] at hstep
      split at hstep
      · exact absurd hstep (Option.some_ne_none _).symm
      · obtain ⟨rfl, rfl⟩ : (t.take 1).1 = t' ∧ (t.take 1).2 = records :=
          Prod.mk.inj (Option.some.inj hstep)
        simpa only [ChannelTurn.batch?, Option.toList_none, List.append_nil] using h.take 1
  | fetch count =>
      obtain ⟨rfl, rfl⟩ : (t.take count).1 = t' ∧ (t.take count).2 = records :=
        Prod.mk.inj (Option.some.inj hstep)
      simpa only [ChannelTurn.batch?, Option.toList_none, List.append_nil] using h.take count
  | close =>
      obtain ⟨rfl, rfl⟩ := Prod.mk.inj (Option.some.inj hstep)
      refine ⟨h.capacity_eq, h.room, h.unsent, _, hxs.close, ?_, ?_⟩
      · simpa [ChannelTurn.batch?, Function.comp_def, Consignment.cutOff] using hbatches
      · simpa [List.flatMap_map, Consignment.cutOff, Channel.close] using hparts

/-- A run is a turn and then a run. -/
theorem run_cons {turn : ChannelTurn α} {turns : List (ChannelTurn α)} :
    t.run (turn :: turns) = some (t', records) ↔ ∃ between first later,
      t.step turn = some (between, first) ∧ between.run turns = some (t', later) ∧
      records = first ++ later := by
  simp only [run, Option.bind_eq_bind, Option.bind_eq_some_iff, Option.pure_def, Option.some.injEq,
    Prod.mk.injEq, Prod.exists]
  constructor
  · rintro ⟨between, first, hstep, _, later, hrun, rfl, rfl⟩
    exact ⟨between, first, later, hstep, hrun, rfl⟩
  · rintro ⟨between, first, later, hstep, hrun, rfl⟩
    exact ⟨between, first, hstep, t', later, hrun, rfl, rfl⟩

/-- Turns in whatever order convey what they should. -/
theorem Conveys.run (h : t.Conveys capacity batches received) {turns : List (ChannelTurn α)}
    (hrun : t.run turns = some (t', records)) :
    t'.Conveys capacity (batches ++ ChannelTurn.batches turns) (received ++ records) := by
  -- The induction is on the turns; the batches and the records so far grow with each of them.
  induction turns generalizing t batches received records with
  | nil =>
      obtain ⟨rfl, rfl⟩ := Prod.mk.inj (Option.some.inj hrun)
      simpa [ChannelTurn.batches] using h
  | cons turn turns ih =>
      obtain ⟨between, first, later, hstep, hrest, rfl⟩ := run_cons.mp hrun
      have hlater := ih (h.step hstep) hrest
      have hbatches : ChannelTurn.batches (turn :: turns) =
          turn.batch?.toList ++ ChannelTurn.batches turns := by
        cases hbatch : turn.batch? <;> simp [ChannelTurn.batches, hbatch]
      rw [hbatches, ← List.append_assoc, ← List.append_assoc]
      exact hlater

/-- A new channel has conveyed nothing. -/
theorem conveys_new {c : Channel α} (h : Channel.create capacity = .ok c) :
    (Transit.mk c 0).Conveys capacity [] [] := by
  obtain rfl := Channel.create_eq h
  exact ⟨rfl, Nat.zero_le _, Nat.zero_le _, [], ⟨rfl, by simp, .nil, by simp⟩, rfl, rfl⟩

/-- Turns that follow other turns. -/
theorem run_append {first : List (ChannelTurn α)} (hfirst : t.run first = some (t', records))
    (later : List (ChannelTurn α)) :
    t.run (first ++ later) = (t'.run later).map fun (last, more) => (last, records ++ more) := by
  induction first generalizing t records with
  | nil =>
      obtain ⟨rfl, rfl⟩ := Prod.mk.inj (Option.some.inj hfirst)
      simp
  | cons turn first ih =>
      obtain ⟨between, front, back, hstep, hrest, rfl⟩ := run_cons.mp hfirst
      cases hlater : t'.run later <;> simp [run, hstep, ih hrest, hlater]

/-- The push that has room hands the rest of its slice over. -/
theorem run_send (c : Channel α) (unsent : Nat) :
    (Transit.mk c unsent).run (List.replicate unsent .send) = some (⟨c, 0⟩, []) := by
  induction unsent with
  | zero => rfl
  | succ unsent ih => simp [List.replicate_succ, run, step, ih]

/-- All that is buffered can be received, whether the channel is open or closed. -/
theorem run_drain (t : Transit α) :
    t.run (List.replicate t.unsent .send ++ [.fetch t.channel.buffered.length]) =
      some (⟨{ t.channel with buffered := [] }, 0⟩, t.channel.buffered) := by
  rw [run_append (run_send t.channel t.unsent)]
  simp [run, step, take, inSight]

/-- Whatever the order of the turns: the channel never holds more than its capacity. What was
received and what is buffered is what was admitted of the batches in the order in which their
pushes got in line, all of each batch in front of the first that is not through, a first part of
that one, and nothing of those behind it. A push has succeeded exactly if its whole batch was
admitted, and one has failed only if the channel was closed. And what is buffered can still be
received. -/
theorem conveys_run {c : Channel α} (hcreate : Channel.create capacity = .ok c)
    {turns : List (ChannelTurn α)} (hrun : (Transit.mk c 0).run turns = some (t, received)) :
    t.channel.buffered.length ≤ capacity ∧
    (∃ xs : List (Consignment α), xs.map Consignment.batch = ChannelTurn.batches turns ∧
      xs.map Consignment.push = t.channel.pushes ∧
      received ++ t.channel.buffered = xs.flatMap Consignment.admitted ∧
      (xs.Pairwise fun x y => x.IsWhole ∨ y.admitted = []) ∧
      ∀ x ∈ xs, x.admitted <+: x.batch ∧ (x.push = .pushed ↔ x.IsWhole) ∧
        (x.push = .closed → t.channel.isClosed = true)) ∧
    t.run (List.replicate t.unsent .send ++ [.fetch t.channel.buffered.length]) =
      some (⟨{ t.channel with buffered := [] }, 0⟩, t.channel.buffered) := by
  have hconveys := (conveys_new hcreate).run hrun
  obtain ⟨xs, hxs, hbatches, hparts⟩ := hconveys.parts
  refine ⟨hconveys.room, ⟨xs, hbatches, hxs.pushes, hparts, hxs.in_order, ?_⟩, t.run_drain⟩
  intro x hx
  have hlawful := hxs.lawful x hx
  refine ⟨Consignment.admitted_prefix hlawful, Consignment.pushed_iff_whole hlawful, ?_⟩
  intro hfailed
  cases hclosed : t.channel.isClosed with
  | true => rfl
  | false => exact absurd hfailed (hxs.failed hclosed x hx)

/-- A batch that is larger than the channel, another one, and a close between two slices. -/
theorem conveys_run_oversized :
    Channel.create 2 = .ok (⟨2, [], [], false⟩ : Channel Nat) ∧
    (Transit.mk (⟨2, [], [], false⟩ : Channel Nat) 0).run
      [.start [1, 2, 3], .start [4], .letIn, .send, .receive, .send, .fetch 5, .close] =
        some (⟨⟨2, [], [.closed, .closed], true⟩, 0⟩, [1, 2]) ∧
    ∃ xs : List (Consignment Nat), xs.map Consignment.batch = [[1, 2, 3], [4]] ∧
      xs.map Consignment.push = [.closed, .closed] ∧
      [1, 2] = xs.flatMap Consignment.admitted ∧
      xs.Pairwise fun x y => x.IsWhole ∨ y.admitted = [] := by
  have hcreate : Channel.create 2 = .ok (⟨2, [], [], false⟩ : Channel Nat) := rfl
  have hrun : (Transit.mk (⟨2, [], [], false⟩ : Channel Nat) 0).run
      [.start [1, 2, 3], .start [4], .letIn, .send, .receive, .send, .fetch 5, .close] =
        some (⟨⟨2, [], [.closed, .closed], true⟩, 0⟩, [1, 2]) := rfl
  obtain ⟨-, ⟨xs, hbatches, hpushes, hparts, horder, -⟩, -⟩ := conveys_run hcreate hrun
  exact ⟨hcreate, hrun, xs, hbatches, hpushes, hparts, horder⟩

/-! ## Slices that are admitted at once -/

/-- Handing records over starts no push. -/
theorem batches_send (count : Nat) :
    ChannelTurn.batches (List.replicate count (ChannelTurn.send : ChannelTurn α)) = [] := by
  simp [ChannelTurn.batches, ChannelTurn.batch?]

/-- Admitting slices as long as there is room is a sequence of turns that starts no push. -/
theorem settle_by_turns (c : Channel α) :
    ∃ turns, ChannelTurn.batches turns = [] ∧
      (Transit.mk c 0).run turns = some (⟨c.settle, 0⟩, []) := by
  refine Channel.settle_keeps (P := fun d => ∃ turns, ChannelTurn.batches turns = [] ∧
    (Transit.mk c 0).run turns = some (⟨d, 0⟩, [])) ?_ ⟨[], rfl, rfl⟩
  rintro d e hadmit ⟨turns, hbatches, hrun⟩
  refine ⟨turns ++ .letIn :: List.replicate (e.buffered.length - d.buffered.length) .send, ?_, ?_⟩
  · rw [ChannelTurn.batches, List.filterMap_append] at *
    rw [hbatches, List.nil_append]
    exact batches_send _
  · rw [run_append hrun]
    simp [run, step, hadmit, run_send]

/-- A push whose slices are admitted at once is a start and turns that start nothing else. -/
theorem push_by_turns (c : Channel α) (records : List α) :
    ∃ turns, ChannelTurn.batches turns = [records] ∧
      (Transit.mk c 0).run turns = some (⟨c.push records, 0⟩, []) := by
  obtain ⟨turns, hbatches, hrun⟩ := settle_by_turns (c.enlist records)
  refine ⟨.start records :: turns, congrArg (records :: ·) hbatches, ?_⟩
  rw [Channel.push_eq]
  exact run_cons.mpr ⟨_, [], [], rfl, hrun, rfl⟩

/-- To receive a record and admit what there is room for then takes turns that start nothing. -/
theorem receive_by_turns {c d : Channel α} {record : α} (h : c.receive = (some record, d)) :
    ∃ turns, ChannelTurn.batches turns = [] ∧
      (Transit.mk c 0).run turns = some (⟨d, 0⟩, [record]) := by
  cases hbuffered : c.buffered with
  | nil => simp [Channel.receive, hbuffered] at h
  | cons first rest =>
      simp only [Channel.receive, hbuffered, Prod.mk.injEq, Option.some.injEq] at h
      obtain ⟨rfl, rfl⟩ := h
      obtain ⟨turns, hbatches, hrun⟩ := settle_by_turns { c with buffered := rest }
      refine ⟨.receive :: turns, hbatches, run_cons.mpr ⟨_, [first], [], ?_, hrun, rfl⟩⟩
      simp [step, take, inSight, hbuffered]

/-- To fetch records and admit what there is room for then takes turns that start nothing. -/
theorem fetch_by_turns (c : Channel α) (count : Nat) :
    ∃ turns, ChannelTurn.batches turns = [] ∧
      (Transit.mk c 0).run turns = some (⟨(c.fetch count).2, 0⟩, (c.fetch count).1) := by
  obtain ⟨turns, hbatches, hrun⟩ := settle_by_turns { c with buffered := c.buffered.drop count }
  refine ⟨.fetch count :: turns, hbatches, ?_⟩
  refine run_cons.mpr ⟨_, c.buffered.take count, [], ?_, hrun, by simp [Channel.fetch]⟩
  rcases Nat.le_total count c.buffered.length with hcount | hcount
  · simp [step, take, inSight, hcount]
  · simp [step, take, inSight, hcount]

end Transit

end ChangeFeed
