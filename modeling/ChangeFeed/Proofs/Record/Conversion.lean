import ChangeFeed.Proofs.Record.Typing
import ChangeFeed.TransactionBuffer

/-!
# Records of events

A record stands where its event stands, and a data record carries the number of its event. A list
of events is converted exactly if each of them is (`convert_all_iff`).
-/

namespace ChangeFeed

/-- The fault is one of a message, not of a session or of the channel. -/
def FeedFault.OfMessage : FeedFault → Prop
  | .decode _ => True
  | .metadataUnavailable _ _ => True
  | .conversion _ _ _ => True
  | _ => False

/-- Whether an event is part of what a transaction does: a row or a mark of progress. -/
def Event.IsChange : Event → Prop
  | .row _ => True
  | .placeholder _ => True
  | .begin _ _ _ => False
  | .commit _ _ _ _ => False

/-- A stamp does not move an event. -/
@[simp]
theorem Event.position_stamp (xid csn : Option UInt64) (e : Event) :
    (e.stamp xid csn).position = e.position := by
  cases e <;> rfl

namespace Converter

variable {c : Converter} {e : Event} {r : Record}

/-- A converted row stands where the row stands and carries its number. -/
theorem convert_row_facts {row : Row} {d : DataRecord} (h : c.convertRow row = .ok d) :
    d.position = row.position ∧ d.csn = row.csn := by
  obtain ⟨definition, hdefines⟩ := defined_of_convert_row h
  have hrecord := convert_row_is_of hdefines h
  exact ⟨hrecord.position_eq, hrecord.csn_eq⟩

/-- A row becomes its data record or a mark of progress in its place. -/
theorem convert_row_cases {row : Row} (h : c.convert (.row row) = .ok r) :
    (∃ d, c.convertRow row = .ok d ∧ r = .data d) ∨ r = .placeholder row.position := by
  rw [convert] at h
  split at h
  · obtain ⟨d, hd, rfl⟩ := Except.map_eq_ok.mp h
    exact .inl ⟨d, hd, rfl⟩
  · exact .inr (Except.ok.inj h).symm

/-- A record stands where its event stands. -/
theorem convert_position (h : c.convert e = .ok r) : r.position = e.position := by
  cases e with
  | row row =>
      rcases convert_row_cases h with ⟨d, hd, rfl⟩ | rfl
      · exact (convert_row_facts hd).1
      · rfl
  | begin position xid csn => exact Except.ok.inj h ▸ rfl
  | commit position xid csn time => exact Except.ok.inj h ▸ rfl
  | placeholder position => exact Except.ok.inj h ▸ rfl

/-- The data record of a stamped change carries the number of the stamp. -/
theorem convert_stamp_csn {xid csn : Option UInt64} {d : DataRecord}
    (h : c.convert (e.stamp xid csn) = .ok (.data d)) : d.csn = csn := by
  cases e with
  | row row =>
      rcases convert_row_cases h with ⟨d', hd, heq⟩ | heq
      · obtain rfl : d = d' := Record.data.inj heq
        exact (convert_row_facts hd).2
      · exact absurd heq (by simp)
  | begin position xid csn => exact absurd (Except.ok.inj h) (by simp)
  | commit position xid csn time => exact absurd (Except.ok.inj h) (by simp)
  | placeholder position => exact absurd (Except.ok.inj h) (by simp)

/-- Events are converted in one pass over them. -/
theorem convert_all_eq (c : Converter) (events : List Event) :
    c.convertAll events = events.mapM c.convert := by
  induction events with
  | nil => rfl
  | cons e rest ih => rw [convertAll, ih, List.mapM_cons]

/-- Events are converted exactly if each of them is, in their order. -/
theorem convert_all_iff {events : List Event} {records : List Record} :
    c.convertAll events = .ok records ↔
      List.Forall₂ (fun e r => c.convert e = .ok r) events records := by
  rw [convert_all_eq, Except.map_m_eq_ok_iff]

/-- The records of events that are put together are the records of the parts. -/
theorem convert_all_append {before after : List Event} {records : List Record} :
    c.convertAll (before ++ after) = .ok records ↔
      ∃ rs ss, c.convertAll before = .ok rs ∧ c.convertAll after = .ok ss ∧
        records = rs ++ ss := by
  simp only [convert_all_eq, List.mapM_append, Except.bind_eq_ok, Except.pure_eq_ok,
    exists_and_left, @eq_comm _ records]

/-- The records of a single event. -/
theorem convert_all_singleton {records : List Record} :
    c.convertAll [e] = .ok records ↔ ∃ r, c.convert e = .ok r ∧ records = [r] := by
  rw [convert_all_iff, List.forall₂_cons_left_iff]
  simp

/-- Every record comes from an event. -/
theorem exists_event_of_mem {events : List Event} {records : List Record}
    (h : c.convertAll events = .ok records) (hr : r ∈ records) :
    ∃ e ∈ events, c.convert e = .ok r :=
  (convert_all_iff.mp h).exists_of_mem_right hr

/-- Every event leaves a record. -/
theorem exists_record_of_mem {events : List Event} {records : List Record}
    (h : c.convertAll events = .ok records) (he : e ∈ events) :
    ∃ r ∈ records, c.convert e = .ok r :=
  (convert_all_iff.mp h).exists_of_mem_left he

/-! ## Faults -/

/-- A row is refused for an unknown table or column or for a value that cannot be read. -/
theorem Refuses.of_message {row : Row} {fault : FeedFault} (h : c.Refuses row fault) :
    fault.OfMessage := by
  cases h with
  | undefined => trivial
  | column _ h =>
      obtain ⟨front, raw, back, -, -, h⟩ := h
      cases h with
      | undefined => trivial
      | unreadable => trivial

/-- An event that cannot be converted has an unknown table or column or a value that cannot be
read. -/
theorem convert_error {fault : FeedFault} (h : c.convert e = .error fault) : fault.OfMessage := by
  cases e with
  | row row =>
      rw [convert] at h
      split at h
      · exact (convert_row_eq_error_iff.mp (Except.map_eq_error.mp h)).of_message
      · exact absurd h (by simp)
  | begin | commit | placeholder => exact absurd h (by simp [convert])

/-- Events that cannot be converted have an unknown table or column or a value that cannot be
read. -/
theorem convert_all_error {events : List Event} {fault : FeedFault}
    (h : c.convertAll events = .error fault) : fault.OfMessage := by
  rw [convert_all_eq] at h
  obtain ⟨front, event, back, -, -, hevent⟩ := Except.map_m_eq_error_iff.mp h
  exact convert_error hevent

end Converter

end ChangeFeed
