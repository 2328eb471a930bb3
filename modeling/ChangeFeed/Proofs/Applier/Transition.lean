import ChangeFeed.Applier

/-!
# What an applier can do

The transitions of an applier as rules (`Applier.Moves`): it takes a record in hand, writes it,
flushes, and ends behind the flush at the end of the channel or where the output fails.
-/

namespace ChangeFeed.Applier

/-- The rules for the transitions of an applier. -/
inductive Moves (a : Applier) : ApplierEvent → Applier → Prop
  | receives {record : Record} (hcontrol : a.control = .receiving) :
      Moves a (.received record) { a with control := .writing record }
  /-- The applier meets the end of the channel. -/
  | ends (hcontrol : a.control = .receiving) : Moves a .ended { a with control := .flushing true }
  | writes {record : Record} {isDrained : Bool} {next : Control}
      (hcontrol : a.control = .writing record) (hnext : next = .receiving ∨ next = .flushing false) :
      Moves a (.wrote (.ok ()) isDrained) { a.count record with control := next }
  | flushes (hcontrol : a.control = .flushing false) :
      Moves a (.flushed (.ok ())) { a.acknowledge with control := .receiving }
  /-- The applier flushes at its end. -/
  | flushesLast (hcontrol : a.control = .flushing true) :
      Moves a (.flushed (.ok ())) { a.acknowledge with
        control := .finished (.ok a.acknowledge.written) }
  /-- The output fails. -/
  | fails {event : ApplierEvent} {context : String} {fault : FileFault}
      (hevent : (∃ isDrained, event = .wrote (.error fault) isDrained) ∨
        event = .flushed (.error fault)) (hgoes : a.isFinished = false) :
      Moves a event (a.fail context fault)

variable {flushEvery : Nat} {a after : Applier} {event : ApplierEvent}

/-- An applier has ended when it stands at its end. -/
theorem is_finished_iff : a.isFinished = true ↔ ∃ result, a.control = .finished result := by
  unfold isFinished
  split
  · rename_i result hcontrol
    exact ⟨fun _ => ⟨result, hcontrol⟩, fun _ => rfl⟩
  · rename_i hcontrol
    exact ⟨fun h => absurd h (by simp), fun ⟨result, h⟩ => absurd h (hcontrol result)⟩

/-- An applier that stands elsewhere has not ended. -/
theorem not_finished_of_control (h : ∀ result, a.control ≠ .finished result) :
    a.isFinished = false :=
  Bool.eq_false_iff.mpr fun hover => (is_finished_iff.mp hover).elim h

/-- Every transition of an applier follows the rules. -/
theorem moves_of_step (h : a.step flushEvery event = some after) : Moves a event after := by
  unfold step at h
  split at h
  · rename_i hcontrol
    obtain rfl := Option.some.inj h
    exact .receives hcontrol
  · rename_i hcontrol
    obtain rfl := Option.some.inj h
    exact .ends hcontrol
  · rename_i hcontrol
    dsimp only at h
    split at h <;> obtain rfl := Option.some.inj h
    · exact .writes hcontrol (.inr rfl)
    · exact .writes hcontrol (.inl rfl)
  · rename_i hcontrol
    obtain rfl := Option.some.inj h
    exact .fails (.inl ⟨_, rfl⟩) (not_finished_of_control (by simp [hcontrol]))
  · rename_i isLast hcontrol
    obtain rfl := Option.some.inj h
    cases isLast with
    | false => exact .flushes hcontrol
    | true => exact .flushesLast hcontrol
  · rename_i hcontrol
    obtain rfl := Option.some.inj h
    exact .fails (.inr rfl) (not_finished_of_control (by simp [hcontrol]))
  · exact absurd h (by simp)

/-- An applier that has ended does nothing any more. -/
theorem Moves.not_finished (h : Moves a event after) : a.isFinished = false := by
  cases h with
  | receives hcontrol => exact not_finished_of_control (by simp [hcontrol])
  | ends hcontrol => exact not_finished_of_control (by simp [hcontrol])
  | writes hcontrol _ => exact not_finished_of_control (by simp [hcontrol])
  | flushes hcontrol => exact not_finished_of_control (by simp [hcontrol])
  | flushesLast hcontrol => exact not_finished_of_control (by simp [hcontrol])
  | fails _ hgoes => exact hgoes

end ChangeFeed.Applier
