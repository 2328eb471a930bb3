import ChangeFeed.Session.SlotName

/-!
# Jobs that share a slot

The name of a slot is made of the digest of one text, in which the name of the database and the job
are joined. `SlotName.of_job_eq_iff` says which jobs have one slot: besides a job and itself, and
besides texts that the digest does not tell apart, jobs where an underscore can be counted to the
database or to the job (`SlotName.Shifts`).
-/

namespace ChangeFeed.SlotName

variable {database jobId otherDatabase otherJob : String}

/-- The digits that stand for a text in the name of a slot. -/
def shortDigest (text : String) : List Char :=
  (Number.writeHex (Digest.Sha256.hash (Text.toUtf8 text.toList))).take 32

/-- Two texts that the digits do not tell apart. -/
structure Collide (text other : String) : Prop where
  ne : text ≠ other
  same_digits : shortDigest text = shortDigest other

/-- The name of the other database goes on behind an underscore, with a part that is in front of
the job here. -/
def Shifts (database jobId otherDatabase otherJob : String) : Prop :=
  ∃ part, otherDatabase = database ++ "_" ++ part ∧ jobId = part ++ "_" ++ otherJob

/-- A list is cut at a separator in two ways exactly if one cut is further along than the other. -/
theorem append_cons_eq_iff {α : Type} {separator : α} {front back front' back' : List α} :
    front ++ separator :: back = front' ++ separator :: back' ↔
      (front = front' ∧ back = back') ∨
      (∃ part, front' = front ++ separator :: part ∧ back = part ++ separator :: back') ∨
      ∃ part, front = front' ++ separator :: part ∧ back' = part ++ separator :: back := by
  constructor
  · intro h
    rcases List.append_eq_append_iff.mp h with ⟨more, rfl, hmore⟩ | ⟨more, rfl, hmore⟩
    · cases more with
      | nil => exact .inl ⟨by simp, (List.cons.inj hmore).2⟩
      | cons c part =>
          obtain ⟨rfl, hback⟩ := List.cons.inj hmore
          exact .inr (.inl ⟨part, rfl, hback⟩)
    · cases more with
      | nil => exact .inl ⟨by simp, (List.cons.inj hmore).2.symm⟩
      | cons c part =>
          obtain ⟨rfl, hback⟩ := List.cons.inj hmore
          exact .inr (.inr ⟨part, rfl, hback⟩)
  · rintro (⟨rfl, rfl⟩ | ⟨part, rfl, rfl⟩ | ⟨part, rfl, rfl⟩)
    · rfl
    · simp
    · simp

/-- A shift in characters. -/
theorem shifts_iff :
    Shifts database jobId otherDatabase otherJob ↔
      ∃ part, otherDatabase.toList = database.toList ++ '_' :: part ∧
        jobId.toList = part ++ '_' :: otherJob.toList := by
  constructor
  · rintro ⟨part, rfl, rfl⟩
    exact ⟨part.toList, by simp, by simp⟩
  · rintro ⟨part, hdatabase, hjob⟩
    refine ⟨String.ofList part, ?_, ?_⟩
    · exact String.toList_inj.mp (by simp [hdatabase])
    · exact String.toList_inj.mp (by simp [hjob])

/-- One text is hashed for two jobs exactly if they are the same or an underscore shifts. -/
theorem key_eq_iff :
    key database jobId = key otherDatabase otherJob ↔
      (database = otherDatabase ∧ jobId = otherJob) ∨
      Shifts database jobId otherDatabase otherJob ∨
      Shifts otherDatabase otherJob database jobId := by
  have htext (d j : String) : (key d j).toList = d.toList ++ '_' :: j.toList := by simp [key]
  rw [← String.toList_inj, htext, htext, append_cons_eq_iff, String.toList_inj, String.toList_inj,
    shifts_iff, shifts_iff]

/-- Two jobs have one slot exactly if they are the same, or an underscore shifts between database
and job, or the digits do not tell their texts apart. -/
theorem of_job_eq_iff :
    ofJob database jobId = ofJob otherDatabase otherJob ↔
      (database = otherDatabase ∧ jobId = otherJob) ∨
      Shifts database jobId otherDatabase otherJob ∨
      Shifts otherDatabase otherJob database jobId ∨
      Collide (key database jobId) (key otherDatabase otherJob) := by
  have hname : ofJob database jobId = ofJob otherDatabase otherJob ↔
      shortDigest (key database jobId) = shortDigest (key otherDatabase otherJob) := by
    rw [ofJob, ofJob, ← String.toList_inj]
    simp [digits, shortDigest]
  have hdigits : shortDigest (key database jobId) = shortDigest (key otherDatabase otherJob) ↔
      key database jobId = key otherDatabase otherJob ∨
        Collide (key database jobId) (key otherDatabase otherJob) := by
    constructor
    · intro hsame
      by_cases hkey : key database jobId = key otherDatabase otherJob
      · exact .inl hkey
      · exact .inr ⟨hkey, hsame⟩
    · rintro (hkey | hcollide)
      · rw [hkey]
      · exact hcollide.same_digits
  rw [hname, hdigits, key_eq_iff, or_assoc, or_assoc]

/-- Two jobs on two databases have one slot, and not because a digest collides: one text is hashed
for both. -/
theorem slot_shared_by_shift :
    ("shop_eu", "orders") ≠ ("shop", "eu_orders") ∧
      ¬ Collide (key "shop_eu" "orders") (key "shop" "eu_orders") ∧
      ofJob "shop_eu" "orders" = ofJob "shop" "eu_orders" := by
  have hkey : key "shop_eu" "orders" = key "shop" "eu_orders" := by decide
  refine ⟨by decide, fun hcollide => hcollide.ne hkey, ?_⟩
  rw [ofJob, ofJob, digits, digits, hkey]

end ChangeFeed.SlotName
