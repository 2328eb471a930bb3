import ChangeFeed.Proofs.Number.Positional
import ChangeFeed.Uuid
import Mathlib.Algebra.GroupWithZero.Nat

/-!
# Identifiers read back

Of all texts just those that spell an identifier in one of the four forms are read as it:
`Uuid.read_iff`. What is written for it is in the grouped form, so that it is read back:
`Uuid.read_write`.
-/

namespace ChangeFeed.Uuid

/-- Digits that were put into groups are taken out of them again. -/
theorem ungroup_regroup {sizes : List Nat} (hne : sizes ≠ []) {cs : List Char}
    (hlength : cs.length = sizes.sum) : ungroup sizes (regroup sizes cs) = some cs := by
  induction sizes generalizing cs with
  | nil => exact absurd rfl hne
  | cons size rest ih =>
      cases rest with
      | nil =>
          have hsize : cs.length = size := by simpa using hlength
          simp [ungroup, regroup, hsize]
      | cons next rest =>
          have hsize : (cs.take size).length = size := by
            rw [List.length_take, hlength, List.sum_cons]
            omega
          have hdropped : (cs.drop size).length = (next :: rest).sum := by
            rw [List.length_drop, hlength, List.sum_cons]
            omega
          have hmore := ih (by simp) hdropped
          have hgroups : regroup (size :: next :: rest) cs =
              cs.take size ++ '-' :: regroup (next :: rest) (cs.drop size) := rfl
          rw [hgroups, ungroup, List.drop_left' hsize, List.take_left' hsize]
          · simp [hmore]
          · exact nofun

/-- There are 32 digits. -/
theorem length_to_digits (u : Uuid) : u.toDigits.length = 32 :=
  Number.length_zero_filled (by omega) (Nat.lt_of_lt_of_eq u.value.isLt (by decide))

/-- The digits of an identifier are worth that identifier. -/
theorem of_digits_to_digits (u : Uuid) : ofDigits u.toDigits = some u := by
  have hbound : u.value.toNat ≤ Nat.pow 2 128 - 1 := Nat.le_pred_of_lt u.value.isLt
  have hread : Number.readDigits 16 (Nat.pow 2 128 - 1) .tooLarge 0
      ((Number.digitsBefore 16 u.value.toNat []).map id) = _ :=
    Number.read_digits_before (by omega) Number.keeps_digits_id u.value.toNat hbound []
  rw [List.map_id] at hread
  rw [ofDigits, if_pos u.length_to_digits, toDigits, Number.read_digits_zero_filled (by omega),
    Number.digits, hread]
  simp [Number.readDigits]

/-! ## Texts of identifiers -/

/-- Thirty-two hexadecimal digits, in either case, that are worth an identifier. -/
def SpellsDigits (ds : List Char) (u : Uuid) : Prop :=
  ds.length = 32 ∧ Number.IsWorth 16 ds u.value.toNat

/-- The texts of an identifier: plain digits, or groups of digits with hyphens between them, which
may stand in braces or behind a name. -/
inductive Spells : List Char → Uuid → Prop where
  | plain {ds : List Char} {u : Uuid} (h : SpellsDigits ds u) : Spells ds u
  | grouped {ds : List Char} {u : Uuid} (h : SpellsDigits ds u) : Spells (regroup groups ds) u
  | braced {ds : List Char} {u : Uuid} (h : SpellsDigits ds u) :
      Spells ('\x7b' :: (regroup groups ds ++ ['\x7d'])) u
  | named {ds : List Char} {u : Uuid} (h : SpellsDigits ds u) :
      Spells ("urn:uuid:".toList ++ regroup groups ds) u

variable {ds cs : List Char} {u : Uuid}

/-- Thirty-two digits are read as the identifier that they are worth. -/
theorem of_digits_iff : ofDigits ds = some u ↔ SpellsDigits ds u := by
  have hpos : 0 < 16 := by decide
  have hbound : u.value.toNat ≤ Nat.pow 2 128 - 1 := Nat.le_pred_of_lt u.value.isLt
  rw [ofDigits, SpellsDigits]
  split
  · rename_i hlength
    constructor
    · intro h
      split at h
      · rename_i n hread
        obtain rfl := Option.some.inj h
        obtain ⟨hworth, hn⟩ := (Number.read_digits_zero_iff hpos).mp hread
        have hlt : n < 2 ^ 128 := Nat.lt_of_le_pred (by decide) hn
        refine ⟨hlength, ?_⟩
        rwa [BitVec.toNat_ofNat, Nat.mod_eq_of_lt hlt]
      · exact absurd h (by simp)
    · rintro ⟨-, hworth⟩
      rw [(Number.read_digits_zero_iff hpos).mpr ⟨hworth, hbound⟩]
      simp
  · rename_i hlength
    exact iff_of_false (by simp) fun h => hlength h.1

/-- Groups of the right lengths are taken apart into their digits, and nothing else is. -/
theorem ungroup_iff {sizes : List Nat} (hne : sizes ≠ []) :
    ungroup sizes cs = some ds ↔ ds.length = sizes.sum ∧ cs = regroup sizes ds := by
  constructor
  · intro h
    induction sizes generalizing cs ds with
    | nil => exact absurd rfl hne
    | cons size rest ih =>
        cases rest with
        | nil =>
            obtain ⟨hlength, rfl⟩ : cs.length = size ∧ cs = ds := by simpa [ungroup] using h
            exact ⟨by simpa using hlength, rfl⟩
        | cons next rest =>
            rw [ungroup] at h
            · split at h
              · rename_i after hdrop
                obtain ⟨ds, hrest, rfl⟩ := Option.map_eq_some_iff.mp h
                obtain ⟨hlength, hafter⟩ := ih (by simp) hrest
                have hlong : size < cs.length := by
                  have hcount := congrArg List.length hdrop
                  rw [List.length_drop, List.length_cons] at hcount
                  omega
                have htake : (cs.take size).length = size :=
                  List.length_take_of_le hlong.le
                refine ⟨by rw [List.length_append, htake, hlength]; rfl, ?_⟩
                rw [regroup, List.take_left' htake, List.drop_left' htake, ← hafter, ← hdrop,
                  List.take_append_drop]
                simp
              · exact absurd h (by simp)
            · simp
  · rintro ⟨hlength, rfl⟩
    exact ungroup_regroup hne hlength

/-- Digits in groups: there are 36 characters, and the first one is a digit. -/
theorem regroup_facts (h : SpellsDigits ds u) :
    (regroup groups ds).length = 36 ∧
      ∃ c more, regroup groups ds = c :: more ∧ c ≠ '\x7b' ∧ c ≠ 'u' := by
  obtain ⟨hlength, hworth⟩ := h
  refine ⟨?_, ?_⟩
  · simp only [groups, regroup, List.length_append, List.length_cons, List.length_take,
      List.length_drop]
    omega
  · cases ds with
    | nil => exact absurd hlength (by simp)
    | cons c ds =>
        obtain ⟨digit, _, hdigit, -⟩ := Number.is_worth_cons.mp hworth
        have hother : Number.digitValue? 16 '\x7b' = none ∧ Number.digitValue? 16 'u' = none := by
          decide
        refine ⟨c, _, rfl, ?_, ?_⟩
        · rintro rfl
          exact absurd (hother.1.symm.trans hdigit) (by simp)
        · rintro rfl
          exact absurd (hother.2.symm.trans hdigit) (by simp)

/-- A text is read as an identifier exactly if it spells it in one of the four forms. -/
theorem read_iff : read cs = some u ↔ Spells cs u := by
  have hne : groups ≠ [] := by simp [groups]
  have hsum : groups.sum = 32 := rfl
  simp only [read, Option.bind_eq_some_iff, of_digits_iff]
  constructor
  · rintro ⟨ds, hspelled, hds⟩
    have hgrouped {cs : List Char} (h : ungroup groups cs = some ds) : cs = regroup groups ds :=
      ((ungroup_iff hne).mp h).2
    unfold spelledDigits at hspelled
    split at hspelled
    · obtain rfl := Option.some.inj hspelled
      exact .plain hds
    · split at hspelled
      · rename_i rest
        split at hspelled
        · rename_i hlast
          have hrest := List.dropLast_append_getLast? _ hlast
          rw [← hrest, hgrouped hspelled]
          exact .braced hds
        · exact absurd hspelled (by simp)
      · rw [hgrouped hspelled]
        exact .named hds
      · rw [hgrouped hspelled]
        exact .grouped hds
  · intro h
    have hungroup {ds : List Char} (h : SpellsDigits ds u) :
        ungroup groups (regroup groups ds) = some ds :=
      (ungroup_iff hne).mpr ⟨h.1.trans hsum.symm, rfl⟩
    cases h with
    | plain h => exact ⟨cs, if_pos h.1, h⟩
    | @grouped ds _ h =>
        -- There are too many characters for plain digits, and the first is that of no other form.
        obtain ⟨hlength, c, more, hcons, hbrace, hletter⟩ := regroup_facts h
        refine ⟨ds, ?_, h⟩
        have hread := hungroup h
        unfold spelledDigits
        rw [if_neg (by omega)]
        rw [hcons] at hread ⊢
        split
        · rename_i heq
          exact absurd (List.cons.inj heq).1 hbrace
        · rename_i heq
          exact absurd (List.cons.inj heq).1 hletter
        · exact hread
    | @braced ds _ h =>
        have hlength := (regroup_facts h).1
        refine ⟨ds, ?_, h⟩
        unfold spelledDigits
        rw [if_neg (by simp [hlength])]
        simp [hungroup h]
    | @named ds _ h =>
        have hlength := (regroup_facts h).1
        refine ⟨ds, ?_, h⟩
        unfold spelledDigits
        rw [if_neg (by simp [hlength])]
        exact hungroup h

/-- What is written for an identifier spells it. -/
theorem spells_write (u : Uuid) : Spells u.write.toList u := by
  rw [write, String.toList_ofList]
  exact .grouped (of_digits_iff.mp u.of_digits_to_digits)

/-- An identifier is read back from what is written for it. -/
theorem read_write (u : Uuid) : read u.write.toList = some u :=
  read_iff.mpr u.spells_write

end ChangeFeed.Uuid
