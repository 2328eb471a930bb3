import ChangeFeed.Proofs.Except
import ChangeFeed.Text.Utf8
import Mathlib.Data.List.Basic

/-!
# Text written and read as bytes

The bytes that encode a text are read as that text (`of_utf8_to_utf8`). A character is read back
whatever follows it (`sequence_at_encode`); there is one lemma for each number of bytes.
-/

namespace ChangeFeed.Text

variable {lead b c d : UInt8} {rest : List UInt8}

theorem is_continuation_iff : isContinuation b = true ↔ 0x80 ≤ b.toNat ∧ b.toNat ≤ 0xBF := by
  simp [isContinuation, UInt8.le_iff_toNat_le]

/-- A continuation may follow a leading byte directly unless it makes the character too small, a
surrogate or too large. -/
theorem is_second_of_continuation (lead : UInt8) (h : isContinuation b = true)
    (hthree : lead.toNat = 0xE0 → 0xA0 ≤ b.toNat)
    (hsurrogate : lead.toNat = 0xED → b.toNat ≤ 0x9F)
    (hfour : lead.toNat = 0xF0 → 0x90 ≤ b.toNat) (hlast : lead.toNat = 0xF4 → b.toNat ≤ 0x8F) :
    isSecond lead b = true := by
  obtain ⟨hlow, hhigh⟩ := is_continuation_iff.mp h
  unfold isSecond
  simp only [beq_iff_eq, ← UInt8.toNat_inj, UInt8.le_iff_toNat_le]
  split
  · rename_i heq
    simpa using ⟨hthree heq, hhigh⟩
  split
  · rename_i heq
    simpa using ⟨hlow, hsurrogate heq⟩
  split
  · rename_i heq
    simpa using ⟨hfour heq, hhigh⟩
  split
  · rename_i heq
    simpa using ⟨hlow, hlast heq⟩
  · exact h

theorem sequence_at_one (h : lead.toNat < 0x80) :
    sequenceAt lead rest = .character (Char.ofNat lead.toNat) 1 := by
  have hlead : lead < 0x80 := UInt8.lt_iff_toNat_lt.mpr h
  unfold sequenceAt
  rw [if_pos hlead]

theorem sequence_at_two (hlow : 0xC2 ≤ lead.toNat) (hhigh : lead.toNat ≤ 0xDF)
    (hb : isSecond lead b = true) :
    sequenceAt lead (b :: rest) =
      .character (Char.ofNat (lead.toNat % 32 * 64 + payload b)) 2 := by
  have hone : ¬ lead < 0x80 := by simpa [UInt8.lt_iff_toNat_lt] using Nat.le_trans (by decide) hlow
  have htwo : (0xC2 ≤ lead && lead ≤ 0xDF) = true := by
    simpa [UInt8.le_iff_toNat_le] using ⟨hlow, hhigh⟩
  unfold sequenceAt
  rw [if_neg hone, if_pos htwo]
  simp [hb]

theorem sequence_at_three (hlow : 0xE0 ≤ lead.toNat) (hhigh : lead.toNat ≤ 0xEF)
    (hb : isSecond lead b = true) (hc : isContinuation c = true) :
    sequenceAt lead (b :: c :: rest) =
      .character (Char.ofNat ((lead.toNat % 16 * 64 + payload b) * 64 + payload c)) 3 := by
  have hone : ¬ lead < 0x80 := by simpa [UInt8.lt_iff_toNat_lt] using Nat.le_trans (by decide) hlow
  have htwo : ¬ (0xC2 ≤ lead && lead ≤ 0xDF) = true := by
    simp [UInt8.le_iff_toNat_le]
    omega
  have hthree : (0xE0 ≤ lead && lead ≤ 0xEF) = true := by
    simpa [UInt8.le_iff_toNat_le] using ⟨hlow, hhigh⟩
  unfold sequenceAt
  rw [if_neg hone, if_neg htwo, if_pos hthree]
  simp [hb, hc]

theorem sequence_at_four (hlow : 0xF0 ≤ lead.toNat) (hhigh : lead.toNat ≤ 0xF4)
    (hb : isSecond lead b = true) (hc : isContinuation c = true) (hd : isContinuation d = true) :
    sequenceAt lead (b :: c :: d :: rest) =
      .character (Char.ofNat
        (((lead.toNat % 8 * 64 + payload b) * 64 + payload c) * 64 + payload d)) 4 := by
  have hone : ¬ lead < 0x80 := by simpa [UInt8.lt_iff_toNat_lt] using Nat.le_trans (by decide) hlow
  have htwo : ¬ (0xC2 ≤ lead && lead ≤ 0xDF) = true := by
    simp [UInt8.le_iff_toNat_le]
    omega
  have hthree : ¬ (0xE0 ≤ lead && lead ≤ 0xEF) = true := by
    simp [UInt8.le_iff_toNat_le]
    omega
  have hfour : (0xF0 ≤ lead && lead ≤ 0xF4) = true := by
    simpa [UInt8.le_iff_toNat_le] using ⟨hlow, hhigh⟩
  unfold sequenceAt
  rw [if_neg hone, if_neg htwo, if_neg hthree, if_pos hfour]
  simp [hb, hc, hd]

theorem byte_to_nat {n : Nat} (h : n < 256) : (UInt8.ofNat n).toNat = n := by
  rw [UInt8.toNat_ofNat']
  omega

/-- Six bits behind the mark of a continuation. -/
theorem continuation_facts {n : Nat} (h : n < 64) :
    isContinuation (UInt8.ofNat (n + 128)) = true ∧
      (UInt8.ofNat (n + 128)).toNat = n + 128 ∧ payload (UInt8.ofNat (n + 128)) = n := by
  have hnat : (UInt8.ofNat (n + 128)).toNat = n + 128 := byte_to_nat (by omega)
  refine ⟨is_continuation_iff.mpr ⟨by omega, by omega⟩, hnat, ?_⟩
  rw [payload, hnat]
  omega

/-- A character is read back from its bytes, whatever follows them. -/
theorem sequence_at_encode (ch : Char) (rest : List UInt8) :
    ∃ lead more, String.utf8EncodeChar ch = lead :: more ∧
      sequenceAt lead (more ++ rest) = .character ch (more.length + 1) := by
  have hvalid : ch.toNat < 0xD800 ∨ (0xDFFF < ch.toNat ∧ ch.toNat < 0x110000) := ch.valid
  have hread {n : Nat} (h : n = ch.toNat) : Char.ofNat n = ch := by rw [h, Char.ofNat_toNat]
  rw [String.utf8EncodeChar]
  change ∃ lead more, (if ch.toNat ≤ 127 then _ else _) = _ ∧ _
  generalize hv : ch.val.toNat = v
  have hchar : ch.toNat = v := hv
  rw [hchar] at hvalid hread
  split
  · have hlead := byte_to_nat (show v < 256 by omega)
    refine ⟨_, _, rfl, ?_⟩
    rw [sequence_at_one (by omega), hread hlead]
    rfl
  split
  · have hlead := byte_to_nat (show v / 64 % 32 + 192 < 256 by omega)
    obtain ⟨hb, -, hbits⟩ := continuation_facts (show v % 64 < 64 by omega)
    refine ⟨_, _, rfl, ?_⟩
    have hsecond := is_second_of_continuation (UInt8.ofNat (v / 64 % 32 + 192)) hb
      (by omega) (by omega) (by omega) (by omega)
    rw [List.cons_append, sequence_at_two (by omega) (by omega) hsecond, hlead, hbits,
      hread (by omega)]
    rfl
  split
  · have hlead := byte_to_nat (show v / 4096 % 16 + 224 < 256 by omega)
    obtain ⟨hb, hbnat, hbbits⟩ := continuation_facts (show v / 64 % 64 < 64 by omega)
    obtain ⟨hc, -, hcbits⟩ := continuation_facts (show v % 64 < 64 by omega)
    refine ⟨_, _, rfl, ?_⟩
    have hsecond := is_second_of_continuation (UInt8.ofNat (v / 4096 % 16 + 224)) hb
      (by omega) (by omega) (by omega) (by omega)
    rw [List.cons_append, List.cons_append, sequence_at_three (by omega) (by omega) hsecond hc,
      hlead, hbbits, hcbits, hread (by omega)]
    rfl
  · have hlead := byte_to_nat (show v / 262144 % 8 + 240 < 256 by omega)
    obtain ⟨hb, hbnat, hbbits⟩ := continuation_facts (show v / 4096 % 64 < 64 by omega)
    obtain ⟨hc, -, hcbits⟩ := continuation_facts (show v / 64 % 64 < 64 by omega)
    obtain ⟨hd, -, hdbits⟩ := continuation_facts (show v % 64 < 64 by omega)
    refine ⟨_, _, rfl, ?_⟩
    have hsecond := is_second_of_continuation (UInt8.ofNat (v / 262144 % 8 + 240)) hb
      (by omega) (by omega) (by omega) (by omega)
    rw [List.cons_append, List.cons_append, List.cons_append,
      sequence_at_four (by omega) (by omega) hsecond hc hd, hlead, hbbits, hcbits, hdbits,
      hread (by omega)]
    rfl

theorem characters_from_to_utf8 (cs : List Char) (fuel index : Nat)
    (h : (toUtf8 cs).length ≤ fuel) : charactersFrom fuel index (toUtf8 cs) = .ok cs := by
  induction cs generalizing fuel index with
  | nil => cases fuel <;> rfl
  | cons ch cs ih =>
      obtain ⟨lead, more, hbytes, hread⟩ := sequence_at_encode ch (toUtf8 cs)
      have hcons : toUtf8 (ch :: cs) = lead :: (more ++ toUtf8 cs) := by
        rw [toUtf8, List.flatMap_cons, hbytes]
        rfl
      rw [hcons] at h ⊢
      cases fuel with
      | zero => simp at h
      | succ fuel =>
          have hfuel : (toUtf8 cs).length ≤ fuel := by
            simp only [List.length_cons, List.length_append] at h
            omega
          rw [charactersFrom, hread]
          simp only [Nat.add_sub_cancel, List.drop_left, ih fuel _ hfuel]
          rfl

/-- A byte below `0x80` stands for its own character only. -/
theorem to_nat_of_mem_encode {ch : Char} (h : b ∈ String.utf8EncodeChar ch)
    (hb : b.toNat < 0x80) : ch.toNat = b.toNat := by
  rw [String.utf8EncodeChar] at h
  change b ∈ (if ch.toNat ≤ 127 then _ else _) at h
  generalize hv : ch.val.toNat = v at h
  have hchar : ch.toNat = v := hv
  have hvalid : ch.toNat < 0xD800 ∨ (0xDFFF < ch.toNat ∧ ch.toNat < 0x110000) := ch.valid
  rw [hchar] at h hvalid ⊢
  -- The bytes of longer sequences are marks with bits behind them.
  have hmark {n : Nat} (hlow : 0x80 ≤ n) (hhigh : n < 256) : b ≠ UInt8.ofNat n := by
    rintro rfl
    rw [byte_to_nat hhigh] at hb
    omega
  split at h
  · rw [List.mem_singleton.mp h]
    exact (byte_to_nat (by omega)).symm
  split at h
  · simp only [List.mem_cons, List.not_mem_nil, or_false] at h
    rcases h with h | h <;> exact absurd h (hmark (by omega) (by omega))
  split at h
  · simp only [List.mem_cons, List.not_mem_nil, or_false] at h
    rcases h with h | h | h <;> exact absurd h (hmark (by omega) (by omega))
  · simp only [List.mem_cons, List.not_mem_nil, or_false] at h
    rcases h with h | h | h | h <;> exact absurd h (hmark (by omega) (by omega))

/-- The bytes that encode a text are read as that text. -/
theorem of_utf8_to_utf8 (cs : List Char) : ofUtf8 (toUtf8 cs) = .ok cs :=
  characters_from_to_utf8 cs _ 0 (Nat.le_refl _)

end ChangeFeed.Text
