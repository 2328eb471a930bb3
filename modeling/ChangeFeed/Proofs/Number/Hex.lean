import ChangeFeed.Number.Hex
import ChangeFeed.Proofs.Number.Positional
import ChangeFeed.Proofs.Text.Utf8

/-!
# Bytes in hexadecimal read back

A text is read as bytes exactly if it spells them, with two digits in either case for each byte:
`read_hex_iff`. Digits are looked for among the bytes of the text, and no other character has the
byte of a digit (`hex_value_of_lead`).
-/

namespace ChangeFeed.Number

/-- The texts of bytes: two hexadecimal digits for each of them. -/
inductive SpellsBytes : List Char → List UInt8 → Prop where
  | nil : SpellsBytes [] []
  | pair {a b : Char} {high low : Nat} {byte : UInt8} {cs : List Char} {bytes : List UInt8}
      (ha : digitValue? 16 a = some high) (hb : digitValue? 16 b = some low)
      (hbyte : byte.toNat = 16 * high + low) (h : SpellsBytes cs bytes) :
      SpellsBytes (a :: b :: cs) (byte :: bytes)

variable {c : Char} {digit : Nat} {cs : List Char} {bytes : List UInt8}

/-- A digit has a code below `0x80`. -/
theorem hex_digit_ascii (h : digitValue? 16 c = some digit) : c.toNat < 128 := by
  have hascii : ∀ digit < 16, (digitChar digit).toNat < 128 ∧
      (digitChar digit).toUpper.toNat < 128 := by decide
  obtain ⟨hdigit, rfl | rfl⟩ := hex_digit_iff.mp h
  · exact (hascii digit hdigit).1
  · exact (hascii digit hdigit).2

/-- A digit is a single byte, which is read as the digit. -/
theorem encode_hex_digit (h : digitValue? 16 c = some digit) :
    ∃ byte, String.utf8EncodeChar c = [byte] ∧ hexValue? byte = some digit := by
  have hlt := hex_digit_ascii h
  have hsize : c.utf8Size = 1 := by
    rw [Char.utf8Size_eq_one_iff, UInt32.le_iff_toNat_le]
    exact Nat.le_of_lt_succ hlt
  have hbyte : c.val.toUInt8.toNat = c.toNat := by
    rw [UInt32.toNat_toUInt8]
    exact Nat.mod_eq_of_lt (Nat.lt_trans hlt (by decide))
  refine ⟨_, String.utf8EncodeChar_eq_singleton hsize, ?_⟩
  rw [hexValue?, hbyte, Char.ofNat_toNat]
  exact h

/-- Only a digit starts with the byte of a digit. -/
theorem hex_value_of_lead {lead : UInt8} {more : List UInt8}
    (h : String.utf8EncodeChar c = lead :: more) (hvalue : hexValue? lead = some digit) :
    more = [] ∧ digitValue? 16 c = some digit := by
  have hlead : lead.toNat < 0x80 := by
    have hvalid : lead.toNat.isValidChar := .inl (Nat.lt_trans lead.toNat_lt (by decide))
    have hlt := hex_digit_ascii hvalue
    rw [Char.ofNat, dif_pos hvalid] at hlt
    exact hlt
  obtain ⟨lead', more', hencode, hread⟩ := Text.sequence_at_encode c []
  obtain ⟨rfl, rfl⟩ := List.cons.inj (h.symm.trans hencode)
  rw [Text.sequence_at_one hlead] at hread
  obtain ⟨hc, hlength⟩ : Char.ofNat lead.toNat = c ∧ more = [] := by simpa using hread
  exact ⟨hlength, hc ▸ hvalue⟩

/-- Two bytes are read as one if both are digits. -/
theorem read_pair_iff {index : Nat} {first second : UInt8} {rest : List UInt8} :
    readHexPairs index (first :: second :: rest) = .ok bytes ↔
      ∃ high low more, hexValue? first = some high ∧ hexValue? second = some low ∧
        readHexPairs (index + 2) rest = .ok more ∧
          bytes = UInt8.ofNat (16 * high + low) :: more := by
  rw [readHexPairs]
  cases hexValue? first with
  | none => simp
  | some high =>
      cases hexValue? second with
      | none => simp
      | some low =>
          simp only [Except.bind_eq_ok, Except.pure_eq_ok, Option.some.injEq]
          constructor
          · rintro ⟨more, hmore, rfl⟩
            exact ⟨high, low, more, rfl, rfl, hmore, rfl⟩
          · rintro ⟨_, _, more, rfl, rfl, hmore, rfl⟩
            exact ⟨more, hmore, rfl⟩

/-- A text is read as bytes, pair by pair, exactly if it spells them. -/
theorem read_hex_pairs_iff (index : Nat) : (cs : List Char) → (bytes : List UInt8) →
    (readHexPairs index (Text.toUtf8 cs) = .ok bytes ↔ SpellsBytes cs bytes)
  | [], bytes => by
    constructor
    · intro h
      obtain rfl := Except.ok.inj h
      exact .nil
    · rintro ⟨⟩
      rfl
  | [a], bytes => by
    refine iff_of_false (fun h => ?_) nofun
    obtain ⟨lead, more, hencode, -⟩ := Text.sequence_at_encode a []
    have htext : Text.toUtf8 [a] = lead :: more := by simp [Text.toUtf8, hencode]
    rw [htext] at h
    -- A single digit has no partner, and no other character starts with the byte of a digit.
    cases more with
    | nil => exact absurd h (by simp [readHexPairs])
    | cons next more =>
        obtain ⟨high, -, -, hhigh, -⟩ := read_pair_iff.mp h
        exact absurd (hex_value_of_lead hencode hhigh).1 (by simp)
  | a :: b :: cs, bytes => by
    constructor
    · intro h
      obtain ⟨first, more, ha, -⟩ := Text.sequence_at_encode a []
      obtain ⟨second, more', hb, -⟩ := Text.sequence_at_encode b []
      have htext : Text.toUtf8 (a :: b :: cs) =
          first :: (more ++ second :: (more' ++ Text.toUtf8 cs)) := by
        simp [Text.toUtf8, ha, hb]
      rw [htext] at h
      cases more with
      | cons next more =>
          obtain ⟨high, -, -, hhigh, -⟩ := read_pair_iff.mp h
          exact absurd (hex_value_of_lead ha hhigh).1 (by simp)
      | nil =>
          obtain ⟨high, low, rest, hhigh, hlow, hrest, rfl⟩ := read_pair_iff.mp h
          obtain ⟨-, hfirst⟩ := hex_value_of_lead ha hhigh
          obtain ⟨rfl, hsecond⟩ := hex_value_of_lead hb hlow
          have hbound := (hex_digit_iff.mp hfirst).1
          have hbound' := (hex_digit_iff.mp hsecond).1
          exact .pair hfirst hsecond (Text.byte_to_nat (by omega))
            ((read_hex_pairs_iff (index + 2) cs rest).mp hrest)
    · intro h
      cases h with | @pair _ _ high low byte _ bytes ha hb hbyte h =>
      obtain ⟨first, hfirst, hhigh⟩ := encode_hex_digit ha
      obtain ⟨second, hsecond, hlow⟩ := encode_hex_digit hb
      have htext : Text.toUtf8 (a :: b :: cs) = first :: second :: Text.toUtf8 cs := by
        simp [Text.toUtf8, hfirst, hsecond]
      rw [htext]
      exact read_pair_iff.mpr ⟨high, low, bytes, hhigh, hlow,
        (read_hex_pairs_iff (index + 2) cs bytes).mpr h, by rw [← hbyte, UInt8.ofNat_toNat]⟩

/-- What spells bytes is a text of as many bytes as it has digits, an even number. -/
theorem even_of_spells (h : SpellsBytes cs bytes) : (Text.toUtf8 cs).length % 2 = 0 := by
  induction h with
  | nil => rfl
  | pair ha hb _ _ ih =>
      obtain ⟨first, hfirst, -⟩ := encode_hex_digit ha
      obtain ⟨second, hsecond, -⟩ := encode_hex_digit hb
      simp only [Text.toUtf8, List.flatMap_cons, hfirst, hsecond, List.length_append,
        List.length_singleton] at ih ⊢
      omega

/-- A text is read as bytes exactly if it spells them. -/
theorem read_hex_iff : readHex (Text.toUtf8 cs) = .ok bytes ↔ SpellsBytes cs bytes := by
  rw [readHex]
  split
  · rename_i hodd
    refine iff_of_false (by simp) fun h => ?_
    have heven := even_of_spells h
    omega
  · exact read_hex_pairs_iff 0 cs bytes

/-- Bytes are spelled by what is written for them. -/
theorem spells_write_hex (bytes : List UInt8) : SpellsBytes (writeHex bytes) bytes := by
  have hvalue (digit : Nat) (h : digit < 16) : digitValue? 16 (digitChar digit) = some digit :=
    hex_digit_iff.mpr ⟨h, .inl rfl⟩
  induction bytes with
  | nil => exact .nil
  | cons byte bytes ih =>
      have hlt := byte.toNat_lt
      exact .pair (hvalue _ (by omega)) (hvalue _ (by omega)) (by omega) ih

end ChangeFeed.Number
