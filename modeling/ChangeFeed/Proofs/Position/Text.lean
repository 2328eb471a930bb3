import ChangeFeed.Position
import ChangeFeed.Proofs.Json.RoundTrip
import ChangeFeed.Proofs.Number.Positional
import ChangeFeed.Proofs.Text.Trim

/-!
# Positions read back

A text is read as a position exactly if it spells the halves of the position: `Position.read_iff`.
What is written for a position spells them, so that it is read back: `Position.read_write`. A
position is that of its document: `Position.of_json_to_json`.
-/

namespace ChangeFeed

namespace Position

open Number (SpellsNatural)

/-- The high half of a position. -/
def high (p : Position) : Nat :=
  p.lsn.toNat / 2 ^ 32

/-- The low half of a position. -/
def low (p : Position) : Nat :=
  p.lsn.toNat % 2 ^ 32

/-- The texts of a position with these halves: hexadecimal numbers with a slash between them, and
blanks around. -/
def Spells (cs : List Char) (high low : Nat) : Prop :=
  ∃ front first second back, Text.AreBlank front ∧ Text.AreBlank back ∧
    SpellsNatural 16 first high ∧ SpellsNatural 16 second low ∧
      cs = front ++ (first ++ '/' :: second ++ back)

/-! ## Halves -/

/-- A position is made of its halves, which have 32 bits each. -/
theorem eq_halves (p : Position) :
    p.lsn.toNat = p.high * 2 ^ 32 + p.low ∧ p.high < 2 ^ 32 ∧ p.low < 2 ^ 32 := by
  have hlt := p.lsn.toNat_lt
  unfold high low
  omega

/-- A position has the number that its halves make up. -/
theorem eq_of_halves_iff {p : Position} {high low : Nat} (hhigh : high < 2 ^ 32)
    (hlow : low < 2 ^ 32) : ofHalves high low = p ↔ p.lsn.toNat = high * 2 ^ 32 + low := by
  have hlt : high * 2 ^ 32 + low < 2 ^ 64 := by omega
  have hnumber : (ofHalves high low).lsn.toNat = high * 2 ^ 32 + low :=
    UInt64.toNat_ofNat_of_lt' hlt
  constructor
  · rintro rfl
    exact hnumber
  · intro h
    exact congrArg Position.mk (UInt64.toNat_inj.mp (hnumber.trans h.symm))

/-! ## Reading -/

/-- Hexadecimal digits are neither blanks nor slashes. -/
theorem hex_digit_char {c : Char} {digit : Nat} (h : Number.digitValue? 16 c = some digit) :
    Text.isBlank c = false ∧ c ≠ '/' := by
  have hdigits : ∀ digit < 16,
      (Text.isBlank (Number.digitChar digit) = false ∧ Number.digitChar digit ≠ '/') ∧
        Text.isBlank (Number.digitChar digit).toUpper = false ∧
          (Number.digitChar digit).toUpper ≠ '/' := by decide
  obtain ⟨hlt, rfl | rfl⟩ := Number.hex_digit_iff.mp h
  · exact (hdigits digit hlt).1
  · exact (hdigits digit hlt).2

/-- A hexadecimal number has neither blanks nor slashes in its text. -/
theorem no_blank_of_spells {cs : List Char} {n : Nat} (h : SpellsNatural 16 cs n) :
    ∀ c ∈ cs, Text.isBlank c = false ∧ c ≠ '/' := by
  obtain ⟨ds, -, hcs, hworth⟩ := h
  have hds : ∀ c ∈ ds, Text.isBlank c = false ∧ c ≠ '/' := by
    intro c hc
    obtain ⟨digit, hdigit⟩ := Number.digit_of_is_worth hworth hc
    exact hex_digit_char hdigit
  rcases hcs with rfl | rfl
  · exact hds
  · exact List.forall_mem_cons.mpr ⟨by decide, hds⟩

/-- Halves without blanks and slashes are those that their text is cut into. -/
theorem cut_halves {first second : List Char}
    (hfirst : ∀ c ∈ first, Text.isBlank c = false ∧ c ≠ '/')
    (hsecond : ∀ c ∈ second, Text.isBlank c = false ∧ c ≠ '/') :
    Text.cutAt '/' (Text.trim (first ++ '/' :: second)) = some (first, second) := by
  have hblank : ∀ c ∈ first ++ '/' :: second, Text.isBlank c = false := by
    rw [List.forall_mem_append, List.forall_mem_cons]
    exact ⟨fun c hc => (hfirst c hc).1, by decide, fun c hc => (hsecond c hc).1⟩
  rw [Text.trim_of_no_blank hblank, Text.cut_at_append fun c hc => (hfirst c hc).2]

/-- Half of a position is read exactly from the texts of a number of 32 bits. -/
theorem read_half_iff {cs : List Char} {n : Nat} :
    readHalf cs = some n ↔ SpellsNatural 16 cs n ∧ n < 2 ^ 32 := by
  have hread : Number.readNat 16 (Nat.pow 2 32 - 1) cs = .ok n ↔
      SpellsNatural 16 cs n ∧ n ≤ Nat.pow 2 32 - 1 := Number.read_nat_iff (Nat.succ_pos 15)
  have hpow : Nat.pow 2 32 = 2 ^ 32 := rfl
  have hbound : n ≤ Nat.pow 2 32 - 1 ↔ n < 2 ^ 32 := by omega
  rw [readHalf, ← hbound, ← hread]
  cases Number.readNat 16 (Nat.pow 2 32 - 1) cs <;> simp [Except.toOption]

/-- A position is read from its halves, in front of the first slash and behind it. -/
theorem read_eq_some_iff {text : String} {p : Position} :
    read text = some p ↔ ∃ first second high low,
      Text.cutAt '/' (Text.trim text.toList) = some (first, second) ∧
        (SpellsNatural 16 first high ∧ high < 2 ^ 32) ∧
          (SpellsNatural 16 second low ∧ low < 2 ^ 32) ∧ ofHalves high low = p := by
  simp only [read, Option.bind_eq_bind, Option.bind_eq_some_iff, read_half_iff, Prod.exists,
    Option.pure_def, Option.some.injEq]
  constructor
  · rintro ⟨first, second, hcut, high, hhigh, low, hlow, heq⟩
    exact ⟨first, second, high, low, hcut, hhigh, hlow, heq⟩
  · rintro ⟨first, second, high, low, hcut, hhigh, hlow, heq⟩
    exact ⟨first, second, hcut, high, hhigh, low, hlow, heq⟩

/-- A text is read as a position exactly if it spells its halves. -/
theorem read_iff {text : String} {p : Position} :
    read text = some p ↔ ∃ high low, Spells text.toList high low ∧ high < 2 ^ 32 ∧
      low < 2 ^ 32 ∧ p.lsn.toNat = high * 2 ^ 32 + low := by
  rw [read_eq_some_iff]
  constructor
  · rintro ⟨first, second, high, low, hcut, ⟨hfirst, hhigh⟩, ⟨hsecond, hlow⟩, heq⟩
    obtain ⟨htrim, -⟩ := Text.cut_at_eq_some_iff.mp hcut
    obtain ⟨front, back, hfront, hback, htext⟩ := Text.exists_padding text.toList
    rw [htrim] at htext
    exact ⟨high, low, ⟨front, first, second, back, hfront, hback, hfirst, hsecond, htext⟩, hhigh,
      hlow, (eq_of_halves_iff hhigh hlow).mp heq⟩
  · rintro ⟨high, low, ⟨front, first, second, back, hfront, hback, hfirst, hsecond, htext⟩, hhigh,
      hlow, hnumber⟩
    refine ⟨first, second, high, low, ?_, ⟨hfirst, hhigh⟩, ⟨hsecond, hlow⟩,
      (eq_of_halves_iff hhigh hlow).mpr hnumber⟩
    rw [htext, Text.trim_blank_append hfront, Text.trim_append_blank hback]
    exact cut_halves (no_blank_of_spells hfirst) (no_blank_of_spells hsecond)

/-! ## Writing -/

/-- Half of a position is spelled by what is written for it. -/
theorem spells_write_half (n : Nat) : SpellsNatural 16 (writeHalf n).toList n := by
  rw [writeHalf, String.toList_ofList]
  exact ⟨_, by simpa using Number.digits_ne_nil n, .inl rfl,
    Number.is_worth_digits (by decide) Number.keeps_digits_to_upper n⟩

/-- The halves are written with a slash between them. -/
theorem to_list_write (p : Position) :
    p.write.toList = (writeHalf p.high).toList ++ '/' :: (writeHalf p.low).toList := by
  simp [write, high, low]

/-- The text of a position names it. -/
@[simp]
theorem read_write (p : Position) : read p.write = some p := by
  obtain ⟨hnumber, hhigh, hlow⟩ := p.eq_halves
  refine read_iff.mpr ⟨p.high, p.low, ?_, hhigh, hlow, hnumber⟩
  exact ⟨[], _, _, [], Text.are_blank_nil, Text.are_blank_nil, spells_write_half p.high,
    spells_write_half p.low, by rw [to_list_write, List.append_nil, List.nil_append]⟩

/-- A position is that of its document. -/
@[simp]
theorem of_json_to_json (p : Position) : ofJson? p.toJson = some p := by
  simp [ofJson?, toJson, Json.members, Json.memberOf, Json.valuesOf, Json.toText?]

/-- A position is a plain document. -/
theorem is_plain_to_json (p : Position) : p.toJson.IsPlain := by
  simp [toJson, Json.IsPlain, Json.AreFieldsPlain]

end Position

end ChangeFeed
