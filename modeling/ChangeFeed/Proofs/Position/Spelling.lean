import ChangeFeed.Proofs.Position.Text
import Mathlib.Data.Prod.Lex

/-!
# Texts of positions

Of the texts of a position exactly one is canonical, the one that is written (`eq_write_iff`), and
the halves of a position order it (`le_iff_halves`). Read `text_faithful` first, which puts these
together with the texts that are read.
-/

namespace ChangeFeed

namespace Position

open Number (SpellsNatural)

/-- Half of a position in canonical form: capital digits that start with no zero, or zero itself. -/
structure IsCanonicalHalf (cs : List Char) : Prop where
  capitals : ∀ c ∈ cs, c ∈ "0123456789ABCDEF".toList
  zero : cs.head? = some '0' → cs = ['0']

/-- The canonical form of the text of a position. -/
def IsCanonical (text : String) : Prop :=
  ∃ first second, text.toList = first ++ '/' :: second ∧
    IsCanonicalHalf first ∧ IsCanonicalHalf second

/-- The halves order positions, the high one first. -/
theorem le_iff_halves (p q : Position) :
    p ≤ q ↔ toLex (p.high, p.low) ≤ toLex (q.high, q.low) := by
  have hle : p ≤ q ↔ p.lsn.toNat ≤ q.lsn.toNat := UInt64.le_iff_toNat_le
  rw [hle, Prod.Lex.toLex_le_toLex]
  unfold high low
  omega

/-! ## The canonical form -/

/-- The capital digits are those of the numbers below sixteen. -/
theorem mem_capitals_iff {c : Char} :
    c ∈ "0123456789ABCDEF".toList ↔ ∃ digit < 16, c = (Number.digitChar digit).toUpper := by
  have hcapitals : "0123456789ABCDEF".toList =
      (List.range 16).map fun digit => (Number.digitChar digit).toUpper := by decide
  rw [hcapitals, List.mem_map]
  simp only [List.mem_range, eq_comm]

/-- The capital digits are neither blanks nor slashes. -/
theorem IsCanonicalHalf.no_blank {cs : List Char} (h : IsCanonicalHalf cs) :
    ∀ c ∈ cs, Text.isBlank c = false ∧ c ≠ '/' := by
  intro c hc
  obtain ⟨digit, hlt, rfl⟩ := mem_capitals_iff.mp (h.capitals c hc)
  exact hex_digit_char (Number.hex_digit_iff.mpr ⟨hlt, .inr rfl⟩)

/-- Capital digits are those of their values. -/
theorem capitals_eq {cs : List Char} {values : List Nat}
    (hcapitals : ∀ c ∈ cs, c ∈ "0123456789ABCDEF".toList)
    (hvalues : cs.map (Number.digitValue? 16) = values.map some) :
    cs = values.map (fun digit => (Number.digitChar digit).toUpper) ∧
      ∀ digit ∈ values, digit < 16 := by
  induction cs generalizing values with
  | nil =>
      obtain rfl : values = [] := by simpa using hvalues.symm
      simp
  | cons c cs ih =>
      cases values with
      | nil => exact absurd hvalues (by simp)
      | cons value values =>
          obtain ⟨hfirst, hrest⟩ := List.cons.inj hvalues
          obtain ⟨hc, hcs⟩ := List.forall_mem_cons.mp hcapitals
          obtain ⟨digit, hlt, rfl⟩ := mem_capitals_iff.mp hc
          have hvalue := Number.hex_digit_iff.mpr ⟨hlt, .inr rfl⟩
          obtain rfl : digit = value := Option.some.inj (hvalue.symm.trans hfirst)
          obtain ⟨heq, hall⟩ := ih hcs hrest
          exact ⟨by rw [List.map_cons, ← heq], List.forall_mem_cons.mpr ⟨hlt, hall⟩⟩

/-- But for zero, half of a position is written in the digits of its number. -/
theorem write_half_eq {n : Nat} (hpos : 0 < n) :
    (writeHalf n).toList =
      (Nat.digits 16 n).reverse.map fun digit => (Number.digitChar digit).toUpper := by
  rw [writeHalf, String.toList_ofList, Number.digits_eq_map (by decide) hpos, List.map_map]
  rfl

/-- Zero is written as a single digit. -/
theorem write_half_zero : (writeHalf 0).toList = ['0'] := by
  rw [writeHalf, Number.digits, Number.digitsBefore]
  rfl

/-- What is written for half of a position is canonical. -/
theorem canonical_write_half (n : Nat) : IsCanonicalHalf (writeHalf n).toList := by
  rcases Nat.eq_zero_or_pos n with rfl | hpos
  · rw [write_half_zero]
    exact ⟨List.forall_mem_singleton.mpr (mem_capitals_iff.mpr ⟨0, by decide⟩), fun _ => rfl⟩
  · have hzero : ∀ digit < 16, (Number.digitChar digit).toUpper = '0' → digit = 0 := by decide
    have hlt {digit : Nat} (h : digit ∈ Nat.digits 16 n) : digit < 16 :=
      Nat.digits_lt_base (by decide) h
    rw [write_half_eq hpos]
    refine ⟨fun c hc => ?_, fun hhead => ?_⟩
    · obtain ⟨digit, hdigit, rfl⟩ := List.mem_map.mp hc
      exact mem_capitals_iff.mpr ⟨digit, hlt (List.mem_reverse.mp hdigit), rfl⟩
    · -- The first digit is the last one of Mathlib, which is not zero.
      have hne : Nat.digits 16 n ≠ [] := Nat.digits_ne_nil_iff_ne_zero.mpr hpos.ne'
      rw [List.head?_map, List.head?_reverse, List.getLast?_eq_some_getLast hne] at hhead
      have hlast := hzero _ (hlt (List.getLast_mem hne)) (Option.some.inj hhead)
      exact absurd hlast (Nat.getLast_digit_ne_zero 16 hpos.ne')

/-- Half of a position has one text in canonical form. -/
theorem canonical_half_unique {cs : List Char} {n : Nat} (hcanonical : IsCanonicalHalf cs)
    (hspells : SpellsNatural 16 cs n) : cs = (writeHalf n).toList := by
  obtain ⟨ds, hne, hsign, values, hvalues, rfl⟩ := hspells
  have hplus : cs ≠ '+' :: ds := by
    rintro rfl
    exact absurd (hcanonical.capitals '+' List.mem_cons_self) (by decide)
  obtain rfl := hsign.resolve_right hplus
  obtain ⟨hcs, hlt⟩ := capitals_eq hcanonical.capitals hvalues
  cases values with
  | nil => exact absurd hcs hne
  | cons first rest =>
      rcases Nat.eq_zero_or_pos first with rfl | hpos
      · have hzero := hcanonical.zero (by rw [hcs]; rfl)
        rw [hzero] at hvalues ⊢
        obtain rfl : rest = [] := by simpa using (congrArg List.length hvalues).symm
        exact write_half_zero.symm
      · have hdigits : Nat.digits 16 (Nat.ofDigits 16 (first :: rest).reverse) =
            (first :: rest).reverse := by
          refine Nat.digits_ofDigits 16 (by decide) _ (fun d hd => hlt d (List.mem_reverse.mp hd))
            fun hne => ?_
          rw [List.getLast_reverse]
          exact hpos.ne'
        have hnumber : 0 < Nat.ofDigits 16 (first :: rest).reverse := by
          refine Nat.pos_of_ne_zero fun hzero => ?_
          rw [hzero] at hdigits
          exact absurd hdigits (by simp)
        rw [write_half_eq hnumber, hdigits, List.reverse_reverse]
        exact hcs

/-- Of the texts of a position one is canonical, the one that is written for it. -/
theorem eq_write_iff {shown : String} {p : Position} :
    shown = p.write ↔ IsCanonical shown ∧ read shown = some p := by
  constructor
  · rintro rfl
    exact ⟨⟨_, _, p.to_list_write, canonical_write_half _, canonical_write_half _⟩, read_write p⟩
  · rintro ⟨⟨first, second, hshown, hfirst, hsecond⟩, hread⟩
    obtain ⟨_, _, high, low, hcut, ⟨hspells, hhigh⟩, ⟨hspells', hlow⟩, heq⟩ :=
      read_eq_some_iff.mp hread
    rw [hshown, cut_halves hfirst.no_blank hsecond.no_blank] at hcut
    obtain ⟨rfl, rfl⟩ := Prod.mk.inj (Option.some.inj hcut)
    have hnumber := (eq_of_halves_iff hhigh hlow).mp heq
    have hhalves : p.high = high ∧ p.low = low := by
      unfold Position.high Position.low
      omega
    rw [← String.toList_inj, to_list_write, hshown, hhalves.1, hhalves.2,
      canonical_half_unique hfirst hspells, canonical_half_unique hsecond hspells']

/-! ## Faithful texts -/

/-- Texts of positions are faithful: a position is read back from what is written for it, alone or
in a document; a text is read exactly if it spells the halves of a position; positions have the
order of their halves; and the text that is written for a position is its only canonical one. -/
theorem text_faithful :
    (∀ p : Position, read p.write = some p ∧ (Json.read p.toJson.render).bind ofJson? = some p) ∧
      (∀ (text : String) (p : Position), read text = some p ↔
        ∃ high low, Spells text.toList high low ∧ high < 2 ^ 32 ∧ low < 2 ^ 32 ∧
          p.lsn.toNat = high * 2 ^ 32 + low) ∧
      (∀ p q : Position, p.lsn.toNat = p.high * 2 ^ 32 + p.low ∧ p.high < 2 ^ 32 ∧
        p.low < 2 ^ 32 ∧ (p ≤ q ↔ toLex (p.high, p.low) ≤ toLex (q.high, q.low))) ∧
      ∀ (shown : String) (p : Position),
        shown = p.write ↔ IsCanonical shown ∧ read shown = some p := by
  refine ⟨fun p => ⟨read_write p, ?_⟩, fun text p => read_iff, fun p q => ?_,
    fun shown p => eq_write_iff⟩
  · have hheight : p.toJson.height ≤ Json.depthLimit := by
      simp [toJson, Json.height, Json.heightOfFields, Json.depthLimit]
    rw [Json.read_render p.is_plain_to_json hheight, Option.bind_some, of_json_to_json]
  · obtain ⟨hnumber, hhigh, hlow⟩ := p.eq_halves
    exact ⟨hnumber, hhigh, hlow, le_iff_halves p q⟩

end Position

end ChangeFeed
