import ChangeFeed.Proofs.Json.Accuracy
import ChangeFeed.Proofs.Json.Transcript
import ChangeFeed.Proofs.Value.Typing

/-!
# Numbers in document columns

A literal of a document type is read as the document that it shows, place by place. Each number of
the document stands for the number that is written there (`Value.numbers_kept`): an integer that
fits 64 bits exactly, any other one as a number of double precision nearby.
`Value.wide_integer_rounded` is an integer that does not fit.
-/

namespace ChangeFeed.Value

open Json (Numeral Shows SpellsNumeral SpellsText Step Transcript gap_nil)
open Number (Binary Decimal Format)

/-- A literal of a document type is the canonical form of what it is read as. -/
theorem of_literal_document (text : String) (doc : Json) :
    (ofLiteral .json text = .ok (.json doc) ↔ documentOf text = some doc) ∧
      (ofLiteral .jsonb text = .ok (.jsonb doc) ↔ documentOf text = some doc) := by
  have hfound : found .document (documentOf text) = .ok doc ↔ documentOf text = some doc := by
    cases documentOf text <;> simp [found]
  rw [of_literal_scalar .json (by simp), of_literal_scalar .jsonb (by simp), scalarOf, scalarOf,
    Except.map_error_eq_ok, Except.map_error_eq_ok, Except.map_eq_ok, Except.map_eq_ok, ← hfound]
  simp

/-- A literal that shows a transcript is read as the canonical form of its document. -/
theorem document_of_transcript {t : Transcript} {text : String} (h : t.IsOf text.toList) :
    documentOf text = Json.canonical? (t.documentAt 0) := by
  obtain ⟨front, body, back, hfront, hback, heq, hshows⟩ := h
  rw [documentOf, Json.read, heq, Json.read_chars_spelled (hshows.spells 0) hfront hback,
    Option.bind_some]

/-- What is kept of a usable transcript stands for a number exactly where a number is written, and
for one that is kept. -/
theorem rational_kept_iff {t : Transcript} (h : t.IsUsable) :
    (∀ q, t.kept.rational? = some q → ∃ n, t = .number n ∧ n.Kept q) ∧
      ∀ n, t = .number n → ∃ q, t.kept.rational? = some q ∧ n.Kept q := by
  have hnumber (n : Numeral) (ht : t = .number n) :
      ∃ q, t.kept.rational? = some q ∧ n.Kept q := by
    subst ht
    obtain ⟨⟨cs, hshows⟩, depth, doc, hdoc⟩ := h
    cases hshows with
    | number hspells => exact Numeral.value_kept hspells (Json.canonical_value hdoc).2
  refine ⟨fun q hq => ?_, hnumber⟩
  cases t with
  | null | bool | text | list | object => cases hq
  | number n =>
      obtain ⟨kept, hkept, hn⟩ := hnumber n rfl
      obtain rfl := Option.some.inj (hkept.symm.trans hq)
      exact ⟨n, rfl, hn⟩

/-- Every literal that is read as a document has a transcript. At each place the document has a
number exactly where a transcript has one, and it stands for the number that is written there. -/
theorem numbers_kept {text : String} {doc : Json}
    (h : ofLiteral .json text = .ok (.json doc) ∨ ofLiteral .jsonb text = .ok (.jsonb doc)) :
    (∃ t : Transcript, t.IsOf text.toList) ∧
      ∀ t : Transcript, t.IsOf text.toList → ∀ path : List Step,
        (∀ q, (doc.at? path).bind Json.rational? = some q →
          ∃ n, t.at? path = some (.number n) ∧ n.Kept q) ∧
        ∀ n, t.at? path = some (.number n) →
          ∃ q, (doc.at? path).bind Json.rational? = some q ∧ n.Kept q := by
  obtain ⟨hjson, hjsonb⟩ := of_literal_document text doc
  have hread : (Json.readChars text.toList).bind Json.canonical? = some doc :=
    h.elim hjson.mp hjsonb.mp
  refine ⟨Json.exists_transcript_of_read hread, fun t ht path => ?_⟩
  obtain ⟨rfl, husable⟩ := Json.kept_of_read hread ht
  rw [Json.at_kept]
  cases hat : t.at? path with
  | none => simp
  | some u =>
      obtain ⟨hback, hforth⟩ := rational_kept_iff (husable.at hat)
      refine ⟨fun q hq => ?_, fun n hn => hforth n (Option.some.inj hn)⟩
      obtain ⟨n, rfl, hn⟩ := hback q hq
      exact ⟨n, rfl, hn⟩

/-- A tenth, under a name, is kept as the nearest number of double precision. -/
theorem numbers_kept_tenth :
    ofLiteral .jsonb "\x7b\"p\":0.1\x7d" =
        .ok (.jsonb (.object [("p", .real (.signed false 0x3FB999999999999A (by decide)))])) ∧
      ∃ q, Json.rational? (.real (.signed false 0x3FB999999999999A (by decide))) = some q ∧
        Numeral.Kept ⟨false, ['0'], ['1'], none⟩ q := by
  have hspells : SpellsNumeral ⟨false, ['0'], ['1'], none⟩ ['0', '.', '1'] :=
    ⟨by simp [Json.AreDigits], fun _ => rfl, ['.', '1'], [],
      .digits (by simp [Json.AreDigits]), .none, rfl⟩
  have hname : SpellsText (some ['p']) ['p'] := .plain (by decide) .nil
  have hof : Transcript.IsOf (.object [("p", .number ⟨false, ['0'], ['1'], none⟩)])
      "\x7b\"p\":0.1\x7d".toList :=
    ⟨[], _, [], gap_nil, gap_nil, by simp,
      .object (.last gap_nil (.mk gap_nil hname gap_nil gap_nil (.number hspells)))⟩
  have hbinary : Numeral.toBinary ⟨false, ['0'], ['1'], none⟩ =
      some (.signed false 0x3FB999999999999A (by decide)) := by
    decide +kernel
  have hvalue : Numeral.value ⟨false, ['0'], ['1'], none⟩ =
      .real (.signed false 0x3FB999999999999A (by decide)) := by
    rw [Numeral.value_eq, if_neg (by simp), if_neg (by simp), hbinary]
    rfl
  have hread : ofLiteral .jsonb "\x7b\"p\":0.1\x7d" =
      .ok (.jsonb (.object [("p", .real (.signed false 0x3FB999999999999A (by decide)))])) := by
    rw [(of_literal_document _ _).2, document_of_transcript hof]
    simp only [Transcript.documentAt, Transcript.fieldsAt, hvalue]
    rfl
  exact ⟨hread, ((numbers_kept (.inr hread)).2 _ hof [.field "p"]).2 _ rfl⟩

/-- An integer that does not fit 64 bits is read as a power of two, which is one less. -/
theorem wide_integer_rounded :
    ∃ (t : Transcript) (n : Numeral) (doc : Json) (q : ℚ),
      t.IsOf "18446744073709551617".toList ∧ t.at? [] = some (.number n) ∧
        ofLiteral .jsonb "18446744073709551617" = .ok (.jsonb doc) ∧
        (doc.at? []).bind Json.rational? = some q ∧ q = 2 ^ 64 ∧ n.decimal.value = q + 1 := by
  have hspells : SpellsNumeral ⟨false, "18446744073709551617".toList, [], none⟩
      "18446744073709551617".toList :=
    ⟨by simp [Json.AreDigits], by simp, [], [], .none, .none, by simp⟩
  have hof : Transcript.IsOf (.number ⟨false, "18446744073709551617".toList, [], none⟩)
      "18446744073709551617".toList :=
    ⟨[], _, [], gap_nil, gap_nil, by simp, .number hspells⟩
  have hdigits : Decimal.ofDigits "18446744073709551617".toList = 18446744073709551617 := by
    decide +kernel
  have hbinary : Numeral.toBinary ⟨false, "18446744073709551617".toList, [], none⟩ =
      some (.signed false 0x43F0000000000000 (by decide)) := by
    decide +kernel
  have hvalue : Numeral.value ⟨false, "18446744073709551617".toList, [], none⟩ =
      .real (.signed false 0x43F0000000000000 (by decide)) := by
    rw [Numeral.value_eq, if_neg (by rw [hdigits]; simp), if_neg (by simp), hbinary]
    rfl
  have hread : Binary.signedValue Format.double false 0x43F0000000000000 = 2 ^ 64 := by
    have hat : Format.double.IsAt 0x43F0000000000000 1086 (2 ^ 52) :=
      ⟨by decide, by decide, by decide⟩
    have hexponent : Format.double.minExponent + (1086 : Nat) = 12 := by decide
    rw [Binary.signedValue, if_neg Bool.false_ne_true, hat.value_eq, Format.unit, hexponent]
    norm_num
  have hwritten : Decimal.value
      (Numeral.decimal ⟨false, "18446744073709551617".toList, [], none⟩) = 2 ^ 64 + 1 := by
    rw [(Numeral.integral_value rfl rfl).2, if_neg Bool.false_ne_true, hdigits]
    norm_num
  refine ⟨_, _, .real (.signed false 0x43F0000000000000 (by decide)), _, hof, rfl, ?_, rfl, hread,
    hwritten.trans (congrArg (· + 1) hread.symm)⟩
  rw [(of_literal_document _ _).2, document_of_transcript hof]
  simp only [Transcript.documentAt, hvalue]
  rfl

end ChangeFeed.Value
