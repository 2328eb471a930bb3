import ChangeFeed.Proofs.Json.Completeness

/-!
# What is read is spelled

The reader is sound for the grammar: whatever it reads as a document spells that document, with
spaces around it. With the completeness of the reader, `Json.read_chars_iff` says which texts are
read as which documents. The lemmas follow the reader from the digits of a number and the characters
of a text to values, items and fields, each with what is left of the text behind it.
-/

namespace ChangeFeed.Json

variable {cs after ds rest : List Char}

/-- What is read part by part is read behind the first part. -/
theorem exists_of_bind {α β : Type} {first : Option (α × List Char)}
    {next : α × List Char → Option β} {result : β} (h : first.bind next = some result) :
    ∃ part behind, first = some (part, behind) ∧ next (part, behind) = some result := by
  obtain ⟨⟨part, behind⟩, hfirst, hnext⟩ := Option.bind_eq_some_iff.mp h
  exact ⟨part, behind, hfirst, hnext⟩

/-! ## Numbers -/

/-- The leading digits are digits in front of the others. -/
theorem leading_digits_eq (h : Numeral.leadingDigits cs = (ds, after)) :
    cs = ds ++ after ∧ ∀ c ∈ ds, c.isDigit = true := by
  obtain ⟨rfl, rfl⟩ := Prod.mk.inj h
  exact ⟨List.takeWhile_append_dropWhile.symm, List.all_eq_true.mp List.all_takeWhile⟩

/-- What is scanned in front of a point are digits, and a zero stands alone. -/
theorem digits_of_scan_whole (h : Numeral.scanWhole cs = some (ds, after)) :
    cs = ds ++ after ∧ AreDigits ds ∧ (ds.head? = some '0' → ds = ['0']) := by
  unfold Numeral.scanWhole at h
  split at h
  · cases h
  · cases h
  · rename_i hsome hzero
    rw [Option.some.injEq] at h
    obtain ⟨heq, hdigits⟩ := leading_digits_eq h
    refine ⟨heq, ⟨fun hnil => hsome _ (hnil ▸ h), hdigits⟩, fun hhead => ?_⟩
    match ds, hhead with
    | [_], hhead => rw [Option.some.inj hhead]
    | _ :: _ :: _, hhead => exact absurd (Option.some.inj hhead ▸ h) (hzero _ _ _)

/-- What is scanned behind the whole part is a fraction. -/
theorem spells_fraction_of_scan (h : Numeral.scanFraction cs = some (ds, after)) :
    ∃ body, cs = body ++ after ∧ SpellsFraction ds body := by
  unfold Numeral.scanFraction at h
  split at h
  · rename_i rest
    split at h
    · cases h
    · rename_i hsome
      rw [Option.some.injEq] at h
      obtain ⟨heq, hdigits⟩ := leading_digits_eq h
      exact ⟨'.' :: ds, by rw [heq]; rfl, .digits ⟨fun hnil => hsome _ (hnil ▸ h), hdigits⟩⟩
  · obtain ⟨rfl, rfl⟩ := Prod.mk.inj (Option.some.inj h)
    exact ⟨[], rfl, .none⟩

/-- What is scanned behind the fraction is an exponent. -/
theorem spells_exponent_of_scan {exponent : Option (Bool × List Char)}
    (h : Numeral.scanExponent cs = some (exponent, after)) :
    ∃ body, cs = body ++ after ∧ SpellsExponent exponent body := by
  unfold Numeral.scanExponent at h
  split at h
  · obtain ⟨rfl, rfl⟩ := Prod.mk.inj (Option.some.inj h)
    exact ⟨[], rfl, .none⟩
  · rename_i mark rest
    split at h
    · rename_i hmark
      dsimp only at h
      obtain ⟨sign, hsign, hrest⟩ := Number.exists_sign rest
      split at h
      · cases h
      · rename_i ds more hsome hdigits
        obtain ⟨rfl, rfl⟩ := Prod.mk.inj (Option.some.inj h)
        obtain ⟨heq, honly⟩ := leading_digits_eq hdigits
        refine ⟨mark :: (sign ++ ds), ?_, .digits (by simpa using hmark)
          (Number.spells_sign_iff.mp hsign) ⟨fun hnil => hsome (hnil ▸ rfl), honly⟩⟩
        rw [hrest, heq, List.cons_append, List.append_assoc]
    · obtain ⟨rfl, rfl⟩ := Prod.mk.inj (Option.some.inj h)
      exact ⟨[], rfl, .none⟩

/-- Behind its sign a number is scanned in three parts. -/
theorem spells_numeral_of_parts (negative : Bool) {whole fraction front back : List Char}
    {exponent : Option (Bool × List Char)} (hwhole : Numeral.scanWhole cs = some (whole, front))
    (hfraction : Numeral.scanFraction front = some (fraction, back))
    (hexponent : Numeral.scanExponent back = some (exponent, after)) :
    ∃ body, (if negative then ['-'] else []) ++ cs = body ++ after ∧
      SpellsNumeral ⟨negative, whole, fraction, exponent⟩ body := by
  obtain ⟨rfl, hdigits, hzero⟩ := digits_of_scan_whole hwhole
  obtain ⟨fractionBody, rfl, hspellsFraction⟩ := spells_fraction_of_scan hfraction
  obtain ⟨exponentBody, rfl, hspellsExponent⟩ := spells_exponent_of_scan hexponent
  exact ⟨(if negative then ['-'] else []) ++ (whole ++ (fractionBody ++ exponentBody)),
    by simp only [List.append_assoc], hdigits, hzero, _, _, hspellsFraction, hspellsExponent, rfl⟩

/-- What is scanned as a number spells that number. -/
theorem spells_numeral_of_scan {n : Numeral} (h : Numeral.scan cs = some (n, after)) :
    ∃ body, cs = body ++ after ∧ SpellsNumeral n body := by
  unfold Numeral.scan at h
  split at h
  rename_i hsign
  obtain ⟨whole, front, hwhole, h⟩ := exists_of_bind h
  obtain ⟨fraction, back, hfraction, h⟩ := exists_of_bind h
  obtain ⟨exponent, _, hexponent, h⟩ := exists_of_bind h
  obtain ⟨rfl, rfl⟩ := Prod.mk.inj (Option.some.inj h)
  split at hsign
  · obtain ⟨rfl, rfl⟩ := Prod.mk.inj hsign
    exact spells_numeral_of_parts true hwhole hfraction hexponent
  · obtain ⟨rfl, rfl⟩ := Prod.mk.inj hsign
    exact spells_numeral_of_parts false hwhole hfraction hexponent

/-! ## Texts -/

/-- Four digits are read as the unit that they are worth. -/
theorem spells_unit_of_read {unit : Nat} (h : readUnit cs = some (unit, after)) :
    ∃ ds, cs = ds ++ after ∧ SpellsUnit unit ds := by
  unfold readUnit at h
  split at h
  · rename_i a b c d rest
    simp only [Option.bind_eq_bind, Option.bind_eq_some_iff, Option.pure_def, Option.some.injEq,
      Prod.mk.injEq] at h
    obtain ⟨first, hfirst, second, hsecond, third, hthird, fourth, hfourth, rfl, rfl⟩ := h
    exact ⟨[a, b, c, d], rfl, first, second, third, fourth,
      by simp [hfirst, hsecond, hthird, hfourth], rfl⟩
  · cases h

/-- A unit stands for a character, or it is half of a pair that the other half follows, or half of
one that it does not follow. -/
theorem escaped_unit_cases (unit : Nat) (cs : List Char) :
    (escapedUnit unit cs = (some (Char.ofNat unit), cs) ∧
        isHighSurrogate unit = false ∧ isLowSurrogate unit = false) ∨
      (∃ low es more, cs = '\\' :: 'u' :: (es ++ more) ∧ SpellsUnit low es ∧
        isHighSurrogate unit = true ∧ isLowSurrogate low = true ∧
        escapedUnit unit cs =
          (some (Char.ofNat (0x10000 + (unit - 0xD800) * 0x400 + (low - 0xDC00))), more)) ∨
      (escapedUnit unit cs = (none, cs) ∧ (isLowSurrogate unit = true ∨
        isHighSurrogate unit = true ∧ ∀ low es more, SpellsUnit low es →
          cs = '\\' :: 'u' :: (es ++ more) → isLowSurrogate low = false)) := by
  unfold escapedUnit
  by_cases hhigh : isHighSurrogate unit = true
  · rw [if_pos hhigh]
    split
    · rename_i more
      -- If it is a unit that follows, it is the one that is read.
      have hsame {low : Nat} {es behind : List Char} (hes : SpellsUnit low es)
          (hcs : '\\' :: 'u' :: more = '\\' :: 'u' :: (es ++ behind)) :
          readUnit more = some (low, behind) := by
        simp only [List.cons.injEq, true_and] at hcs
        rw [hcs, read_unit_spelled hes]
      cases hread : readUnit more with
      | none =>
          refine .inr (.inr ⟨rfl, .inr ⟨hhigh, fun low es behind hes hcs => ?_⟩⟩)
          exact absurd (hread.symm.trans (hsame hes hcs)) (Option.some_ne_none _).symm
      | some found =>
          obtain ⟨low, after⟩ := found
          by_cases hlow : isLowSurrogate low = true
          · obtain ⟨es, rfl, hes⟩ := spells_unit_of_read hread
            exact .inr (.inl ⟨low, es, after, rfl, hes, hhigh, hlow, by simp [hlow]⟩)
          · refine .inr (.inr ⟨by simp [hlow], .inr ⟨hhigh, fun other es behind hes hcs => ?_⟩⟩)
            obtain ⟨rfl, -⟩ := Prod.mk.inj (Option.some.inj (hread.symm.trans (hsame hes hcs)))
            simpa using hlow
    · rename_i hother
      exact .inr (.inr ⟨rfl, .inr ⟨hhigh, fun low es more _ hcs => absurd hcs (hother _)⟩⟩)
  · rw [if_neg hhigh]
    by_cases hlow : isLowSurrogate unit = true
    · exact .inr (.inr ⟨if_pos hlow, .inl hlow⟩)
    · exact .inl ⟨if_neg hlow, by simpa using hhigh, by simpa using hlow⟩

/-- What is read up to a quote spells the text that is read. -/
theorem spells_text_of_read {fuel : Nat} {value : Option (List Char)}
    (h : readText fuel cs = some (value, after)) :
    ∃ body, cs = body ++ '"' :: after ∧ SpellsText value body := by
  induction fuel generalizing cs value after with
  | zero => cases h
  | succ fuel ih =>
      cases cs with
      | nil => cases h
      | cons c rest =>
          unfold readText at h
          split_ifs at h with hquote hescape hcontrol
          · obtain ⟨rfl, rfl⟩ := Prod.mk.inj (Option.some.inj h)
            exact ⟨[], by rw [beq_iff_eq.mp hquote]; rfl, .nil⟩
          · obtain rfl := beq_iff_eq.mp hescape
            split at h
            · cases h
            · rename_i e more
              split_ifs at h with hunit
              · obtain rfl := beq_iff_eq.mp hunit
                simp only [Option.bind_eq_bind, Option.bind_eq_some_iff, Prod.exists,
                  Option.pure_def, Option.some.injEq, Prod.mk.injEq] at h
                obtain ⟨unit, behind, hread, tail, last, htail, rfl, rfl⟩ := h
                obtain ⟨ds, rfl, hds⟩ := spells_unit_of_read hread
                rcases escaped_unit_cases unit behind with ⟨heq, hwhole⟩ |
                  ⟨low, es, more, rfl, hes, hhigh, hlow, heq⟩ | ⟨heq, hhalf⟩
                all_goals rw [heq] at htail ⊢
                · obtain ⟨body, rfl, hbody⟩ := ih htail
                  exact ⟨'\\' :: 'u' :: (ds ++ body), by simp, .unit hds hwhole hbody⟩
                · obtain ⟨body, rfl, hbody⟩ := ih htail
                  exact ⟨'\\' :: 'u' :: (ds ++ '\\' :: 'u' :: (es ++ body)), by simp,
                    .pair ⟨hds, hes⟩ ⟨hhigh, hlow⟩ hbody⟩
                · obtain ⟨body, rfl, hbody⟩ := ih htail
                  refine ⟨'\\' :: 'u' :: (ds ++ body), by simp, .half hds ?_ hbody⟩
                  exact hhalf.imp_right fun ⟨hhigh, halone⟩ => ⟨hhigh, fun low es more hes hcs =>
                    halone low es (more ++ '"' :: last) hes (by simp [hcs])⟩
              · obtain ⟨char, hchar, h⟩ := Option.bind_eq_some_iff.mp h
                obtain ⟨tail, last, htail, h⟩ := exists_of_bind h
                obtain ⟨rfl, rfl⟩ := Prod.mk.inj (Option.some.inj h)
                obtain ⟨body, rfl, hbody⟩ := ih htail
                exact ⟨'\\' :: e :: body, rfl, .short hchar hbody⟩
          · obtain ⟨tail, last, htail, h⟩ := exists_of_bind h
            obtain ⟨rfl, rfl⟩ := Prod.mk.inj (Option.some.inj h)
            obtain ⟨body, rfl, hbody⟩ := ih htail
            exact ⟨c :: body, rfl,
              .plain ⟨by simpa using hquote, by simpa using hescape, Nat.not_lt.mp hcontrol⟩ hbody⟩

/-! ## Documents -/

/-- Two gaps are one. -/
theorem gap_append {front back : List Char} (hfront : IsGap front) (hback : IsGap back) :
    IsGap (front ++ back) :=
  List.forall_mem_append.mpr ⟨hfront, hback⟩

/-- Spaces may stand in front of items. -/
theorem SpellsItems.behind_gap {depth : Nat} {items : List Json} {gap : List Char}
    (h : SpellsItems depth items cs) (hgap : IsGap gap) : SpellsItems depth items (gap ++ cs) := by
  cases h with
  | last hfront hback h =>
      rw [← List.append_assoc]
      exact .last (gap_append hgap hfront) hback h
  | more hfront hback h hrest =>
      rw [← List.append_assoc]
      exact .more (gap_append hgap hfront) hback h hrest

/-- Spaces may stand in front of a field. -/
theorem SpellsField.behind_gap {depth : Nat} {field : Option (String × Json)} {gap : List Char}
    (h : SpellsField depth field cs) (hgap : IsGap gap) : SpellsField depth field (gap ++ cs) := by
  cases h with
  | mk hfront hname hcolon hback h =>
      rw [← List.append_assoc]
      exact .mk (gap_append hgap hfront) hname hcolon hback h

/-- Spaces may stand in front of fields. -/
theorem SpellsFields.behind_gap {depth : Nat} {fields : Option (List (String × Json))}
    {gap : List Char} (h : SpellsFields depth fields cs) (hgap : IsGap gap) :
    SpellsFields depth fields (gap ++ cs) := by
  cases h with
  | last hback h =>
      rw [← List.append_assoc]
      exact .last hback (h.behind_gap hgap)
  | more hback h hrest =>
      rw [← List.append_assoc]
      exact .more hback (h.behind_gap hgap) hrest

mutual

/-- What is read as a value spells the value, behind a gap. -/
theorem spells_of_read_value {depth : Nat} {value : Json} {cs after : List Char} :
    (fuel : Nat) → readValue fuel depth cs = some (value, after) →
      ∃ gap body, IsGap gap ∧ cs = gap ++ (body ++ after) ∧ Spells depth value body
  | 0, h => by cases h
  | fuel + 1, h => by
    obtain ⟨gap, hgap, hcs⟩ := exists_gap cs
    have hbehind : (∃ body, skipSpaces cs = body ++ after ∧ Spells depth value body) →
        ∃ gap body, IsGap gap ∧ cs = gap ++ (body ++ after) ∧ Spells depth value body :=
      fun ⟨body, hbody, hspells⟩ => ⟨gap, body, hgap, hbody ▸ hcs, hspells⟩
    apply hbehind
    unfold readValue at h
    split at h
    · rename_i heq
      obtain ⟨rfl, rfl⟩ := Prod.mk.inj (Option.some.inj h)
      exact ⟨_, heq, .null⟩
    · rename_i heq
      obtain ⟨rfl, rfl⟩ := Prod.mk.inj (Option.some.inj h)
      exact ⟨_, heq, .yes⟩
    · rename_i heq
      obtain ⟨rfl, rfl⟩ := Prod.mk.inj (Option.some.inj h)
      exact ⟨_, heq, .no⟩
    · rename_i heq
      obtain ⟨chars, last, hread, h⟩ := exists_of_bind h
      obtain ⟨rfl, rfl⟩ := Prod.mk.inj (Option.some.inj h)
      obtain ⟨body, rfl, hbody⟩ := spells_text_of_read hread
      exact ⟨'"' :: (body ++ ['"']), by simp [heq], .text hbody⟩
    · rename_i rest heq
      obtain ⟨inner, hinner, hrest⟩ := exists_gap rest
      split at h
      · rename_i hclose
        obtain ⟨rfl, rfl⟩ := Prod.mk.inj (Option.some.inj h)
        exact ⟨'[' :: (inner ++ [']']), by rw [heq, hrest, hclose]; simp, .emptyList hinner⟩
      · obtain ⟨items, last, hread, h⟩ := exists_of_bind h
        obtain ⟨rfl, rfl⟩ := Prod.mk.inj (Option.some.inj h)
        obtain ⟨body, hbody, hitems⟩ := spells_of_read_items fuel hread
        exact ⟨'[' :: ((inner ++ body) ++ [']']), by rw [heq, hrest, hbody]; simp,
          .list (hitems.behind_gap hinner)⟩
    · rename_i rest heq
      obtain ⟨inner, hinner, hrest⟩ := exists_gap rest
      split at h
      · rename_i hclose
        obtain ⟨rfl, rfl⟩ := Prod.mk.inj (Option.some.inj h)
        exact ⟨'\x7b' :: (inner ++ ['\x7d']), by rw [heq, hrest, hclose]; simp,
          .emptyObject hinner⟩
      · obtain ⟨fields, last, hread, h⟩ := exists_of_bind h
        obtain ⟨rfl, rfl⟩ := Prod.mk.inj (Option.some.inj h)
        obtain ⟨body, hbody, hfields⟩ := spells_of_read_fields fuel hread
        exact ⟨'\x7b' :: ((inner ++ body) ++ ['\x7d']), by rw [heq, hrest, hbody]; simp,
          .object (hfields.behind_gap hinner)⟩
    · obtain ⟨n, last, hread, h⟩ := exists_of_bind h
      obtain ⟨rfl, rfl⟩ := Prod.mk.inj (Option.some.inj h)
      obtain ⟨body, hbody, hspells⟩ := spells_numeral_of_scan hread
      exact ⟨body, hbody, .numeral hspells⟩

/-- What is read as items spells them, up to the closing bracket. -/
theorem spells_of_read_items {depth : Nat} {items : List Json} {cs after : List Char} :
    (fuel : Nat) → readItems fuel depth cs = some (items, after) →
      ∃ body, cs = body ++ ']' :: after ∧ SpellsItems depth items body
  | 0, h => by cases h
  | fuel + 1, h => by
    unfold readItems at h
    obtain ⟨item, behind, hread, hrest⟩ := exists_of_bind h
    dsimp only at hrest
    obtain ⟨front, body, hfront, rfl, hbody⟩ := spells_of_read_value fuel hread
    obtain ⟨back, hback, hbehind⟩ := exists_gap behind
    split at hrest
    · rename_i rest heq
      obtain ⟨others, last, hmore, hlast⟩ := exists_of_bind hrest
      obtain ⟨rfl, rfl⟩ := Prod.mk.inj (Option.some.inj hlast)
      obtain ⟨more, rfl, hothers⟩ := spells_of_read_items fuel hmore
      exact ⟨front ++ (body ++ (back ++ ',' :: more)), by rw [hbehind, heq]; simp,
        .more hfront hback hbody hothers⟩
    · rename_i rest heq
      obtain ⟨rfl, rfl⟩ := Prod.mk.inj (Option.some.inj hrest)
      exact ⟨front ++ (body ++ back), by rw [hbehind, heq]; simp, .last hfront hback hbody⟩
    · cases hrest

/-- What is read as fields spells them, up to the closing brace. -/
theorem spells_of_read_fields {depth : Nat} {fields : Option (List (String × Json))}
    {cs after : List Char} :
    (fuel : Nat) → readFields fuel depth cs = some (fields, after) →
      ∃ body, cs = body ++ '\x7d' :: after ∧ SpellsFields depth fields body
  | 0, h => by cases h
  | fuel + 1, h => by
    unfold readFields at h
    obtain ⟨front, hfront, hcs⟩ := exists_gap cs
    split at h
    · rename_i text hquote
      obtain ⟨name, behindName, hreadName, hafterName⟩ := exists_of_bind h
      dsimp only at hafterName
      obtain ⟨chars, rfl, hname⟩ := spells_text_of_read hreadName
      obtain ⟨colon, hcolon, hbehindName⟩ := exists_gap behindName
      split at hafterName
      · rename_i valueText hseparator
        obtain ⟨value, behind, hread, hrest⟩ := exists_of_bind hafterName
        dsimp only at hrest
        obtain ⟨gap, body, hgap, rfl, hbody⟩ := spells_of_read_value fuel hread
        obtain ⟨back, hback, hbehind⟩ := exists_gap behind
        have hfield := SpellsField.mk hfront hname hcolon hgap hbody
        have hall : cs = (front ++ '"' :: (chars ++ '"' :: (colon ++ ':' :: (gap ++ body)))) ++
            behind := by
          rw [hcs, hquote, hbehindName, hseparator]
          simp
        split at hrest
        · rename_i rest hcomma
          obtain ⟨others, last, hmore, hlast⟩ := exists_of_bind hrest
          obtain ⟨rfl, rfl⟩ := Prod.mk.inj (Option.some.inj hlast)
          obtain ⟨more, rfl, hothers⟩ := spells_of_read_fields fuel hmore
          refine ⟨_, ?_, .more hback hfield hothers⟩
          rw [hall, hbehind, hcomma]
          simp
        · rename_i rest hclose
          obtain ⟨rfl, rfl⟩ := Prod.mk.inj (Option.some.inj hrest)
          refine ⟨_, ?_, .last hback hfield⟩
          rw [hall, hbehind, hclose]
          simp
        · cases hrest
      · cases hafterName
    · cases h

end

/-- Exactly the texts of a document, with spaces around them, are read as that document. -/
theorem read_chars_iff {cs : List Char} {value : Json} :
    readChars cs = some value ↔
      ∃ front body back, IsGap front ∧ IsGap back ∧ cs = front ++ (body ++ back) ∧
        Spells 0 value body := by
  constructor
  · intro h
    obtain ⟨_, behind, hread, h⟩ := exists_of_bind h
    simp only [Option.ite_none_right_eq_some, Option.some.injEq, List.isEmpty_iff] at h
    obtain ⟨hend, rfl⟩ := h
    obtain ⟨front, body, hfront, rfl, hbody⟩ := spells_of_read_value _ hread
    obtain ⟨back, hback, hbehind⟩ := exists_gap behind
    rw [hend, List.append_nil] at hbehind
    exact ⟨front, body, behind, hfront, hbehind ▸ hback, rfl, hbody⟩
  · rintro ⟨front, body, back, hfront, hback, rfl, h⟩
    exact read_chars_spelled h hfront hback

end ChangeFeed.Json
