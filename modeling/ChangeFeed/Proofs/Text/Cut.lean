import ChangeFeed.Text.Blank
import ChangeFeed.Text.Cut
import Mathlib.Data.List.Infix

/-!
# Where texts are cut

A text is cut at the first separator in it, or at the last one. Each of the cuts is described by
the parts that it gives (`cut_at_eq_some_iff`, `cut_at_last_eq_some_iff`, `cut_at_text_append`).
-/

namespace ChangeFeed.Text

variable {cs before after : List Char} {separator : Char}

/-! ## At a character -/

/-- A text is cut at the first character that satisfies the test. -/
theorem cut_where_eq_some_iff {test : Char → Bool} {found : Char} :
    cutWhere test cs = some (before, found, after) ↔
      cs = before ++ found :: after ∧ test found = true ∧ ∀ c ∈ before, test c = false := by
  induction cs generalizing before with
  | nil => simp [cutWhere]
  | cons c cs ih =>
      cases htest : test c with
      | true =>
          simp only [cutWhere, htest, if_true, Option.some.injEq, Prod.mk.injEq]
          constructor
          · rintro ⟨rfl, rfl, rfl⟩
            exact ⟨rfl, htest, by simp⟩
          · rintro ⟨heq, -, hbefore⟩
            cases before with
            | nil => exact ⟨rfl, List.cons.inj heq⟩
            | cons b before =>
                obtain ⟨rfl, -⟩ := List.cons.inj heq
                exact absurd (hbefore c List.mem_cons_self) (by simp [htest])
      | false =>
          simp only [cutWhere, htest, Bool.false_eq_true, if_false, Option.map_eq_some_iff,
            Prod.exists]
          constructor
          · rintro ⟨b, f, a, hcut, heq⟩
            obtain ⟨rfl, rfl, rfl⟩ := by simpa only [Prod.mk.injEq] using heq
            obtain ⟨rfl, hfound, hbefore⟩ := ih.mp hcut
            exact ⟨rfl, hfound, List.forall_mem_cons.mpr ⟨htest, hbefore⟩⟩
          · rintro ⟨heq, hfound, hbefore⟩
            cases before with
            | nil =>
                obtain ⟨rfl, -⟩ := List.cons.inj heq
                exact absurd hfound (by simp [htest])
            | cons b before =>
                obtain ⟨rfl, rfl⟩ := List.cons.inj heq
                obtain ⟨-, hbefore⟩ := List.forall_mem_cons.mp hbefore
                exact ⟨before, found, after, ih.mpr ⟨rfl, hfound, hbefore⟩, rfl⟩

/-- A text without a character that satisfies the test is not cut. -/
theorem cut_where_eq_none_iff {test : Char → Bool} :
    cutWhere test cs = none ↔ ∀ c ∈ cs, test c = false := by
  induction cs with
  | nil => simp [cutWhere]
  | cons c cs ih =>
      cases htest : test c with
      | true => simp [cutWhere, htest]
      | false => simp [cutWhere, htest, ih]

/-- A text is cut at its first separator. -/
theorem cut_at_eq_some_iff :
    cutAt separator cs = some (before, after) ↔
      cs = before ++ separator :: after ∧ separator ∉ before := by
  have hbefore (part : List Char) :
      (∀ c ∈ part, (c == separator) = false) ↔ separator ∉ part := by
    simp only [beq_eq_false_iff_ne]
    exact ⟨fun h hmem => h separator hmem rfl, fun h c hc heq => h (heq ▸ hc)⟩
  simp only [cutAt, Option.map_eq_some_iff, Prod.exists, cut_where_eq_some_iff, Prod.mk.injEq,
    beq_iff_eq, hbefore]
  constructor
  · rintro ⟨b, found, a, ⟨rfl, rfl, hnot⟩, rfl, rfl⟩
    exact ⟨rfl, hnot⟩
  · rintro ⟨rfl, hnot⟩
    exact ⟨before, separator, after, ⟨rfl, rfl, hnot⟩, rfl, rfl⟩

/-- A text without the separator is not cut. -/
theorem cut_at_eq_none_iff : cutAt separator cs = none ↔ separator ∉ cs := by
  simp only [cutAt, Option.map_eq_none_iff, cut_where_eq_none_iff, beq_eq_false_iff_ne]
  exact ⟨fun h hmem => h separator hmem rfl, fun h c hc heq => h (heq ▸ hc)⟩

/-- A text is cut at its first separator. -/
theorem cut_at_append (h : ∀ c ∈ before, c ≠ separator) :
    cutAt separator (before ++ separator :: after) = some (before, after) :=
  cut_at_eq_some_iff.mpr ⟨rfl, fun hmem => h separator hmem rfl⟩

/-- A text is cut at its last separator. -/
theorem cut_at_last_eq_some_iff :
    cutAtLast separator cs = some (before, after) ↔
      cs = before ++ separator :: after ∧ separator ∉ after := by
  simp only [cutAtLast, Option.map_eq_some_iff, Prod.exists, cut_at_eq_some_iff, Prod.mk.injEq]
  constructor
  · rintro ⟨a, b, ⟨hreverse, hnot⟩, rfl, rfl⟩
    refine ⟨?_, by simpa using hnot⟩
    simpa using congrArg List.reverse hreverse
  · rintro ⟨rfl, hnot⟩
    exact ⟨after.reverse, before.reverse, ⟨by simp, by simpa using hnot⟩, by simp, by simp⟩

/-- A text without the separator is not cut at a last one. -/
theorem cut_at_last_eq_none_iff : cutAtLast separator cs = none ↔ separator ∉ cs := by
  simp [cutAtLast, cut_at_eq_none_iff]

/-! ## At a text -/

/-- What follows a given beginning. -/
theorem strip_start_eq_some_iff {start rest : List Char} :
    stripStart start cs = some rest ↔ cs = start ++ rest := by
  rw [stripStart, List.isPrefixOf?_eq_some_iff_append_eq, eq_comm]

@[simp]
theorem strip_start_append (start rest : List Char) :
    stripStart start (start ++ rest) = some rest :=
  strip_start_eq_some_iff.mpr rfl

/-- What precedes a given end, and that end, make up the text. -/
theorem strip_end_eq_some_iff {ending rest : List Char} :
    stripEnd ending cs = some rest ↔ cs = rest ++ ending := by
  rw [stripEnd, Option.map_eq_some_iff]
  constructor
  · rintro ⟨reversed, hstrip, rfl⟩
    rw [← List.reverse_inj, strip_start_eq_some_iff.mp hstrip]
    simp
  · rintro rfl
    exact ⟨rest.reverse, strip_start_eq_some_iff.mpr (by simp), List.reverse_reverse rest⟩

/-- A text is cut at its first separator, which starts nowhere before. -/
theorem cut_at_text_append {mark : List Char} (hmark : mark ≠ [])
    (hfirst : ∀ front back, before = front ++ back → back ≠ [] →
      ¬ mark <+: back ++ mark ++ after) :
    cutAtText mark (before ++ mark ++ after) = some (before, after) := by
  induction before with
  | nil =>
      cases mark with
      | nil => exact absurd rfl hmark
      | cons m mark =>
          have hstrip := strip_start_append (m :: mark) after
          rw [List.nil_append, List.cons_append, cutAtText, ← List.cons_append, hstrip]
  | cons c before ih =>
      have hnone : stripStart mark (c :: (before ++ mark ++ after)) = none := by
        refine Option.eq_none_iff_forall_ne_some.mpr fun rest hrest => ?_
        refine hfirst [] (c :: before) rfl (List.cons_ne_nil c before) ⟨rest, ?_⟩
        exact (strip_start_eq_some_iff.mp hrest).symm
      have hrest := ih fun front back heq => hfirst (c :: front) back (by rw [heq]; rfl)
      simp only [List.cons_append, cutAtText, hnone, hrest, Option.map_some]

/-- A text is not cut at a separator that it does not contain. -/
theorem cut_at_text_eq_none_iff {mark : List Char} (hmark : mark ≠ []) :
    cutAtText mark cs = none ↔ ¬ mark <:+: cs := by
  induction cs with
  | nil => simp [cutAtText, hmark]
  | cons c cs ih =>
      rw [cutAtText, List.infix_cons_iff, not_or, ← ih]
      cases hstrip : stripStart mark (c :: cs) with
      | none =>
          have hstarts : ¬ mark <+: c :: cs := by
            rintro ⟨rest, hrest⟩
            rw [strip_start_eq_some_iff.mpr hrest.symm] at hstrip
            exact absurd hstrip (by simp)
          simp [hstarts]
      | some rest =>
          have hstarts : mark <+: c :: cs := ⟨rest, (strip_start_eq_some_iff.mp hstrip).symm⟩
          simp [hstarts]

/-- The parts of a text that is cut and the separator make up the text. -/
theorem cut_at_text_eq_some {mark : List Char} (h : cutAtText mark cs = some (before, after)) :
    cs = before ++ mark ++ after := by
  induction cs generalizing before with
  | nil =>
      cases mark with
      | nil =>
          obtain ⟨rfl, rfl⟩ := Prod.mk.inj (Option.some.inj h)
          rfl
      | cons m mark => exact absurd h (by simp [cutAtText])
  | cons c cs ih =>
      rw [cutAtText] at h
      split at h
      · rename_i rest hstrip
        obtain ⟨rfl, rfl⟩ := Prod.mk.inj (Option.some.inj h)
        exact strip_start_eq_some_iff.mp hstrip
      · obtain ⟨⟨front, back⟩, hcut, heq⟩ := Option.map_eq_some_iff.mp h
        obtain ⟨rfl, rfl⟩ := Prod.mk.inj heq
        rw [ih hcut]
        rfl

/-- Where a text is cut does not depend on what stands behind the separator. -/
theorem cut_at_text_any_rest {mark : List Char} (h : cutAtText mark cs = some (before, after))
    (rest : List Char) : cutAtText mark (before ++ mark ++ rest) = some (before, rest) := by
  have hat (more : List Char) : cutAtText mark (mark ++ more) = some ([], more) := by
    cases mark with
    | nil => cases more <;> simp [cutAtText, stripStart, List.isPrefixOf?]
    | cons m mark =>
        rw [List.cons_append, cutAtText, ← List.cons_append, strip_start_append]
  induction cs generalizing before with
  | nil =>
      cases mark with
      | nil =>
          obtain ⟨rfl, rfl⟩ := Prod.mk.inj (Option.some.inj h)
          exact hat rest
      | cons m mark => exact absurd h (by simp [cutAtText])
  | cons c cs ih =>
      rw [cutAtText] at h
      split at h
      · obtain ⟨rfl, rfl⟩ := Prod.mk.inj (Option.some.inj h)
        exact hat rest
      · rename_i hnone
        obtain ⟨⟨front, back⟩, hcut, heq⟩ := Option.map_eq_some_iff.mp h
        obtain ⟨rfl, rfl⟩ := Prod.mk.inj heq
        -- The separator fits into what was there, so nothing behind it lets it start earlier.
        have hnone' : stripStart mark (c :: (front ++ mark ++ rest)) = none := by
          refine Option.eq_none_iff_forall_ne_some.mpr fun found hfound => ?_
          have hstarts : mark <+: (c :: front ++ mark) ++ rest :=
            ⟨found, (strip_start_eq_some_iff.mp hfound).symm⟩
          obtain ⟨tail, htail⟩ := List.prefix_of_prefix_length_le hstarts
            (List.prefix_append _ rest) (by simp; omega)
          have hstrip : stripStart mark (c :: cs) = some (tail ++ back) := by
            rw [strip_start_eq_some_iff, cut_at_text_eq_some hcut, ← List.append_assoc, htail]
            simp
          exact absurd (hnone.symm.trans hstrip) nofun
        simp only [List.cons_append, cutAtText, hnone', ih hcut, Option.map_some]

/-- Where a text is cut does not depend on what follows it. -/
theorem cut_at_text_append_right {mark : List Char}
    (h : cutAtText mark cs = some (before, after)) (rest : List Char) :
    cutAtText mark (cs ++ rest) = some (before, after ++ rest) := by
  rw [cut_at_text_eq_some h, List.append_assoc]
  exact cut_at_text_any_rest h (after ++ rest)

/-! ## Blanks at the ends -/

/-- A text that starts with no blank stays as it is when its start is trimmed. -/
theorem trim_start_cons {c : Char} (h : isBlank c = false) : trimStart (c :: cs) = c :: cs :=
  List.dropWhile_cons_of_neg (by simp [h])

/-- A blank at the start is trimmed. -/
theorem trim_start_cons_blank {c : Char} (h : isBlank c = true) :
    trimStart (c :: cs) = trimStart cs :=
  List.dropWhile_cons_of_pos h

@[simp]
theorem trim_start_trim_start : trimStart (trimStart cs) = trimStart cs := by
  have hhead := List.head?_dropWhile_not isBlank cs
  cases hstart : trimStart cs with
  | nil => rfl
  | cons c rest =>
      rw [trimStart] at hstart
      rw [hstart] at hhead
      exact trim_start_cons (by simpa using hhead)

/-- A text that ends in no blank stays as it is when its end is trimmed. -/
theorem trim_end_append {c : Char} (h : isBlank c = false) : trimEnd (cs ++ [c]) = cs ++ [c] := by
  rw [trimEnd, List.reverse_append, List.reverse_singleton, List.singleton_append,
    List.dropWhile_cons_of_neg (by simp [h]), List.reverse_cons, List.reverse_reverse]

/-- What is trimmed at the end stands behind the last character that is no blank. -/
theorem trim_end_append_cons {c : Char} (h : isBlank c = false) (back : List Char) :
    trimEnd (cs ++ c :: back) = cs ++ c :: trimEnd back := by
  rw [trimEnd, List.reverse_append, List.reverse_cons, List.append_assoc, List.dropWhile_append]
  split
  · rename_i hempty
    have hback : back.reverse.dropWhile isBlank = [] := by simpa using hempty
    simp [trimEnd, hback, h]
  · simp [trimEnd]

/-- When the start of a text that ends in no blank is trimmed, there is nothing to trim at the
end. -/
theorem trim_end_trim_start {c : Char} (h : isBlank c = false) :
    trimEnd (trimStart (cs ++ [c])) = trimStart (cs ++ [c]) := by
  have hsplit : ∃ front, trimStart (cs ++ [c]) = front ++ [c] := by
    rw [trimStart, List.dropWhile_append]
    split
    · exact ⟨[], List.dropWhile_cons_of_neg (by simp [h])⟩
    · exact ⟨cs.dropWhile isBlank, rfl⟩
  obtain ⟨front, hfront⟩ := hsplit
  rw [hfront, trim_end_append h]

/-- A text without blanks stays as it is when it is trimmed. -/
theorem trim_of_no_blank {cs : List Char} (h : ∀ c ∈ cs, isBlank c = false) : trim cs = cs := by
  have hstart (ds : List Char) (hds : ∀ c ∈ ds, isBlank c = false) :
      ds.dropWhile isBlank = ds := by
    cases ds with
    | nil => rfl
    | cons d rest => simp [hds d List.mem_cons_self]
  have hreverse : ∀ c ∈ cs.reverse, isBlank c = false :=
    fun c hc => h c (List.mem_reverse.mp hc)
  simp [trim, trimStart, trimEnd, hstart cs h, hstart cs.reverse hreverse]

/-- Blanks around a text that neither starts nor ends in a blank are trimmed. -/
theorem trim_padded {front middle back : List Char} {first last : Char}
    (hfront : ∀ c ∈ front, isBlank c = true) (hback : ∀ c ∈ back, isBlank c = true)
    (hfirst : isBlank first = false) (hlast : isBlank last = false) :
    trim (front ++ (first :: (middle ++ [last]) ++ back)) = first :: (middle ++ [last]) := by
  have hreverse : ∀ c ∈ back.reverse, isBlank c = true :=
    fun c hc => hback c (List.mem_reverse.mp hc)
  rw [trim, trimStart, List.dropWhile_append_of_pos hfront, List.cons_append, ← trimStart,
    trim_start_cons hfirst, ← List.cons_append, trimEnd, List.reverse_append,
    List.dropWhile_append_of_pos hreverse, ← trimEnd, ← List.cons_append]
  exact trim_end_append hlast

end ChangeFeed.Text
