import ChangeFeed.Proofs.ColumnType.Marks

/-!
# Words of type names

A name is made of words of small letters and digits with single spaces between them. Modifiers in
parentheses stand behind the words (`of_name_behind`) or between two of them (`of_name_between`).
The base is then that of the words alone, however many blanks there are around the parentheses.
-/

namespace ChangeFeed.ColumnType

open Text (AreBlank)

variable {cs first rest gap gap' inside : List Char}

/-! ## Characters -/

/-- The characters that separate modifiers or enclose them, and marks. -/
def outsiders : List Char := [',', '(', ')', '_', ']']

/-- What is not outside of modifiers is none of the characters there. -/
theorem ne_of_inside {c : Char} (h : c ∉ outsiders) :
    c ≠ ',' ∧ c ≠ '(' ∧ c ≠ ')' ∧ c ≠ '_' ∧ c ≠ ']' := by
  simpa [outsiders] using h

/-- Digits are small, and are neither blanks nor outside of modifiers. -/
theorem digit_char {digit : Nat} (h : digit < 10) :
    Text.isBlank (Number.digitChar digit) = false ∧
      (Number.digitChar digit).toLower = Number.digitChar digit ∧
      Number.digitChar digit ∉ outsiders := by
  have hdigits : ∀ digit < 10, Text.isBlank (Number.digitChar digit) = false ∧
      (Number.digitChar digit).toLower = Number.digitChar digit ∧
      Number.digitChar digit ∉ outsiders := by decide
  exact hdigits digit h

/-- Blanks are small and not outside of modifiers. -/
theorem blank_char {c : Char} (hc : Text.isBlank c = true) : c.toLower = c ∧ c ∉ outsiders := by
  have hblank : AreBlank [c] := by simpa [AreBlank] using hc
  have hlower := Text.lower_of_blank hblank
  refine ⟨(List.cons.inj hlower).1, fun hmem => ?_⟩
  have houtsiders : ∀ d ∈ outsiders, Text.isBlank d = false := by
    simp only [outsiders, List.forall_mem_cons]
    exact ⟨rfl, rfl, rfl, rfl, rfl, List.forall_mem_nil _⟩
  exact Bool.false_ne_true ((houtsiders c hmem).symm.trans hc)

/-- What may stand between parentheses: it is small, and but for commas it is not outside of
modifiers. -/
def AreInside (cs : List Char) : Prop :=
  ∀ c ∈ cs, c.toLower = c ∧ (c = ',' ∨ c ∉ outsiders)

/-- What stands between parentheses does not close them, and is no mark. -/
theorem ne_of_are_inside (h : AreInside cs) {c : Char} (hc : c ∈ cs) :
    c ≠ ')' ∧ c ≠ '_' ∧ c ≠ ']' := by
  rcases (h c hc).2 with rfl | hinside
  · decide
  · exact (ne_of_inside hinside).2.2

/-! ## Words -/

/-- Words of small letters and digits, with single spaces between them. -/
structure AreWords (cs : List Char) : Prop where
  chars : ∀ c ∈ cs, c = ' ' ∨ c.isLower = true ∨ c.isDigit = true
  first : ' ' ∉ cs.head?
  last : ' ' ∉ cs.getLast?
  single : ¬ [' ', ' '] <:+: cs

/-- Whether a text is made of words can be computed. -/
instance (cs : List Char) : Decidable (AreWords cs) :=
  decidable_of_iff
    (cs.all (fun c => c == ' ' || (c.isLower || c.isDigit)) = true ∧ ' ' ∉ cs.head? ∧
      ' ' ∉ cs.getLast? ∧ ¬ [' ', ' '] <:+: cs)
    ⟨fun ⟨hchars, hfirst, hlast, hsingle⟩ => ⟨by simpa using hchars, hfirst, hlast, hsingle⟩,
      fun h => ⟨by simpa using h.chars, h.first, h.last, h.single⟩⟩

/-- There may be no words. -/
theorem are_words_nil : AreWords [] := by
  decide

/-- What stands in words is small and not outside of modifiers, and is no blank other than a
space. -/
theorem word_char (h : AreWords cs) {c : Char} (hc : c ∈ cs) :
    c.toLower = c ∧ c ∉ outsiders ∧ (c = ' ' ∨ Text.isBlank c = false) := by
  have houtsiders : ∀ d ∈ outsiders, ¬ (d.isLower = true ∨ d.isDigit = true) := by
    simp only [outsiders, List.forall_mem_cons]
    exact ⟨by decide, by decide, by decide, by decide, by decide, List.forall_mem_nil _⟩
  rcases h.chars c hc with rfl | hkept
  · decide
  · have hupper : ¬ c.isUpper = true := by
      rcases hkept with hlower | hdigit
      · exact Char.not_isUpper_of_isLower hlower
      · intro hupper
        simp only [Char.isUpper, Char.isDigit, Bool.and_eq_true, decide_eq_true_eq,
          UInt32.le_iff_toNat_le, ge_iff_le] at hdigit hupper
        exact absurd (hupper.1.trans hdigit.2) (by decide)
    have halphanum : c.isAlphanum = true := by
      rcases hkept with hlower | hdigit
      · simp [Char.isAlphanum, Char.isAlpha, hlower]
      · simp [Char.isAlphanum, hdigit]
    exact ⟨Char.toLower_eq_of_not_isUpper hupper, fun hmem => houtsiders c hmem hkept,
      .inr (Text.not_blank_of_alphanum halphanum)⟩

/-- Words have no blanks at their ends. -/
theorem words_ends (h : AreWords cs) :
    (∀ c ∈ cs.head?, Text.isBlank c = false) ∧ ∀ c ∈ cs.getLast?, Text.isBlank c = false := by
  refine ⟨fun c hc => ?_, fun c hc => ?_⟩
  · refine (word_char h (List.mem_of_mem_head? hc)).2.2.resolve_left ?_
    rintro rfl
    exact h.first hc
  · refine (word_char h (List.mem_of_mem_getLast? hc)).2.2.resolve_left ?_
    rintro rfl
    exact h.last hc

/-- Nothing is trimmed from words. -/
theorem words_trimmed (h : AreWords cs) :
    Text.trimStart cs = cs ∧ Text.trimEnd cs = cs ∧ Text.trim cs = cs := by
  obtain ⟨hfirst, hlast⟩ := words_ends h
  exact ⟨Text.trim_start_of_first hfirst, Text.trim_end_of_last hlast,
    Text.trim_of_ends hfirst hlast⟩

/-- What stands in front of a space and behind it are words. -/
theorem words_of_append (h : AreWords (first ++ ' ' :: rest)) :
    first ≠ [] ∧ AreWords first ∧ AreWords rest := by
  have hfirst : first ≠ [] := by
    rintro rfl
    exact h.first rfl
  have hrest : rest ≠ [] := by
    rintro rfl
    exact h.last (by simp)
  have hback : rest <:+ first ++ ' ' :: rest :=
    (List.suffix_cons ' ' rest).trans (List.suffix_append first _)
  refine ⟨hfirst, ⟨?_, ?_, fun hlast => ?_, fun hdouble => ?_⟩,
    ⟨?_, fun hblank => ?_, fun hlast => ?_, fun hdouble => ?_⟩⟩
  · exact fun c hc => h.chars c (List.mem_append_left _ hc)
  · exact List.head?_append_of_ne_nil first hfirst ▸ h.first
  · obtain ⟨front, hfront⟩ := List.getLast?_eq_some_iff.mp hlast
    exact h.single ⟨front, rest, by simp [hfront]⟩
  · exact h.single (hdouble.trans (List.prefix_append first _).isInfix)
  · exact fun c hc => h.chars c (hback.subset hc)
  · obtain ⟨back, rfl⟩ := List.head?_eq_some_iff.mp hblank
    exact h.single ⟨first, back, by simp⟩
  · obtain ⟨front, hfront⟩ := hback
    refine h.last ?_
    rw [← hfront, List.getLast?_append_of_ne_nil front hrest]
    exact hlast
  · exact h.single (hdouble.trans hback.isInfix)

/-! ## Names without marks -/

/-- Characters of names that stay as they are: small ones that are no marks. -/
def AreUnmarked (cs : List Char) : Prop :=
  ∀ c ∈ cs, c.toLower = c ∧ c ≠ '_' ∧ c ≠ ']'

/-- Characters that are small and not outside of modifiers stay as they are. -/
theorem are_unmarked_of_inside (h : ∀ c ∈ cs, c.toLower = c ∧ c ∉ outsiders) : AreUnmarked cs :=
  fun c hc => ⟨(h c hc).1, (ne_of_inside (h c hc).2).2.2.2⟩

/-- A name in small letters without marks, and without blanks around it, is that of its base with
modifiers. -/
theorem of_name_small (hsmall : AreUnmarked cs) (htrim : Text.trim cs = cs) :
    ofNameChars cs = ofBase (String.ofList (splitModifiers cs).1) (splitModifiers cs).2 := by
  have hlower : Text.lower cs = cs :=
    (List.map_congr_left fun c hc => (hsmall c hc).1).trans cs.map_id
  have hunmarked : IsUnmarked cs := by
    rw [IsUnmarked, htrim]
    refine ⟨fun hends => ?_, fun hstarts => ?_⟩
    · exact (hsmall ']' (hends.subset (by simp))).2.2 rfl
    · exact (hsmall '_' (hstarts.subset (by simp))).2.1 rfl
  rw [of_name_unmarked hunmarked, normalName, htrim, hlower]

/-- The characters of words stay as they are. -/
theorem are_unmarked_words (h : AreWords cs) : AreUnmarked cs :=
  are_unmarked_of_inside fun _ hc => ⟨(word_char h hc).1, (word_char h hc).2.1⟩

/-- Words without modifiers are the base themselves. -/
theorem of_name_words (h : AreWords cs) : ofNameChars cs = ofBase (String.ofList cs) [] := by
  have hopen : '(' ∉ cs := fun hmem => (word_char h hmem).2.1 (by decide)
  have hsplit : splitModifiers cs = (cs, []) := by
    rw [splitModifiers, Text.cut_at_eq_none_iff.mpr hopen]
  rw [of_name_small (are_unmarked_words h) (words_trimmed h).2.2, hsplit]

/-! ## Names with modifiers -/

/-- Modifiers between words, with blanks around the parentheses, are split from the words, which
have a space between them then. -/
theorem split_modifiers_words (hfirst : AreWords first) (hrest : AreWords rest)
    (hgap : AreBlank gap) (hgap' : AreBlank gap') (hinside : AreInside inside) :
    splitModifiers (first ++ (gap ++ '(' :: (inside ++ ')' :: (gap' ++ rest)))) =
      (Text.trim (first ++ ' ' :: rest), modifiersOf inside) := by
  have hbefore : ∀ c ∈ first ++ gap, c ≠ '(' ∧ c ≠ ')' := by
    intro c hc
    have hplain : c ∉ outsiders := by
      rcases List.mem_append.mp hc with hc | hc
      · exact (word_char hfirst hc).2.1
      · exact (blank_char (hgap c hc)).2
    obtain ⟨-, hopen, hclose, -⟩ := ne_of_inside hplain
    exact ⟨hopen, hclose⟩
  have hclosed : ¬ (first ++ gap).contains ')' = true := fun hmem =>
    (hbefore ')' (List.contains_iff_mem.mp hmem)).2 rfl
  rw [← List.append_assoc, splitModifiers, Text.cut_at_append fun c hc => (hbefore c hc).1]
  simp only [if_neg hclosed, Text.cut_at_append fun c hc => (ne_of_are_inside hinside hc).1,
    Text.trim_end_append_blank hgap, Text.trim_start_blank_append hgap',
    (words_trimmed hfirst).2.1, (words_trimmed hrest).1]

/-- The characters of words with modifiers between them stay as they are. -/
theorem are_unmarked_modified (hfirst : AreWords first) (hrest : AreWords rest)
    (hgap : AreBlank gap) (hgap' : AreBlank gap') (hinside : AreInside inside) :
    AreUnmarked (first ++ (gap ++ '(' :: (inside ++ ')' :: (gap' ++ rest)))) := by
  have hblanks {ds : List Char} (h : AreBlank ds) : AreUnmarked ds :=
    are_unmarked_of_inside fun c hc => blank_char (h c hc)
  have hmodifiers : AreUnmarked inside := fun c hc =>
    ⟨(hinside c hc).1, (ne_of_are_inside hinside hc).2⟩
  simp only [AreUnmarked, List.forall_mem_append, List.forall_mem_cons]
  exact ⟨are_unmarked_words hfirst, hblanks hgap, by decide, hmodifiers, by decide, hblanks hgap',
    are_unmarked_words hrest⟩

/-- A name with modifiers behind its words is that of the words. -/
theorem of_name_behind (hne : cs ≠ []) (hwords : AreWords cs) (hgap : AreBlank gap)
    (hinside : AreInside inside) :
    ofNameChars (cs ++ (gap ++ '(' :: (inside ++ [')']))) =
      ofBase (String.ofList cs) (modifiersOf inside) := by
  have hsmall := are_unmarked_modified hwords are_words_nil hgap Text.are_blank_nil hinside
  have hsplit := split_modifiers_words hwords are_words_nil hgap Text.are_blank_nil hinside
  have htrim : Text.trim (cs ++ (gap ++ '(' :: (inside ++ [')']))) =
      cs ++ (gap ++ '(' :: (inside ++ [')'])) := by
    refine Text.trim_of_ends ?_ ?_
    · rw [List.head?_append_of_ne_nil cs hne]
      exact (words_ends hwords).1
    · have hend : cs ++ (gap ++ '(' :: (inside ++ [')'])) =
          (cs ++ (gap ++ '(' :: inside)) ++ [')'] := by simp
      rw [hend, List.getLast?_concat]
      simp only [Option.mem_some_iff, forall_eq']
      rfl
  -- The space that stands for the parentheses has nothing behind it.
  have hbare : Text.trim (cs ++ [' ']) = cs := by
    rw [Text.trim_append_blank (by decide), (words_trimmed hwords).2.2]
  simp only [List.append_nil] at hsmall hsplit
  rw [of_name_small hsmall htrim, hsplit, hbare]

/-- A name with modifiers between its words is that of the words with a space there. -/
theorem of_name_between (h : AreWords (first ++ ' ' :: rest)) (hgap : AreBlank gap)
    (hgap' : AreBlank gap') (hinside : AreInside inside) :
    ofNameChars (first ++ (gap ++ '(' :: (inside ++ ')' :: (gap' ++ rest)))) =
      ofBase (String.ofList (first ++ ' ' :: rest)) (modifiersOf inside) := by
  obtain ⟨hne, hfirst, hrest⟩ := words_of_append h
  have hback : rest ≠ [] := by
    rintro rfl
    exact h.last (by simp)
  have htrim : Text.trim (first ++ (gap ++ '(' :: (inside ++ ')' :: (gap' ++ rest)))) =
      first ++ (gap ++ '(' :: (inside ++ ')' :: (gap' ++ rest))) := by
    refine Text.trim_of_ends ?_ ?_
    · rw [List.head?_append_of_ne_nil first hne]
      exact (words_ends hfirst).1
    · have hend : first ++ (gap ++ '(' :: (inside ++ ')' :: (gap' ++ rest))) =
          (first ++ (gap ++ '(' :: (inside ++ ')' :: gap'))) ++ rest := by simp
      rw [hend, List.getLast?_append_of_ne_nil _ hback]
      exact (words_ends hrest).2
  rw [of_name_small (are_unmarked_modified hfirst hrest hgap hgap' hinside) htrim,
    split_modifiers_words hfirst hrest hgap hgap' hinside, (words_trimmed h).2.2]

end ChangeFeed.ColumnType
