import ChangeFeed.Plugin.LineForm
import ChangeFeed.Proofs.Text.Cut

/-!
# Names and values as lines spell them

How a line spells a name and a value, and that either is read back in front of what may follow it
(`take_name_spelled`, `take_literal_spelled`). A mark inside quotes is doubled, so the first one
that stands alone closes them.
-/

namespace ChangeFeed.Plugin

/-- A text in which every mark stands twice. -/
def doubled (mark : Char) (cs : List Char) : List Char :=
  cs.flatMap fun c => if c = mark then [c, c] else [c]

theorem doubled_cons_self (mark : Char) (cs : List Char) :
    doubled mark (mark :: cs) = mark :: mark :: doubled mark cs := by
  simp [doubled]

theorem doubled_cons_of_ne {mark c : Char} (h : c ≠ mark) (cs : List Char) :
    doubled mark (c :: cs) = c :: doubled mark cs := by
  simp [doubled, h]

/-! ## Names -/

/-- Whether a character may start a name without quotes. -/
def isNameStart (c : Char) : Bool :=
  ('a' ≤ c && c ≤ 'z') || c == '_'

/-- Whether a character may stand in a name without quotes. -/
def isNameChar (c : Char) : Bool :=
  isNameStart c || ('0' ≤ c && c ≤ '9')

/-- Whether a name needs no quotes. -/
def isPlainName : List Char → Bool
  | [] => false
  | c :: cs => isNameStart c && cs.all isNameChar

/-- A name as lines spell it: as it is, or in double quotes. -/
def spelledName (name : String) : List Char :=
  if isPlainName name.toList then name.toList
  else '"' :: (doubled '"' name.toList ++ ['"'])

/-- A way to spell a name. Any name can stand in double quotes. -/
inductive NameSpelling where
  | plain (name : String) (h : isPlainName name.toList = true)
  | quoted (name : String)

namespace NameSpelling

/-- The name that is spelled. -/
def name : NameSpelling → String
  | .plain name _ => name
  | .quoted name => name

/-- Whether the name stands as it is. -/
def isPlain : NameSpelling → Bool
  | .plain _ _ => true
  | .quoted _ => false

/-- The name in the line. -/
def text : NameSpelling → List Char
  | .plain name _ => name.toList
  | .quoted name => '"' :: (doubled '"' name.toList ++ ['"'])

end NameSpelling

/-- Lines spell a name in one of the two ways. -/
theorem spelled_name_eq (name : String) :
    ∃ spelling : NameSpelling, spelledName name = spelling.text ∧ spelling.name = name := by
  unfold spelledName
  by_cases hplain : isPlainName name.toList = true
  · exact ⟨.plain name hplain, if_pos hplain, rfl⟩
  · exact ⟨.quoted name, if_neg hplain, rfl⟩

theorem is_name_char_of_plain {cs : List Char} (h : isPlainName cs = true) :
    ∀ c ∈ cs, isNameChar c = true := by
  cases cs with
  | nil => simp
  | cons c cs =>
      obtain ⟨hc, hcs⟩ := Bool.and_eq_true_iff.mp h
      refine List.forall_mem_cons.mpr ⟨?_, List.all_eq_true.mp hcs⟩
      rw [isNameChar, hc, Bool.true_or]

namespace LineForm

/-- Between quotes a name with its quotes doubled is read back. -/
theorem take_quoted_name_doubled {rest : List Char} (h : '"' ∉ rest.head?) (name : List Char) :
    takeQuotedName (doubled '"' name ++ '"' :: rest) = some (name, rest) := by
  induction name with
  | nil =>
      cases rest with
      | nil => rfl
      | cons r rest =>
          have hr : r ≠ '"' := by simpa using h
          simp [doubled, takeQuotedName, hr]
  | cons c name ih =>
      by_cases hc : c = '"'
      · subst hc
        simp [doubled_cons_self, takeQuotedName, ih]
      · simp [doubled_cons_of_ne hc, takeQuotedName, hc, ih]

/-- A name in quotes is read back in front of anything but another quote. -/
theorem take_name_quoted (ends : List Char) (name : List Char) {rest : List Char}
    (hrest : '"' ∉ rest.head?) :
    takeName ends ('"' :: (doubled '"' name ++ '"' :: rest)) = some (name, rest) := by
  rw [takeName, take_quoted_name_doubled hrest]

/-- A name that starts with no quote goes up to the first character that ends names. -/
theorem take_name_unquoted {ends before after : List Char} {found : Char} (hne : before ≠ [])
    (hquote : '"' ∉ before.head?) (hbefore : ∀ c ∈ before, c ∉ ends) (hfound : found ∈ ends) :
    takeName ends (before ++ found :: after) = some (before, found :: after) := by
  have hcut : Text.cutWhere (ends.contains ·) (before ++ found :: after) =
      some (before, found, after) := by
    refine Text.cut_where_eq_some_iff.mpr ⟨rfl, List.contains_iff_mem.mpr hfound, ?_⟩
    intro c hc
    exact Bool.eq_false_iff.mpr fun hend => hbefore c hc (List.contains_iff_mem.mp hend)
  obtain ⟨c, cs, rfl⟩ := List.exists_cons_of_ne_nil hne
  unfold takeName
  split
  · rename_i heq
    obtain ⟨rfl, -⟩ := List.cons.inj heq
    exact absurd rfl hquote
  · rw [hcut]

/-- A plain name starts with no quote. -/
theorem not_quote_of_plain {name : List Char} (h : isPlainName name = true) :
    name ≠ [] ∧ '"' ∉ name.head? := by
  cases name with
  | nil => exact absurd h (by decide)
  | cons c cs =>
      refine ⟨List.cons_ne_nil c cs, ?_⟩
      rintro ⟨⟩
      exact absurd (is_name_char_of_plain h '"' List.mem_cons_self) (by decide)

/-- Either way, a name is read back in front of a character that ends names. -/
theorem take_name_spelling {ends : List Char} {found : Char} (hfound : found ∈ ends)
    (hends : ∀ c ∈ ends, isNameChar c = false ∧ c ≠ '"') (name : NameSpelling)
    (rest : List Char) :
    takeName ends (name.text ++ found :: rest) = some (name.name.toList, found :: rest) := by
  cases name with
  | plain name hplain =>
      obtain ⟨hne, hquote⟩ := not_quote_of_plain hplain
      refine take_name_unquoted hne hquote (fun c hc hend => ?_) hfound
      exact absurd (is_name_char_of_plain hplain c hc) (by simp [(hends c hend).1])
  | quoted name =>
      have hnext : '"' ∉ (found :: rest).head? := by
        simpa using (hends found hfound).2
      simpa [NameSpelling.text, NameSpelling.name] using take_name_quoted ends name.toList hnext

/-- A spelled name is read back in front of a character that ends names. -/
theorem take_name_spelled (ends : List Char) (found : Char) (hfound : found ∈ ends)
    (hends : ∀ c ∈ ends, isNameChar c = false ∧ c ≠ '"') (name : String) (rest : List Char) :
    takeName ends (spelledName name ++ found :: rest) = some (name.toList, found :: rest) := by
  obtain ⟨spelling, htext, hname⟩ := spelled_name_eq name
  rw [htext, take_name_spelling hfound hends, hname]

end LineForm

/-! ## Values -/

/-- A bare word that is no other value: it has no blanks, starts with no quote and is neither of
the two words with a meaning. -/
structure BareWord where
  text : List Char
  nonempty : text ≠ []
  no_blank : ∀ c ∈ text, Text.isBlank c = false
  no_quote : '\'' ∉ text.head?
  no_meaning : String.ofList text ≠ "null" ∧ String.ofList text ≠ "unchanged-toast-datum"

/-- A value as a line spells it. -/
inductive SpelledValue where
  | null
  | unchangedToast
  | bare (word : BareWord)
  | quoted (text : String)

namespace SpelledValue

/-- The literal of a value. -/
def literal : SpelledValue → List Char
  | .null => "null".toList
  | .unchangedToast => "unchanged-toast-datum".toList
  | .bare word => word.text
  | .quoted text => '\'' :: (doubled '\'' text.toList ++ ['\''])

/-- The value that is spelled. -/
def value : SpelledValue → RawValue
  | .null => .null
  | .unchangedToast => .unchangedToast
  | .bare word => .text (String.ofList word.text)
  | .quoted text => .text text

@[simp]
theorem literal_null : null.literal = "null".toList :=
  rfl

@[simp]
theorem literal_unchanged_toast : unchangedToast.literal = "unchanged-toast-datum".toList :=
  rfl

@[simp]
theorem literal_bare (word : BareWord) : (bare word).literal = word.text :=
  rfl

@[simp]
theorem literal_quoted (text : String) :
    (quoted text).literal = '\'' :: (doubled '\'' text.toList ++ ['\'']) :=
  rfl

/-- A literal does not end in a blank. -/
theorem literal_ends (value : SpelledValue) :
    ∃ front last, value.literal = front ++ [last] ∧ Text.isBlank last = false := by
  cases value with
  | null => exact ⟨['n', 'u', 'l'], 'l', rfl, rfl⟩
  | unchangedToast => exact ⟨"unchanged-toast-datu".toList, 'm', rfl, rfl⟩
  | bare word =>
      refine ⟨word.text.dropLast, word.text.getLast word.nonempty, ?_, ?_⟩
      · exact (List.dropLast_append_getLast word.nonempty).symm
      · exact word.no_blank _ (List.getLast_mem word.nonempty)
  | quoted text => exact ⟨'\'' :: doubled '\'' text.toList, '\'', rfl, rfl⟩

end SpelledValue

/-- Doubled quotes are single ones again. -/
theorem undouble_doubled (cs : List Char) : undouble (doubled '\'' cs) = cs := by
  induction cs with
  | nil => rfl
  | cons c cs ih =>
      by_cases hc : c = '\''
      · subst hc
        rw [doubled_cons_self, undouble, ih]
      · rw [doubled_cons_of_ne hc]
        simp [undouble, hc, ih]

namespace LineForm

/-- Between quotes a text with its quotes doubled is one literal. -/
theorem take_quoted_literal_doubled {rest : List Char} (h : '\'' ∉ rest.head?) (cs : List Char) :
    takeQuotedLiteral (doubled '\'' cs ++ '\'' :: rest) =
      some (doubled '\'' cs ++ ['\''], rest) := by
  induction cs with
  | nil =>
      cases rest with
      | nil => rfl
      | cons r rest =>
          have hr : r ≠ '\'' := by simpa using h
          simp [doubled, takeQuotedLiteral, hr]
  | cons c cs ih =>
      by_cases hc : c = '\''
      · subst hc
        simp [doubled_cons_self, takeQuotedLiteral, ih]
      · simp [doubled_cons_of_ne hc, takeQuotedLiteral, hc, ih]

/-- A word without blanks and without a quote at its start is one literal. -/
theorem take_literal_word {word rest : List Char} (hne : word ≠ [])
    (hblank : ∀ c ∈ word, Text.isBlank c = false) (hquote : '\'' ∉ word.head?)
    (hrest : ∀ c ∈ rest.head?, c = ' ') : takeLiteral (word ++ rest) = some (word, rest) := by
  have hword : ∀ c ∈ word, (c != ' ') = true := by
    intro c hc
    rw [bne_iff_ne]
    rintro rfl
    exact absurd (hblank ' ' hc) (by decide)
  have htake : rest.takeWhile (· != ' ') = [] := by
    cases rest with
    | nil => rfl
    | cons c rest => simp [hrest c rfl]
  have hdrop : rest.dropWhile (· != ' ') = rest := by
    cases rest with
    | nil => rfl
    | cons c rest => simp [hrest c rfl]
  unfold takeLiteral
  split
  · rename_i heq
    obtain ⟨c, cs, rfl⟩ := List.exists_cons_of_ne_nil hne
    obtain ⟨rfl, -⟩ := List.cons.inj heq
    exact absurd rfl hquote
  · rw [List.takeWhile_append_of_pos hword, List.dropWhile_append_of_pos hword, htake, hdrop,
      List.append_nil]

/-- A spelled value is one literal at the end or in front of a space. -/
theorem take_literal_spelled (value : SpelledValue) {rest : List Char}
    (hrest : ∀ c ∈ rest.head?, c = ' ') :
    takeLiteral (value.literal ++ rest) = some (value.literal, rest) := by
  cases value with
  | null => exact take_literal_word (by decide) (by simp [Text.isBlank]) (by decide) hrest
  | unchangedToast =>
      exact take_literal_word (by decide) (by simp [Text.isBlank]) (by decide) hrest
  | bare word => exact take_literal_word word.nonempty word.no_blank word.no_quote hrest
  | quoted text =>
      have hnext : '\'' ∉ rest.head? := fun h => absurd (hrest '\'' h) (by decide)
      have hquoted := take_quoted_literal_doubled hnext text.toList
      simp [takeLiteral, hquoted]

end LineForm

/-- A text that starts with no quote and is no word with a meaning shows itself. -/
theorem literal_value_bare {cs : List Char} (hquote : '\'' ∉ cs.head?)
    (hmeaning : String.ofList cs ≠ "null" ∧ String.ofList cs ≠ "unchanged-toast-datum") :
    literalValue cs = .text (String.ofList cs) := by
  have hpart : quotedPart cs = none := by
    unfold quotedPart
    split
    · exact absurd rfl hquote
    · rfl
  rw [literalValue, if_neg hmeaning.1, if_neg hmeaning.2, hpart]

/-- A text in quotes with its own quotes doubled shows that text. -/
theorem literal_value_quoted (text : String) :
    literalValue ('\'' :: (doubled '\'' text.toList ++ ['\''])) = .text text := by
  have hpart : quotedPart ('\'' :: (doubled '\'' text.toList ++ ['\''])) =
      some (doubled '\'' text.toList) := by
    simp [quotedPart]
  have hword (word : String) (h : '\'' ∉ word.toList.head?) :
      String.ofList ('\'' :: (doubled '\'' text.toList ++ ['\''])) ≠ word := by
    rintro rfl
    simp at h
  rw [literalValue, if_neg (hword "null" (by decide)),
    if_neg (hword "unchanged-toast-datum" (by decide)), hpart]
  simp only [undouble_doubled, String.ofList_toList]

/-- A literal shows the value that is spelled. -/
theorem literal_value_spelled (value : SpelledValue) :
    literalValue value.literal = value.value := by
  cases value with
  | null => rfl
  | unchangedToast => rfl
  | bare word => exact literal_value_bare word.no_quote word.no_meaning
  | quoted text => exact literal_value_quoted text

end ChangeFeed.Plugin
