import ChangeFeed.Text.Blank
import ChangeFeed.Text.Cut
import Mathlib.Data.List.TakeWhile

/-!
# Words between blanks

A text is cut into words at its blanks. `words_around` says that the words up to the last blank in
front of a place do not depend on what follows it, `words_append` how a word goes on, and
`joined_inj` that words that are joined with spaces can be told apart again.
-/

namespace ChangeFeed.Text

/-- Characters that are not blank are read into the current word. -/
theorem go_of_no_blank {word : List Char} (h : ∀ c ∈ word, isBlank c = false)
    (rest current : List Char) :
    words.go (word ++ rest) current = words.go rest (word.reverse ++ current) := by
  induction word generalizing current with
  | nil => rfl
  | cons c word ih =>
      obtain ⟨hc, hword⟩ := List.forall_mem_cons.mp h
      simp [words.go, hc, ih hword]

/-- Words end at a blank. -/
theorem go_append_blank {blank : Char} (h : isBlank blank = true) (front rest current : List Char) :
    words.go (front ++ blank :: rest) current =
      words.go (front ++ [blank]) current ++ words rest := by
  induction front generalizing current with
  | nil => cases current <;> simp [words.go, h, words]
  | cons c front ih =>
      cases hc : isBlank c with
      | false => simp [words.go, hc, ih]
      | true => cases current <;> simp [words.go, hc, ih]

theorem words_cons_blank {blank : Char} (h : isBlank blank = true) (rest : List Char) :
    words (blank :: rest) = words rest := by
  simp [words, words.go, h]

/-- The part of a text behind its last blank. -/
def lastWord (cs : List Char) : List Char :=
  (cs.reverse.takeWhile (!isBlank ·)).reverse

/-- The part of a text up to its last blank. -/
def untilLastBlank (cs : List Char) : List Char :=
  (cs.reverse.dropWhile (!isBlank ·)).reverse

theorem until_last_blank_append (cs : List Char) : untilLastBlank cs ++ lastWord cs = cs := by
  rw [untilLastBlank, lastWord, ← List.reverse_append, List.takeWhile_append_dropWhile,
    List.reverse_reverse]

theorem no_blank_of_mem_last_word {cs : List Char} {c : Char} (h : c ∈ lastWord cs) :
    isBlank c = false := by
  simpa using List.mem_takeWhile_imp (List.mem_reverse.mp h)

/-- Behind its last blank a text goes on as if it started there. -/
theorem words_until_last_blank (cs rest : List Char) :
    words (untilLastBlank cs ++ rest) = words (untilLastBlank cs) ++ words rest := by
  cases hdrop : cs.reverse.dropWhile (!isBlank ·) with
  | nil => simp [untilLastBlank, hdrop, words, words.go]
  | cons blank front =>
      have hblank : isBlank blank = true := by
        have hhead := List.head?_dropWhile_not (!isBlank ·) cs.reverse
        simpa [hdrop] using hhead
      simp only [untilLastBlank, hdrop, List.reverse_cons, List.append_assoc,
        List.singleton_append]
      exact go_append_blank hblank front.reverse rest []

/-- Around a place in a text, the words up to its last blank before the place do not depend on what
follows. -/
theorem words_around (front rest : List Char) :
    words (front ++ rest) = words (untilLastBlank front) ++ words (lastWord front ++ rest) := by
  rw [← words_until_last_blank, ← List.append_assoc, until_last_blank_append]

/-- A part without blanks goes on up to the next blank. -/
theorem words_append {word : List Char} (hne : word ≠ []) (h : ∀ c ∈ word, isBlank c = false)
    (rest : List Char) :
    words (word ++ rest) =
      (word ++ rest.takeWhile (!isBlank ·)) :: words (rest.dropWhile (!isBlank ·)) := by
  have hword : ∀ c ∈ word ++ rest.takeWhile (!isBlank ·), isBlank c = false := by
    intro c hc
    rcases List.mem_append.mp hc with hc | hc
    · exact h c hc
    · simpa using List.mem_takeWhile_imp hc
  have hcurrent : (word ++ rest.takeWhile (!isBlank ·)).reverse ≠ [] := by simp [hne]
  have hhead := List.head?_dropWhile_not (!isBlank ·) rest
  have hsplit : word ++ rest =
      (word ++ rest.takeWhile (!isBlank ·)) ++ rest.dropWhile (!isBlank ·) := by
    rw [List.append_assoc, List.takeWhile_append_dropWhile]
  rw [words, hsplit, go_of_no_blank hword, List.append_nil]
  -- The word read so far is not empty, so the blank behind it ends a word.
  generalize word ++ rest.takeWhile (!isBlank ·) = run at hcurrent ⊢
  cases hdrop : rest.dropWhile (!isBlank ·) with
  | nil =>
      obtain ⟨c, current, hcons⟩ := List.exists_cons_of_ne_nil hcurrent
      simp [words.go, words, hcons, ← List.reverse_eq_iff.mp hcons]
  | cons blank after =>
      have hblank : isBlank blank = true := by simpa [hdrop] using hhead
      simp [words.go, words, hblank, List.reverse_ne_nil_iff.mp hcurrent]

/-- Words are not empty and have no blanks. -/
theorem no_blank_of_mem_words {cs word : List Char} (h : word ∈ words cs) :
    word ≠ [] ∧ ∀ c ∈ word, isBlank c = false := by
  have hgo (rest current : List Char) (hcurrent : ∀ c ∈ current, isBlank c = false)
      (hmem : word ∈ words.go rest current) : word ≠ [] ∧ ∀ c ∈ word, isBlank c = false := by
    fun_induction words.go rest current with
    | case1 => simp at hmem
    | case2 current hne =>
        obtain rfl := List.mem_singleton.mp hmem
        exact ⟨by simpa using hne, fun c hc => hcurrent c (List.mem_reverse.mp hc)⟩
    | case3 current c rest _ _ ih => exact ih (by simp) hmem
    | case4 current c rest _ hne ih =>
        rcases List.mem_cons.mp hmem with rfl | hmem
        · exact ⟨by simpa using hne, fun c hc => hcurrent c (List.mem_reverse.mp hc)⟩
        · exact ih (by simp) hmem
    | case5 current c rest hc ih =>
        exact ih (List.forall_mem_cons.mpr ⟨by simpa using hc, hcurrent⟩) hmem
  exact hgo cs [] (by simp) h

/-- A word is a part of its text. -/
theorem infix_of_mem_words {cs word : List Char} (h : word ∈ words cs) : word <:+: cs := by
  have hgo (rest current : List Char) (hmem : word ∈ words.go rest current) :
      word <:+: current.reverse ++ rest := by
    fun_induction words.go rest current with
    | case1 => simp at hmem
    | case2 current hne =>
        obtain rfl := List.mem_singleton.mp hmem
        exact (List.prefix_append _ _).isInfix
    | case3 c rest current _ _ ih =>
        exact (ih hmem).trans ⟨current.reverse ++ [c], [], by simp⟩
    | case4 c rest current _ _ ih =>
        rcases List.mem_cons.mp hmem with rfl | hmem
        · exact (List.prefix_append _ _).isInfix
        · exact (ih hmem).trans ⟨current.reverse ++ [c], [], by simp⟩
    | case5 c rest current _ ih => simpa using ih hmem
  exact hgo cs [] h

/-- A part without blanks is a part of a word. -/
theorem exists_word_of_infix {part cs : List Char} (hne : part ≠ [])
    (hblank : ∀ c ∈ part, isBlank c = false) (h : part <:+: cs) :
    ∃ word ∈ words cs, part <:+: word := by
  obtain ⟨front, back, rfl⟩ := h
  have hword : ∀ c ∈ lastWord front ++ part, isBlank c = false := fun c hc =>
    (List.mem_append.mp hc).elim no_blank_of_mem_last_word (hblank c)
  have hlast := words_append (by simp [hne]) hword back
  rw [List.append_assoc] at hlast
  rw [List.append_assoc, words_around, hlast]
  exact ⟨_, by simp, ⟨lastWord front, back.takeWhile (!isBlank ·), rfl⟩⟩

/-- Words that are joined with spaces are read again. -/
theorem words_joined {texts : List String}
    (h : ∀ text ∈ texts, text ≠ "" ∧ ∀ c ∈ text.toList, isBlank c = false) :
    words (joined " " texts).toList = texts.map String.toList := by
  induction texts with
  | nil => rfl
  | cons text texts ih =>
      obtain ⟨⟨hne, htext⟩, htexts⟩ := List.forall_mem_cons.mp h
      have hne : text.toList ≠ [] := by simpa using hne
      by_cases hlast : texts = []
      · subst hlast
        have hone := words_append hne htext []
        simpa [joined, words, words.go] using hone
      · have hrest := ih htexts
        have hmany := words_append hne htext (' ' :: (joined " " texts).toList)
        have hblank : isBlank ' ' = true := rfl
        rw [List.takeWhile_cons_of_neg (by simp [hblank]), List.append_nil,
          List.dropWhile_cons_of_neg (by simp [hblank]), words_cons_blank hblank, hrest] at hmany
        rw [joined, String.intercalate_cons_of_ne_nil hlast]
        simpa [joined] using hmany

/-- Words that are joined with spaces can be told apart again. -/
theorem joined_inj {texts others : List String}
    (htexts : ∀ text ∈ texts, text ≠ "" ∧ ∀ c ∈ text.toList, isBlank c = false)
    (hothers : ∀ text ∈ others, text ≠ "" ∧ ∀ c ∈ text.toList, isBlank c = false) :
    joined " " texts = joined " " others ↔ texts = others := by
  refine ⟨fun h => ?_, fun h => by rw [h]⟩
  have hmap : texts.map String.toList = others.map String.toList := by
    rw [← words_joined htexts, ← words_joined hothers, h]
  exact (List.map_inj_right fun _ _ => String.toList_inj.mp).mp hmap

end ChangeFeed.Text
