import ChangeFeed.Proofs.Except
import ChangeFeed.Value.Read
import Mathlib.Data.List.Forall2

/-!
# Array literals read back

How the server prints a one-dimensional array (`ArrayLiteral.Renders`), and that reading it as an
array of any type gives each element in its place, or the error of the first one that is no literal
of the type (`Value.of_literal_rendered`). An element of an array of arrays is an array literal
itself. The scanner is followed element by element: a bare one to the next comma, a quoted one to
its closing quote.
-/

namespace ChangeFeed

namespace ArrayLiteral

/-! ## How arrays are printed -/

/-- White space in array literals. -/
def isSpace (c : Char) : Bool :=
  c == ' ' || c == '\t' || c == '\n' || c == '\x0b' || c == '\x0c' || c == '\r'

/-- The characters that mean something in an array literal. -/
def isSpecial (c : Char) : Bool :=
  c == '"' || c == '\\' || c == '\x7b' || c == '\x7d' || c == ',' || isSpace c

/-- An element that stands in quotes in any case: the empty one, the word `NULL` in any case, and
one with a special character. -/
def NeedsQuotes (cs : List Char) : Prop :=
  cs = [] ∨ cs.map Char.toLower = ['n', 'u', 'l', 'l'] ∨ ∃ c ∈ cs, isSpecial c = true

/-- A text with a backslash in front of every quote and every backslash. -/
def escaped (cs : List Char) : List Char :=
  cs.flatMap fun c => if c = '"' ∨ c = '\\' then ['\\', c] else [c]

/-- An element and what is printed for it. One that needs no quotes may stand in quotes. -/
inductive RendersElement : Option String → List Char → Prop where
  | null : RendersElement none ['N', 'U', 'L', 'L']
  | quoted (text : String) : RendersElement (some text) ('"' :: (escaped text.toList ++ ['"']))
  | bare {text : String} (h : ¬ NeedsQuotes text.toList) : RendersElement (some text) text.toList

/-- Elements and what is printed for them, with commas between neighbours. There is at least one. -/
inductive RendersElements : List (Option String) → List Char → Prop where
  | last {part : Option String} {cs : List Char} (h : RendersElement part cs) :
      RendersElements [part] cs
  | more {part : Option String} {parts : List (Option String)} {cs rest : List Char}
      (h : RendersElement part cs) (hrest : RendersElements parts rest) :
      RendersElements (part :: parts) (cs ++ ',' :: rest)

/-- An array and what is printed for it. -/
inductive Renders : List (Option String) → String → Prop where
  | empty : Renders [] (String.ofList ['\x7b', '\x7d'])
  | elements {parts : List (Option String)} {cs : List Char} (h : RendersElements parts cs) :
      Renders parts (String.ofList ('\x7b' :: (cs ++ ['\x7d'])))

/-! ## Elements are read back -/

/-- What the scanner finds when an element ends: there is nothing else, or a comma and more. -/
def endWith (part : Option String) : List Char → Except Fault (List (Option String))
  | [] => .ok [part]
  | _ :: rest => (elements .start rest).map (part :: ·)

/-- Nothing follows an element, or a comma. -/
def EndsElement (tail : List Char) : Prop :=
  tail = [] ∨ ∃ rest, tail = ',' :: rest

variable {tail : List Char}

/-- A bare element ends there. -/
theorem elements_bare_end (read : List Char) (h : EndsElement tail) :
    elements (.bare read) tail = endWith (bareElement read) tail := by
  rcases h with rfl | ⟨rest, rfl⟩
  · rfl
  · simp [elements, endWith]

/-- A quoted element ends there, behind its closing quote. -/
theorem elements_closed_end (read : List Char) (h : EndsElement tail) :
    elements (.closed read) tail = endWith (quotedElement read) tail := by
  rcases h with rfl | ⟨rest, rfl⟩
  · rfl
  · simp [elements, endWith]

/-- Characters that are neither commas nor braces go on with a bare element. -/
theorem elements_bare (read cs : List Char) (hplain : ∀ c ∈ cs, c ≠ ',' ∧ c ≠ '\x7b') :
    elements (.bare read) (cs ++ tail) = elements (.bare (cs.reverse ++ read)) tail := by
  induction cs generalizing read with
  | nil => rfl
  | cons c cs ih =>
      obtain ⟨hc, hcs⟩ := List.forall_mem_cons.mp hplain
      rw [List.cons_append, elements, if_neg hc.1, if_neg hc.2, ih _ hcs]
      simp

/-- An element without special characters is read up to its end. -/
theorem elements_start_bare {cs : List Char} (hne : cs ≠ [])
    (hplain : ∀ c ∈ cs, isSpecial c = false) (hend : EndsElement tail) :
    elements .start (cs ++ tail) = endWith (bareElement cs.reverse) tail := by
  have hspecial (c : Char) (hc : isSpecial c = false) : c ≠ '"' ∧ c ≠ ',' ∧ c ≠ '\x7b' := by
    simp only [isSpecial, Bool.or_eq_false_iff, beq_eq_false_iff_ne] at hc
    tauto
  obtain ⟨c, cs, rfl⟩ := List.exists_cons_of_ne_nil hne
  obtain ⟨hc, hcs⟩ := List.forall_mem_cons.mp hplain
  obtain ⟨hquote, hcomma, hbrace⟩ := hspecial c hc
  have hrest : ∀ d ∈ cs, d ≠ ',' ∧ d ≠ '\x7b' := fun d hd => (hspecial d (hcs d hd)).2
  rw [List.cons_append, elements, if_neg hquote, if_neg hcomma, if_neg hbrace,
    elements_bare [c] cs hrest, elements_bare_end _ hend, List.reverse_cons]

/-- What stands between quotes is read with its backslashes removed. -/
theorem elements_quoted (read cs : List Char) :
    elements (.quoted read) (escaped cs ++ '"' :: tail) =
      elements (.closed (cs.reverse ++ read)) tail := by
  induction cs generalizing read with
  | nil => simp [escaped, elements]
  | cons c cs ih =>
      have hescaped : escaped (c :: cs) =
          (if c = '"' ∨ c = '\\' then ['\\', c] else [c]) ++ escaped cs := rfl
      have hread : (c :: cs).reverse ++ read = cs.reverse ++ (c :: read) := by simp
      rw [hescaped, hread, ← ih]
      by_cases hspecial : c = '"' ∨ c = '\\'
      · rw [if_pos hspecial]
        simp [elements]
      · rw [if_neg hspecial]
        obtain ⟨hquote, hslash⟩ := not_or.mp hspecial
        simp [elements, hquote, hslash]

/-- An element is read back up to its end. -/
theorem elements_rendered {part : Option String} {cs : List Char} (h : RendersElement part cs)
    (hend : EndsElement tail) : elements .start (cs ++ tail) = endWith part tail := by
  cases h with
  | null =>
      rw [elements_start_bare (by simp) (by simp [isSpecial, isSpace]) hend]
      rfl
  | quoted text =>
      rw [List.cons_append, List.append_assoc, elements, if_pos rfl, List.singleton_append,
        elements_quoted, List.append_nil, elements_closed_end _ hend]
      simp [quotedElement]
  | @bare text h =>
      simp only [NeedsQuotes, not_or, not_exists, not_and, Bool.not_eq_true] at h
      obtain ⟨hne, hnull, hplain⟩ := h
      have hword : text ≠ "NULL" := by
        rintro rfl
        exact hnull rfl
      rw [elements_start_bare hne hplain hend]
      simp [bareElement, hword]

/-- Elements with commas between them are read back. -/
theorem elements_all_rendered {parts : List (Option String)} {cs : List Char}
    (h : RendersElements parts cs) : elements .start cs = .ok parts := by
  induction h with
  | last h =>
      have hread := elements_rendered h (.inl rfl)
      rwa [List.append_nil] at hread
  | more h _ ih =>
      rw [elements_rendered h (.inr ⟨_, rfl⟩), endWith, ih]
      rfl

/-- What is printed for elements is not empty. -/
theorem RendersElements.ne_nil {parts : List (Option String)} {cs : List Char}
    (h : RendersElements parts cs) : cs ≠ [] := by
  cases h with
  | more => simp
  | last h =>
      cases h with
      | null => simp
      | quoted => simp
      | bare h => exact fun hempty => h (.inl hempty)

/-- What is printed for an array is read back. -/
theorem read_rendered {parts : List (Option String)} {text : String} (h : Renders parts text) :
    read text = .ok parts := by
  cases h with
  | empty => rfl
  | @elements _ cs h =>
      have hinside : inside ('\x7b' :: (cs ++ ['\x7d'])) = some cs := by simp [inside]
      obtain ⟨c, rest, hcs⟩ := List.exists_cons_of_ne_nil h.ne_nil
      rw [read, String.toList_ofList, hinside]
      subst hcs
      exact elements_all_rendered h

end ArrayLiteral

namespace Value

variable {t element : ColumnType} {text : String} {parts : List (Option String)} {value : Value}
  {error : ValueError}

/-! ## Values of arrays -/

/-- An element of an array and its value: a missing one is the missing value. -/
inductive IsElement (t : ColumnType) : Option String → Value → Prop where
  | null : IsElement t none .null
  | literal {literal : String} {value : Value} (hread : ofLiteral t literal = .ok value) :
      IsElement t (some literal) value

/-- What an error of a literal names: the literal and its type, or for an array literal what the
error of its first faulty element names. -/
inductive Blames : ColumnType → String → ValueError → Prop where
  | literal {t : ColumnType} {literal : String} {fault : LiteralFault}
      (hwhole : ∀ element parts, t = .array element → ArrayLiteral.read literal ≠ .ok parts) :
      Blames t literal ⟨literal, t, fault⟩
  | element {element : ColumnType} {literal part : String} {front back : List (Option String)}
      {error : ValueError} (hread : ArrayLiteral.read literal = .ok (front ++ some part :: back))
      (hfront : ∀ part ∈ front, ∃ value, IsElement element part value)
      (h : Blames element part error) : Blames (.array element) literal error

/-- An error is that of the first element that is no literal of a type. -/
def FailsFirst (t : ColumnType) (parts : List (Option String)) (error : ValueError) : Prop :=
  ∃ front literal back, parts = front ++ some literal :: back ∧
    (∀ part ∈ front, ∃ value, IsElement t part value) ∧
    ofLiteral t literal = .error error ∧ Blames t literal error

/-- The value of an element of an array. -/
def elementOf (t : ColumnType) : Option String → Except ValueError Value
  | none => .ok .null
  | some literal => ofLiteral t literal

/-- An element has a value if it is missing or a literal of the type. -/
theorem element_of_eq_ok_iff {part : Option String} :
    elementOf t part = .ok value ↔ IsElement t part value := by
  constructor
  · intro h
    cases part with
    | none => exact Except.ok.inj h ▸ .null
    | some literal => exact .literal h
  · intro h
    cases h with
    | null => rfl
    | literal hread => exact hread

/-- A literal whose parts are known is read part by part. -/
theorem of_literal_of_parts (h : ArrayLiteral.read text = .ok parts) :
    ofLiteral (.array t) text =
      (parts.mapM (elementOf t) >>= fun values => .ok (.array values t)) := by
  have helement : elementOf t = fun part =>
      match part with
      | none => .ok .null
      | some literal => ofLiteral t literal := by
    funext part
    cases part <;> rfl
  rw [ofLiteral, h, helement]
  rfl

/-- Parts are an array exactly if each of them has a value; the elements are those values. -/
theorem of_literal_eq_ok_iff (h : ArrayLiteral.read text = .ok parts) :
    ofLiteral (.array t) text = .ok value ↔
      ∃ values, value = .array values t ∧ List.Forall₂ (IsElement t) parts values := by
  rw [of_literal_of_parts h, Except.bind_eq_ok]
  simp only [Except.map_m_eq_ok_iff, element_of_eq_ok_iff, Except.ok.injEq]
  constructor
  · rintro ⟨values, hvalues, rfl⟩
    exact ⟨values, rfl, hvalues⟩
  · rintro ⟨values, rfl, hvalues⟩
    exact ⟨values, hvalues, rfl⟩

/-- An error names what it is about. -/
theorem blames_of_literal (h : ofLiteral t text = .error error) : Blames t text error := by
  -- An array names what its element does, so the induction is on the type for every text.
  induction t generalizing text with
  | array element ih =>
      cases hread : ArrayLiteral.read text with
      | error fault =>
          rw [ofLiteral, hread] at h
          obtain rfl := Except.error.inj h
          exact .literal fun _ _ _ hparts => absurd (hread.symm.trans hparts) nofun
      | ok parts =>
          rw [of_literal_of_parts hread] at h
          rcases Except.bind_eq_error.mp h with h | ⟨_, _, h⟩
          · obtain ⟨front, part, back, rfl, hfront, hpart⟩ := Except.map_m_eq_error_iff.mp h
            simp only [element_of_eq_ok_iff] at hfront
            cases part with
            | none => exact absurd hpart nofun
            | some part => exact .element hread hfront (ih hpart)
          · exact absurd h nofun
  | _ =>
      rw [ofLiteral, Except.map_error_eq_error] at h
      · obtain ⟨fault, -, rfl⟩ := h
        exact .literal nofun
      · exact nofun

/-- An error of a type without elements names the literal and the type. -/
theorem Blames.names (h : Blames t text error) (hscalar : ∀ element, t ≠ .array element) :
    error.literal = text ∧ error.expected = t := by
  cases h with
  | literal => exact ⟨rfl, rfl⟩
  | element => exact absurd rfl (hscalar _)

/-- Parts are no array exactly if one of them has no value; the error is that of the first one. -/
theorem of_literal_eq_error_iff (h : ArrayLiteral.read text = .ok parts) :
    ofLiteral (.array t) text = .error error ↔ FailsFirst t parts error := by
  rw [of_literal_of_parts h, Except.bind_eq_error]
  simp only [reduceCtorEq, and_false, exists_false, or_false, Except.map_m_eq_error_iff,
    element_of_eq_ok_iff]
  constructor
  · rintro ⟨front, part, back, rfl, hfront, hpart⟩
    cases part with
    | none => exact absurd hpart nofun
    | some literal => exact ⟨front, literal, back, rfl, hfront, hpart, blames_of_literal hpart⟩
  · rintro ⟨front, literal, back, rfl, hfront, hliteral, -⟩
    exact ⟨front, some literal, back, rfl, hfront, hliteral⟩

/-- What the server prints for an array of any type is read as that array, with one element for each
that was printed, in their order, missing ones and literals of the type. It is no array exactly if
one of them is no literal of the type. The error is that of the first one and names it and the type;
where the elements are arrays themselves, it names the first faulty element of that one in turn. -/
theorem of_literal_rendered (t : ColumnType) (h : ArrayLiteral.Renders parts text) :
    (∀ value, ofLiteral (.array t) text = .ok value ↔
      ∃ values, value = .array values t ∧ List.Forall₂ (IsElement t) parts values) ∧
    (∀ error, ofLiteral (.array t) text = .error error ↔ FailsFirst t parts error) ∧
    ∀ literal error, Blames t literal error → (∀ element, t ≠ .array element) →
      error.literal = literal ∧ error.expected = t := by
  have hread := ArrayLiteral.read_rendered h
  exact ⟨fun value => of_literal_eq_ok_iff hread, fun error => of_literal_eq_error_iff hread,
    fun literal error hblames => hblames.names⟩

/-- An array of arrays of numbers, with a missing array and an empty one, and one whose second
array holds a faulty number. -/
theorem of_literal_rendered_nested :
    ArrayLiteral.Renders [some "\x7b1,NULL\x7d", none, some "\x7b\x7d"]
        "\x7b\"\x7b1,NULL\x7d\",NULL,\"\x7b\x7d\"\x7d" ∧
      ofLiteral (.array (.array .int32)) "\x7b\"\x7b1,NULL\x7d\",NULL,\"\x7b\x7d\"\x7d" =
        .ok (.array [.array [.int32 1, .null] .int32, .null, .array [] .int32] (.array .int32)) ∧
      ofLiteral (.array (.array .int32)) "\x7bNULL,\"\x7b2,x\x7d\",\"\x7by\x7d\"\x7d" =
        .error ⟨"x", .int32, .integer .invalidDigit⟩ := by
  have hrenders : ArrayLiteral.Renders [some "\x7b1,NULL\x7d", none, some "\x7b\x7d"]
      "\x7b\"\x7b1,NULL\x7d\",NULL,\"\x7b\x7d\"\x7d" :=
    .elements (.more (.quoted _) (.more .null (.last (.quoted _))))
  have hfaulty : ArrayLiteral.Renders [none, some "\x7b2,x\x7d", some "\x7by\x7d"]
      "\x7bNULL,\"\x7b2,x\x7d\",\"\x7by\x7d\"\x7d" :=
    .elements (.more .null (.more (.quoted _) (.last (.quoted _))))
  have hinner : ofLiteral (.array .int32) "\x7b2,x\x7d" =
      .error ⟨"x", .int32, .integer .invalidDigit⟩ := rfl
  refine ⟨hrenders, ((of_literal_rendered (.array .int32) hrenders).1 _).mpr ⟨_, rfl, ?_⟩,
    ((of_literal_rendered (.array .int32) hfaulty).2.1 _).mpr
      ⟨[none], "\x7b2,x\x7d", [some "\x7by\x7d"], rfl, ?_, hinner, blames_of_literal hinner⟩⟩
  · exact .cons (.literal rfl) (.cons .null (.cons (.literal rfl) .nil))
  · simpa using ⟨_, IsElement.null⟩

end Value

end ChangeFeed
