import ChangeFeed.Number.Decimal
import Mathlib.Logic.Basic
import Mathlib.Tactic.SplitIfs

/-!
# Texts of decimal numbers

A grammar of decimal numbers (`Decimal.Spells`) and of the words beside them (`SpellsWord`).
`read_binary_spelled` and `spelled_or_word` say between them which texts are read as what.
-/

namespace ChangeFeed.Number

/-! ## Grammar -/

/-- There is nothing but digits. -/
def OnlyDigits (ds : List Char) : Prop :=
  ∀ c ∈ ds, c.isDigit = true

/-- Whether there is nothing but digits can be computed. -/
instance (ds : List Char) : Decidable (OnlyDigits ds) :=
  decidable_of_iff (ds.all Char.isDigit = true) List.all_eq_true

/-- The texts of a sign: a missing one is a plus sign. -/
inductive SpellsSign : Bool → List Char → Prop where
  | none : SpellsSign false []
  | plus : SpellsSign false ['+']
  | minus : SpellsSign true ['-']

namespace Decimal

/-- The texts of an exponent: none at all, or a mark, a sign and digits. -/
inductive SpellsExponent : Int → List Char → Prop where
  | none : SpellsExponent 0 []
  | digits {mark : Char} {negative : Bool} {sign ds : List Char} (hmark : mark = 'e' ∨ mark = 'E')
      (hsign : SpellsSign negative sign) (hne : ds ≠ []) (hds : OnlyDigits ds) :
      SpellsExponent (if negative then -(ofDigits ds : Int) else ofDigits ds) (mark :: (sign ++ ds))

/-- The texts of a decimal number without a sign: digits with a point among or around them, or
without one, in front of an exponent. -/
inductive SpellsMagnitude : Nat → Int → List Char → Prop where
  | whole {exponent : Int} {ds tail : List Char} (hne : ds ≠ []) (hds : OnlyDigits ds)
      (htail : SpellsExponent exponent tail) :
      SpellsMagnitude (ofDigits ds) exponent (ds ++ tail)
  | point {exponent : Int} {whole fraction tail : List Char} (hne : whole ≠ [] ∨ fraction ≠ [])
      (hwhole : OnlyDigits whole) (hfraction : OnlyDigits fraction)
      (htail : SpellsExponent exponent tail) :
      SpellsMagnitude (ofDigits (whole ++ fraction)) (exponent - fraction.length)
        (whole ++ '.' :: (fraction ++ tail))

/-- The texts of a decimal number, after an optional sign. -/
def Spells (d : Decimal) (cs : List Char) : Prop :=
  ∃ sign rest, SpellsSign d.negative sign ∧ SpellsMagnitude d.coefficient d.exponent rest ∧
    cs = sign ++ rest

end Decimal

/-- The texts of a word, in any case, after an optional sign. -/
def SpellsWord (word : String) (negative : Bool) (cs : List Char) : Prop :=
  ∃ sign rest, SpellsSign negative sign ∧ String.ofList (rest.map Char.toLower) = word ∧
    cs = sign ++ rest

/-! ## Reading -/

/-- Digits in front of what starts with none are taken, and they only. -/
theorem take_digits {ds rest : List Char} (hds : OnlyDigits ds)
    (hrest : ∀ c ∈ rest.head?, c.isDigit = false) :
    (ds ++ rest).takeWhile Char.isDigit = ds ∧ (ds ++ rest).dropWhile Char.isDigit = rest := by
  have hstop : rest.takeWhile Char.isDigit = [] ∧ rest.dropWhile Char.isDigit = rest := by
    cases rest with
    | nil => exact ⟨rfl, rfl⟩
    | cons c rest => simp [hrest c rfl]
  rw [List.takeWhile_append_of_pos hds, List.dropWhile_append_of_pos hds, hstop.1, hstop.2,
    List.append_nil]
  exact ⟨rfl, rfl⟩

/-- A minus sign makes a number negative, and a plus sign may be left out. -/
theorem spells_sign_iff {negative : Bool} {sign : List Char} :
    SpellsSign negative sign ↔
      (negative = true ∧ sign = ['-']) ∨ (negative = false ∧ (sign = [] ∨ sign = ['+'])) := by
  constructor
  · rintro (_ | _ | _) <;> simp
  · rintro (⟨rfl, rfl⟩ | ⟨rfl, rfl | rfl⟩)
    · exact .minus
    · exact .none
    · exact .plus

/-- A sign is read in front of what starts with none. -/
theorem read_sign_of {negative : Bool} {sign rest : List Char} (h : SpellsSign negative sign)
    (hrest : ∀ c ∈ rest.head?, c ≠ '-' ∧ c ≠ '+') :
    readSign (sign ++ rest) = (negative, rest) := by
  cases h with
  | none =>
      cases rest with
      | nil => rfl
      | cons c rest =>
          obtain ⟨hminus, hplus⟩ := hrest c rfl
          simp [readSign, hminus, hplus]
  | plus => rfl
  | minus => rfl

/-- Every text has a sign, and something behind it. -/
theorem exists_sign (cs : List Char) :
    ∃ sign, SpellsSign (readSign cs).1 sign ∧ cs = sign ++ (readSign cs).2 := by
  unfold readSign
  split
  · exact ⟨['-'], .minus, rfl⟩
  · exact ⟨['+'], .plus, rfl⟩
  · exact ⟨[], .none, rfl⟩

/-- A digit is neither a sign nor a point. -/
theorem digit_ne {c : Char} (h : c.isDigit = true) : c ≠ '-' ∧ c ≠ '+' ∧ c ≠ '.' := by
  refine ⟨?_, ?_, ?_⟩ <;> rintro rfl <;> exact absurd h (by decide)

namespace Decimal

/-- Before an exponent stands no digit, and no point either. -/
theorem SpellsExponent.starts {exponent : Int} {cs : List Char} (h : SpellsExponent exponent cs) :
    ∀ c ∈ cs.head?, c.isDigit = false ∧ c ≠ '.' := by
  cases h with
  | none => simp
  | digits hmark _ _ _ =>
      intro c hc
      obtain rfl := Option.some.inj hc
      rcases hmark with rfl | rfl <;> decide

/-- An exponent is its sign and its digits behind a mark. -/
theorem read_exponent_cons (mark : Char) (rest : List Char) :
    readExponent (mark :: rest) =
      if mark = 'e' ∨ mark = 'E' then
        if (readSign rest).2 = [] ∨ ¬OnlyDigits (readSign rest).2 then none
        else some (if (readSign rest).1 then -(ofDigits (readSign rest).2 : Int)
          else ofDigits (readSign rest).2)
      else none := by
  have hsign : readExponent (mark :: rest) =
      if mark == 'e' || mark == 'E' then
        if (readSign rest).2.isEmpty || !(readSign rest).2.all Char.isDigit then none
        else some (if (readSign rest).1 then -(ofDigits (readSign rest).2 : Int)
          else ofDigits (readSign rest).2)
      else none := rfl
  rw [hsign]
  simp [OnlyDigits]

/-- An exponent is read, and nothing else is. -/
theorem read_exponent_iff {exponent : Int} {cs : List Char} :
    readExponent cs = some exponent ↔ SpellsExponent exponent cs := by
  constructor
  · intro h
    cases cs with
    | nil =>
        obtain rfl := Option.some.inj h
        exact .none
    | cons mark rest =>
        obtain ⟨sign, hsign, hrest⟩ := exists_sign rest
        rw [read_exponent_cons] at h
        by_cases hmark : mark = 'e' ∨ mark = 'E'
        · rw [if_pos hmark] at h
          by_cases hnone : (readSign rest).2 = [] ∨ ¬OnlyDigits (readSign rest).2
          · rw [if_pos hnone] at h
            exact absurd h (by simp)
          · rw [if_neg hnone] at h
            obtain ⟨hne, hds⟩ := not_or.mp hnone
            obtain rfl := Option.some.inj h
            have hspells := SpellsExponent.digits hmark hsign hne (not_not.mp hds)
            rwa [← hrest] at hspells
        · rw [if_neg hmark] at h
          exact absurd h (by simp)
  · intro h
    cases h with
    | none => rfl
    | @digits mark negative sign ds hmark hsign hne hds =>
        have hstart : ∀ c ∈ ds.head?, c ≠ '-' ∧ c ≠ '+' := fun c hc =>
          have hdigit := digit_ne (hds c (List.mem_of_mem_head? hc))
          ⟨hdigit.1, hdigit.2.1⟩
        rw [read_exponent_cons, read_sign_of hsign hstart, if_pos hmark,
          if_neg (by simp [hne, hds])]

/-- Behind the digits in front of a text stands no digit. -/
theorem digits_behind (cs : List Char) :
    OnlyDigits (cs.takeWhile Char.isDigit) ∧
      (∀ c ∈ (cs.dropWhile Char.isDigit).head?, c.isDigit = false) ∧
      cs = cs.takeWhile Char.isDigit ++ cs.dropWhile Char.isDigit := by
  refine ⟨List.all_eq_true.mp List.all_takeWhile, fun c hc => ?_,
    List.takeWhile_append_dropWhile.symm⟩
  have hstop := List.head?_dropWhile_not Char.isDigit cs
  rw [Option.mem_def.mp hc] at hstop
  simpa using hstop

/-- With a point behind the digits in front, the digits behind the point count as well. -/
theorem read_magnitude_of_point {cs rest : List Char}
    (h : cs.dropWhile Char.isDigit = '.' :: rest) :
    readMagnitude cs =
      if cs.takeWhile Char.isDigit = [] ∧ rest.takeWhile Char.isDigit = [] then none
      else (readExponent (rest.dropWhile Char.isDigit)).map fun e =>
        (ofDigits (cs.takeWhile Char.isDigit ++ rest.takeWhile Char.isDigit),
          e - ((rest.takeWhile Char.isDigit).length : Int)) := by
  simp [readMagnitude, h]

/-- Without a point behind them, the digits in front are all there are. -/
theorem read_magnitude_of_whole {cs : List Char}
    (h : ∀ rest, cs.dropWhile Char.isDigit ≠ '.' :: rest) :
    readMagnitude cs =
      if cs.takeWhile Char.isDigit = [] then none
      else (readExponent (cs.dropWhile Char.isDigit)).map fun e =>
        (ofDigits (cs.takeWhile Char.isDigit), e) := by
  simp [readMagnitude]

/-- A decimal number without a sign is read, and nothing else is. -/
theorem read_magnitude_iff {coefficient : Nat} {exponent : Int} {cs : List Char} :
    readMagnitude cs = some (coefficient, exponent) ↔ SpellsMagnitude coefficient exponent cs := by
  constructor
  · intro h
    obtain ⟨hwhole, -, hcs⟩ := digits_behind cs
    by_cases hpoint : ∃ rest, cs.dropWhile Char.isDigit = '.' :: rest
    · obtain ⟨rest, hrest⟩ := hpoint
      obtain ⟨hfraction, -, hbehind⟩ := digits_behind rest
      rw [read_magnitude_of_point hrest] at h
      split_ifs at h with hnone
      obtain ⟨tail, htail, heq⟩ := Option.map_eq_some_iff.mp h
      obtain ⟨rfl, rfl⟩ := Prod.mk.inj heq
      have hspells := SpellsMagnitude.point (not_and_or.mp hnone) hwhole hfraction
        (read_exponent_iff.mp htail)
      rwa [← hbehind, ← hrest, ← hcs] at hspells
    · rw [read_magnitude_of_whole (not_exists.mp hpoint)] at h
      split_ifs at h with hnone
      obtain ⟨tail, htail, heq⟩ := Option.map_eq_some_iff.mp h
      obtain ⟨rfl, rfl⟩ := Prod.mk.inj heq
      have hspells := SpellsMagnitude.whole hnone hwhole (read_exponent_iff.mp htail)
      rwa [← hcs] at hspells
  · intro h
    cases h with
    | @whole exponent ds tail hne hds htail =>
        obtain ⟨htake, hdrop⟩ := take_digits hds fun c hc => (htail.starts c hc).1
        have hnone : ∀ rest, (ds ++ tail).dropWhile Char.isDigit ≠ '.' :: rest := by
          intro rest heq
          rw [hdrop] at heq
          exact (htail.starts '.' (by rw [heq]; rfl)).2 rfl
        rw [read_magnitude_of_whole hnone, htake, hdrop, if_neg hne, read_exponent_iff.mpr htail]
        rfl
    | @point exponent whole fraction tail hne hwhole hfraction htail =>
        have hpoint : ∀ c ∈ ('.' :: (fraction ++ tail)).head?, c.isDigit = false := by
          intro c hc
          obtain rfl := Option.some.inj hc
          rfl
        obtain ⟨htake, hdrop⟩ := take_digits hwhole hpoint
        obtain ⟨htakeMore, hdropMore⟩ := take_digits hfraction fun c hc => (htail.starts c hc).1
        rw [read_magnitude_of_point hdrop, htake, htakeMore, hdropMore,
          if_neg (not_and_or.mpr hne), read_exponent_iff.mpr htail]
        rfl

/-- A decimal number without a sign starts with a digit or a point. -/
theorem SpellsMagnitude.starts {coefficient : Nat} {exponent : Int} {cs : List Char}
    (h : SpellsMagnitude coefficient exponent cs) :
    ∃ c rest, cs = c :: rest ∧ c ≠ '-' ∧ c ≠ '+' := by
  have hdigit {c : Char} {ds : List Char} (hds : OnlyDigits (c :: ds)) : c ≠ '-' ∧ c ≠ '+' :=
    have hne := digit_ne (hds c List.mem_cons_self)
    ⟨hne.1, hne.2.1⟩
  cases h with
  | @whole exponent ds tail hne hds _ =>
      obtain ⟨c, ds, rfl⟩ := List.exists_cons_of_ne_nil hne
      exact ⟨c, ds ++ tail, rfl, hdigit hds⟩
  | @point exponent whole fraction tail _ hwhole _ _ =>
      cases whole with
      | nil => exact ⟨'.', fraction ++ tail, rfl, by decide, by decide⟩
      | cons c ds => exact ⟨c, ds ++ '.' :: (fraction ++ tail), rfl, hdigit hwhole⟩

end Decimal

/-- Reading a text that is not empty, by what stands behind its sign. -/
theorem read_binary_eq (f : Format) {cs : List Char} (h : cs ≠ []) :
    readBinary f cs =
      match Decimal.readMagnitude (readSign cs).2 with
      | some (coefficient, exponent) =>
        .ok (Decimal.toBinary f ⟨(readSign cs).1, coefficient, exponent⟩)
      | none =>
        if String.ofList ((readSign cs).2.map Char.toLower) = "nan" then .ok .nan
        else if String.ofList ((readSign cs).2.map Char.toLower) = "inf" ∨
            String.ofList ((readSign cs).2.map Char.toLower) = "infinity" then
          .ok (Binary.infinite f (readSign cs).1)
        else .error .malformed := by
  have hfilled : ¬cs.isEmpty = true := by simpa using h
  exact if_neg hfilled

/-- A decimal number is read as what it is rounded to. -/
theorem read_binary_spelled (f : Format) {d : Decimal} {cs : List Char} (h : d.Spells cs) :
    readBinary f cs = .ok (d.toBinary f) := by
  obtain ⟨sign, rest, hsign, hrest, rfl⟩ := h
  obtain ⟨c, more, rfl, hminus, hplus⟩ := hrest.starts
  have hstart : ∀ first ∈ (c :: more).head?, first ≠ '-' ∧ first ≠ '+' := by
    intro first hfirst
    obtain rfl := Option.some.inj hfirst
    exact ⟨hminus, hplus⟩
  rw [read_binary_eq f (by simp), read_sign_of hsign hstart, Decimal.read_magnitude_iff.mpr hrest]

/-- What is read as a number spells a decimal number or is a word. -/
theorem spelled_or_word {f : Format} {x : Binary f} {cs : List Char} (h : readBinary f cs = .ok x) :
    (∃ d : Decimal, d.Spells cs ∧ x = d.toBinary f) ∨
      (∃ negative, SpellsWord "nan" negative cs ∧ x = .nan) ∨
      ∃ negative, (SpellsWord "inf" negative cs ∨ SpellsWord "infinity" negative cs) ∧
        x = Binary.infinite f negative := by
  by_cases hempty : cs = []
  · simp [readBinary, hempty] at h
  · obtain ⟨sign, hsign, hcs⟩ := exists_sign cs
    have hword {word : String}
        (heq : String.ofList ((readSign cs).2.map Char.toLower) = word) :
        SpellsWord word (readSign cs).1 cs := ⟨sign, _, hsign, heq, hcs⟩
    rw [read_binary_eq f hempty] at h
    split at h
    · rename_i coefficient exponent hmagnitude
      obtain rfl := Except.ok.inj h
      exact .inl ⟨⟨_, coefficient, exponent⟩,
        ⟨sign, _, hsign, Decimal.read_magnitude_iff.mp hmagnitude, hcs⟩, rfl⟩
    · split_ifs at h with hnan hinfinite
      · obtain rfl := Except.ok.inj h
        exact .inr (.inl ⟨_, hword hnan, rfl⟩)
      · obtain rfl := Except.ok.inj h
        exact .inr (.inr ⟨_, hinfinite.imp hword hword, rfl⟩)

end ChangeFeed.Number
