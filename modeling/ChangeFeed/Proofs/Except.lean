import Mathlib.Data.List.Forall2

/-!
# Results and their causes

How a result came about: what each step of the computation gave, or which step failed. A pass over
a list relates the elements to their values (`Except.map_m_eq_ok_iff`).
-/

namespace List.Forall₂

variable {α β : Type} {R : α → β → Prop} {xs : List α} {ys : List β}

/-- In lists that are related, every element on the left has one on the right. -/
theorem exists_of_mem_left (h : Forall₂ R xs ys) {x : α} (hx : x ∈ xs) : ∃ y ∈ ys, R x y := by
  induction h with
  | nil => exact absurd hx not_mem_nil
  | cons hfirst _ ih =>
      rcases mem_cons.mp hx with rfl | hx
      · exact ⟨_, mem_cons_self, hfirst⟩
      · obtain ⟨y, hy, hrelated⟩ := ih hx
        exact ⟨y, mem_cons_of_mem _ hy, hrelated⟩

/-- In lists that are related, every element on the right has one on the left. -/
theorem exists_of_mem_right (h : Forall₂ R xs ys) {y : β} (hy : y ∈ ys) : ∃ x ∈ xs, R x y := by
  have hflip : Forall₂ (fun y x => R x y) ys xs := Forall₂.flip h
  exact hflip.exists_of_mem_left hy

end List.Forall₂

namespace Except

variable {ε δ α β : Type}

/-- A chain gives a value when its first part does and the rest does for that value. -/
theorem bind_eq_ok {x : Except ε α} {f : α → Except ε β} {b : β} :
    x >>= f = .ok b ↔ ∃ a, x = .ok a ∧ f a = .ok b := by
  cases x with
  | error fault => simp [bind, Except.bind]
  | ok a => simp [bind, Except.bind]

/-- A chain goes on with the value of its first part. -/
theorem ok_bind {a : α} {f : α → Except ε β} : (Except.ok a >>= f) = f a :=
  rfl

/-- A chain fails where its first part fails, or else the rest. -/
theorem bind_eq_error {x : Except ε α} {f : α → Except ε β} {fault : ε} :
    x >>= f = .error fault ↔ x = .error fault ∨ ∃ a, x = .ok a ∧ f a = .error fault := by
  cases x with
  | error other => simp [bind, Except.bind]
  | ok a => simp [bind, Except.bind]

/-- A mapped result gives the images of values. -/
theorem map_eq_ok {x : Except ε α} {f : α → β} {b : β} :
    x.map f = .ok b ↔ ∃ a, x = .ok a ∧ f a = b := by
  cases x with
  | error fault => simp [Except.map]
  | ok a => simp [Except.map]

/-- A mapped result fails where the result fails. -/
theorem map_eq_error {x : Except ε α} {f : α → β} {fault : ε} :
    x.map f = .error fault ↔ x = .error fault := by
  cases x with
  | error other => simp [Except.map]
  | ok a => simp [Except.map]

/-- A value stays as it is when faults are put in other words. -/
@[simp]
theorem map_error_ok {f : ε → δ} {a : α} : (Except.ok a).mapError f = .ok a :=
  rfl

/-- A fault is put in other words. -/
@[simp]
theorem map_error_error {f : ε → δ} {fault : ε} :
    (Except.error fault : Except ε α).mapError f = .error (f fault) :=
  rfl

/-- A result whose fault is put in other words gives the same values. -/
@[simp]
theorem map_error_eq_ok {x : Except ε α} {f : ε → δ} {a : α} :
    x.mapError f = .ok a ↔ x = .ok a := by
  cases x with
  | error fault => simp
  | ok a => simp

/-- A result whose fault is put in other words fails where it failed before. -/
theorem map_error_eq_error {x : Except ε α} {f : ε → δ} {fault : δ} :
    x.mapError f = .error fault ↔ ∃ other, x = .error other ∧ f other = fault := by
  cases x with
  | error other => simp
  | ok a => simp

/-- A step that gives nothing but a value gives that value. -/
@[simp]
theorem pure_eq_ok {a b : α} : (pure a : Except ε α) = .ok b ↔ a = b :=
  ⟨Except.ok.inj, congrArg Except.ok⟩

/-- A step that gives nothing but a value does not fail. -/
@[simp]
theorem pure_ne_error {a : α} {fault : ε} : (pure a : Except ε α) ≠ .error fault :=
  nofun

/-- A chain whose last step gives nothing but a value fails where the steps before fail. -/
theorem bind_pure_eq_error {x : Except ε α} {f : α → β} {fault : ε} :
    (x >>= fun a => pure (f a)) = .error fault ↔ x = .error fault := by
  rw [bind_eq_error]
  exact or_iff_left fun ⟨_, _, h⟩ => pure_ne_error h

/-- A pass over a list gives the values of the elements, in their order. -/
theorem map_m_eq_ok_iff {f : α → Except ε β} {xs : List α} {ys : List β} :
    xs.mapM f = .ok ys ↔ List.Forall₂ (fun x y => f x = .ok y) xs ys := by
  induction xs generalizing ys with
  | nil =>
      rw [List.mapM_nil, pure_eq_ok, List.forall₂_nil_left_iff]
      exact eq_comm
  | cons x xs ih =>
      rw [List.mapM_cons]
      constructor
      · intro h
        obtain ⟨first, hfirst, h⟩ := Except.bind_eq_ok.mp h
        obtain ⟨rest, hrest, h⟩ := Except.bind_eq_ok.mp h
        obtain rfl := Except.pure_eq_ok.mp h
        exact .cons hfirst (ih.mp hrest)
      · intro h
        cases h with
        | cons hfirst hrest =>
            refine Except.bind_eq_ok.mpr ⟨_, hfirst, ?_⟩
            exact Except.bind_eq_ok.mpr ⟨_, ih.mpr hrest, rfl⟩

/-- A pass over a list gives values exactly if there is one for every element. -/
theorem exists_map_m_iff {f : α → Except ε β} {xs : List α} :
    (∃ ys, xs.mapM f = .ok ys) ↔ ∀ x ∈ xs, ∃ y, f x = .ok y := by
  induction xs with
  | nil => simp
  | cons x xs ih =>
      rw [List.forall_mem_cons, ← ih, List.mapM_cons]
      constructor
      · rintro ⟨ys, h⟩
        obtain ⟨first, hfirst, h⟩ := Except.bind_eq_ok.mp h
        obtain ⟨rest, hrest, -⟩ := Except.bind_eq_ok.mp h
        exact ⟨⟨first, hfirst⟩, rest, hrest⟩
      · rintro ⟨⟨first, hfirst⟩, rest, hrest⟩
        refine ⟨first :: rest, Except.bind_eq_ok.mpr ⟨first, hfirst, ?_⟩⟩
        exact Except.bind_eq_ok.mpr ⟨rest, hrest, rfl⟩

/-- A pass over a list fails where the first element fails for which there is no value. -/
theorem map_m_eq_error_iff {f : α → Except ε β} {xs : List α} {fault : ε} :
    xs.mapM f = .error fault ↔ ∃ front x back, xs = front ++ x :: back ∧
      (∀ y ∈ front, ∃ b, f y = .ok b) ∧ f x = .error fault := by
  induction xs with
  | nil => simp
  | cons x xs ih =>
      rw [List.mapM_cons, Except.bind_eq_error]
      simp only [Except.bind_pure_eq_error, ih]
      constructor
      · rintro (h | ⟨b, hb, front, y, back, rfl, hfront, h⟩)
        · exact ⟨[], x, xs, rfl, nofun, h⟩
        · exact ⟨x :: front, y, back, rfl, List.forall_mem_cons.mpr ⟨⟨b, hb⟩, hfront⟩, h⟩
      · rintro ⟨front, y, back, heq, hfront, h⟩
        cases front with
        | nil =>
            obtain ⟨rfl, -⟩ := List.cons.inj heq
            exact .inl h
        | cons first front =>
            obtain ⟨rfl, rfl⟩ := List.cons.inj heq
            obtain ⟨⟨b, hb⟩, hfront⟩ := List.forall_mem_cons.mp hfront
            exact .inr ⟨b, hb, front, y, back, rfl, hfront, h⟩

end Except
