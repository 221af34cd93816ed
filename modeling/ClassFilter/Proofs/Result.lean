import Mathlib.Order.WellFounded

/-!
# `ClassFilter.Proofs.Result`: when a sequence of tests succeeds

Reading and judging stop at the first error. A success therefore means that every step
succeeded, which the theorems state for each way to put steps together. A failure means that
one step failed and those before it succeeded.

Which step that is can also be said without the sequence, by ranking what the steps report.
`exists_least` says that among reasons that apply there is one of the lowest rank.
-/

set_option autoImplicit false

namespace ClassFilter.Result

variable {α β ε ε' : Type}

theorem bind_eq_ok_iff {x : Except ε α} {f : α → Except ε β} {b : β} :
    (x >>= f) = .ok b ↔ ∃ a, x = .ok a ∧ f a = .ok b := by
  cases x with
  | error err =>
    constructor
    · intro h
      cases h
    · intro ⟨a, ha, _⟩
      cases ha
  | ok a =>
    constructor
    · intro h
      exact ⟨a, rfl, h⟩
    · intro ⟨a', ha, h⟩
      cases ha
      exact h

/-- A step without a value succeeds, and then the next one. It spares the value that
`bind_eq_ok_iff` would ask for, as there is only one. -/
theorem bind_unit_eq_ok_iff {x : Except ε Unit} {f : Unit → Except ε β} {b : β} :
    (x >>= f) = .ok b ↔ x = .ok () ∧ f () = .ok b := by
  rw [bind_eq_ok_iff]
  exact ⟨fun ⟨_, hx, h⟩ => ⟨hx, h⟩, fun ⟨hx, h⟩ => ⟨(), hx, h⟩⟩

theorem map_eq_ok_iff {x : Except ε α} {f : α → β} {b : β} :
    x.map f = .ok b ↔ ∃ a, x = .ok a ∧ f a = b := by
  cases x with
  | error err =>
    constructor
    · intro h
      cases h
    · intro ⟨a, ha, _⟩
      cases ha
  | ok a =>
    constructor
    · intro h
      cases h
      exact ⟨a, rfl, rfl⟩
    · intro ⟨a', ha, h⟩
      cases ha
      rw [← h]
      rfl

/-- Changing the errors of a step changes nothing about its success, neither whether it succeeds nor
what it gives. -/
theorem mapError_eq_ok_iff {x : Except ε α} {f : ε → ε'} {a : α} :
    x.mapError f = .ok a ↔ x = .ok a := by
  cases x with
  | error err =>
    constructor <;> intro h <;> cases h
  | ok b =>
    show (Except.ok b : Except ε' α) = Except.ok a ↔ (Except.ok b : Except ε α) = Except.ok a
    rw [Except.ok.injEq, Except.ok.injEq]

/-- A test that is met is an error, so a success means that it was not met and that the rest
succeeded. It takes off one test at a time. -/
theorem ite_error_eq_ok_iff {p : Prop} [Decidable p] {err : ε} {x : Except ε α} {a : α} :
    (if p then .error err else x) = .ok a ↔ ¬ p ∧ x = .ok a := by
  by_cases hp : p <;> simp [hp]

/-- A list is judged whole: the judgement succeeds just if it does of each member. In which order
they are judged is seen in failures only. -/
theorem forM_eq_ok_iff {f : α → Except ε Unit} {xs : List α} :
    xs.forM f = .ok () ↔ ∀ x ∈ xs, f x = .ok () := by
  induction xs with
  | nil =>
    show Except.ok () = Except.ok () ↔ _
    simp
  | cons x xs ih =>
    show (f x >>= fun _ => xs.forM f) = .ok () ↔ _
    rw [bind_unit_eq_ok_iff, List.forall_mem_cons, ih]

/-- A list is read whole exactly when each of its members is read. As an equation of lists it gives
the order and the number of the results too. -/
theorem mapM_eq_ok_iff {f : α → Except ε β} {xs : List α} {ys : List β} :
    xs.mapM f = .ok ys ↔ xs.map f = ys.map .ok := by
  induction xs generalizing ys with
  | nil =>
    show Except.ok [] = Except.ok ys ↔ [] = ys.map Except.ok
    rw [Except.ok.injEq, eq_comm, eq_comm (a := []), List.map_eq_nil_iff]
  | cons x xs ih =>
    rw [List.mapM_cons, bind_eq_ok_iff, List.map_cons]
    constructor
    · intro ⟨y, hy, h⟩
      obtain ⟨rest, hrest, heq⟩ := bind_eq_ok_iff.1 h
      cases heq
      rw [List.map_cons, hy, ih.1 hrest]
    · intro h
      cases ys with
      | nil => cases h
      | cons y rest =>
        obtain ⟨hy, hrest⟩ := List.cons.inj h
        exact ⟨y, hy, bind_eq_ok_iff.2 ⟨rest, ih.2 hrest, rfl⟩⟩

/-- Each member of a list that is read is read as a member of the result. It takes one member out of
the equation that `mapM_eq_ok_iff` gives. -/
theorem exists_mem_of_map_eq {f : α → Except ε β} {xs : List α} {ys : List β}
    (h : xs.map f = ys.map .ok) {x : α} (hx : x ∈ xs) : ∃ y ∈ ys, f x = .ok y := by
  have hmem : f x ∈ xs.map f := List.mem_map_of_mem hx
  rw [h] at hmem
  obtain ⟨y, hy, heq⟩ := List.mem_map.1 hmem
  exact ⟨y, hy, heq.symm⟩

theorem bind_eq_error_iff {x : Except ε α} {f : α → Except ε β} {err : ε} :
    (x >>= f) = .error err ↔ x = .error err ∨ ∃ a, x = .ok a ∧ f a = .error err := by
  cases x with
  | error err' =>
    show Except.error err' = Except.error err ↔ _
    simp
  | ok a =>
    show f a = .error err ↔ _
    simp

theorem map_eq_error_iff {x : Except ε α} {f : α → β} {err : ε} :
    x.map f = .error err ↔ x = .error err := by
  cases x with
  | error err' =>
    show Except.error err' = Except.error err ↔ _
    rw [Except.error.injEq, Except.error.injEq]
  | ok a => constructor <;> intro h <;> cases h

/-- An error of a step whose errors are changed is one of the step, changed. The error before the
change need not be unique. -/
theorem mapError_eq_error_iff {x : Except ε α} {f : ε → ε'} {err : ε'} :
    x.mapError f = .error err ↔ ∃ err', x = .error err' ∧ f err' = err := by
  cases x with
  | error err' =>
    show Except.error (f err') = Except.error err ↔ _
    simp
  | ok a =>
    show Except.ok a = Except.error err ↔ _
    simp

/-- A list is refused for the first of its members that is, with the error of that member. Those
after it are not looked at and may be of any kind. -/
theorem mapM_eq_error_iff {f : α → Except ε β} {xs : List α} {err : ε} :
    xs.mapM f = .error err ↔
      ∃ before x after, xs = before ++ x :: after ∧ (∀ y ∈ before, ∃ b, f y = .ok b) ∧
        f x = .error err := by
  induction xs with
  | nil =>
    show Except.ok [] = Except.error err ↔ _
    simp
  | cons first xs ih =>
    rw [List.mapM_cons, bind_eq_error_iff]
    constructor
    · rintro (hfirst | ⟨b, hb, hrest⟩)
      · exact ⟨[], first, xs, rfl, List.forall_mem_nil _, hfirst⟩
      · -- The first member is fine, so the one at fault is among the others.
        have hmap : xs.mapM f = .error err :=
          (bind_eq_error_iff.1 hrest).resolve_right fun ⟨_, _, h⟩ => nomatch h
        obtain ⟨before, x, after, rfl, hbefore, hx⟩ := ih.1 hmap
        exact ⟨first :: before, x, after, rfl, List.forall_mem_cons.2 ⟨⟨b, hb⟩, hbefore⟩, hx⟩
    · intro ⟨before, x, after, hxs, hbefore, hx⟩
      cases before with
      | nil =>
        obtain ⟨rfl, rfl⟩ := List.cons.inj hxs
        exact .inl hx
      | cons y before =>
        obtain ⟨rfl, rfl⟩ := List.cons.inj hxs
        obtain ⟨⟨b, hb⟩, hbefore⟩ := List.forall_mem_cons.1 hbefore
        refine .inr ⟨b, hb, bind_eq_error_iff.2 (.inl ?_)⟩
        exact ih.2 ⟨before, x, after, rfl, hbefore, hx⟩

/-- Reading members one by one, and working on each at once, is reading the list and working on what
was read. Working cannot fail, so the errors are those of reading in both. -/
theorem foldlM_map_eq_map_mapM {γ : Type} (f : α → Except ε β) (g : γ → β → γ) (xs : List α)
    (c : γ) : xs.foldlM (fun c x => (f x).map (g c)) c = (xs.mapM f).map (·.foldl g c) := by
  induction xs generalizing c with
  | nil => rfl
  | cons x xs ih =>
    rw [List.foldlM_cons, List.mapM_cons]
    cases f x with
    | error err => rfl
    | ok y =>
      show xs.foldlM _ (g c y) = _
      rw [ih]
      cases xs.mapM f <;> rfl

/-- Judging a list is reading it and forgetting what was read. So what is known of failures in
reading serves for judging. -/
theorem forM_eq_map_mapM (f : α → Except ε Unit) (xs : List α) :
    xs.forM f = (xs.mapM f).map fun _ => () := by
  induction xs with
  | nil => rfl
  | cons x xs ih =>
    rw [List.mapM_cons]
    show (f x >>= fun _ => xs.forM f) = _
    rw [ih]
    cases f x with
    | error err => rfl
    | ok u => cases xs.mapM f <;> rfl

/-- A list is judged for the first of its members that fails, with the error of that member. Those
before it pass. -/
theorem forM_eq_error_iff {f : α → Except ε Unit} {xs : List α} {err : ε} :
    xs.forM f = .error err ↔
      ∃ before x after, xs = before ++ x :: after ∧ (∀ y ∈ before, ∃ b, f y = .ok b) ∧
        f x = .error err := by
  rw [forM_eq_map_mapM, map_eq_error_iff, mapM_eq_error_iff]

/-! ### Ranks -/

/-- Of several things that hold, one is ranked no higher than the others. What is ranked are the
stages of reading a blob, the reasons to refuse an element and the faults of a payload, and the one
of the lowest rank is what is reported. -/
theorem exists_least {ι : Type} (rank : ι → Nat) {p : ι → Prop} {i : ι} (h : p i) :
    ∃ least, p least ∧ ∀ other, p other → rank least ≤ rank other := by
  obtain ⟨least, hleast, hmin⟩ := (measure rank).wf.has_min {j | p j} ⟨i, h⟩
  exact ⟨least, hleast, fun other hother => Nat.le_of_not_lt (hmin other hother)⟩

end ClassFilter.Result
