import ClassFilter.Polarity

/-!
# `ClassFilter.Proofs.Status`: the first answer that counts

A chain gives the first answer of its rules that settles the query. `Status.orElse` picks one of
two answers in this way, and `Status.first` picks one of a list.

* `orElse_assoc`, `first_append`: answers can be grouped in any way.
* `first_orElse_of_mem`: an answer that was asked for before adds nothing.
* `Leans`: an answer stays, or it changes to the answer of a polarity. `orElse_comm_of_leans`
  says that two rules of one polarity can be asked in either order.
* `Leans.orElse`, `Leans.first_map`: if single answers change only to the answer of a polarity,
  so does the answer that is picked.
-/

set_option autoImplicit false

namespace ClassFilter.Status

/-! ### Picking an answer -/

/-- The first of two answers if it settles the query, else the second. The answers of two rules that
stand one after the other are put together in this way. -/
def orElse : Status → Status → Status
  | .undecided, t => t
  | .allow, _ => .allow
  | .reject, _ => .reject

/-- The first of a list of answers that settles the query. If there is none, the query is left
undecided. -/
def first (answers : List Status) : Status :=
  answers.foldr orElse .undecided

@[simp] theorem undecided_orElse (t : Status) : orElse .undecided t = t := rfl

@[simp] theorem orElse_undecided (s : Status) : s.orElse .undecided = s := by
  cases s <;> rfl

/-- An answer that settles the query is final, whatever comes after it. With the law for the
undecided answer it covers all statuses. -/
theorem orElse_of_ne {s : Status} (h : s ≠ .undecided) (t : Status) : s.orElse t = s := by
  cases s with
  | undecided => exact absurd rfl h
  | allow => rfl
  | reject => rfl

theorem orElse_assoc (s t u : Status) : (s.orElse t).orElse u = s.orElse (t.orElse u) := by
  cases s <;> rfl

@[simp] theorem first_nil : first [] = .undecided := rfl

@[simp] theorem first_cons (s : Status) (answers : List Status) :
    first (s :: answers) = s.orElse (first answers) := rfl

theorem first_append (front back : List Status) :
    first (front ++ back) = (first front).orElse (first back) := by
  induction front with
  | nil => rfl
  | cons s front ih => rw [List.cons_append, first_cons, first_cons, ih, orElse_assoc]

/-- An answer that was asked for before adds nothing. If it settles the query, it or an earlier one
has done so already. -/
theorem first_orElse_of_mem {s : Status} {answers : List Status} (h : s ∈ answers) (t : Status) :
    (first answers).orElse (s.orElse t) = (first answers).orElse t := by
  induction answers with
  | nil => cases h
  | cons a answers ih =>
    rw [first_cons, orElse_assoc, orElse_assoc]
    rcases List.mem_cons.1 h with rfl | h
    · -- The answer is asked for first here. It settles the query, or it never does.
      cases s <;> rfl
    · rw [ih h]

/-! ### Answers that change to one side -/

/-- The second answer is the first one, or the answer of the polarity. It says in which direction an
answer may change when a chain or a query does. -/
def Leans (p : Polarity) (s t : Status) : Prop :=
  t = s ∨ t = p.onMatch

theorem Leans.refl (p : Polarity) (s : Status) : Leans p s s := .inl rfl

/-- A class rule gives the answer of its polarity or none. So its answers lean towards its polarity
from having none. -/
theorem leans_answer (p : Polarity) (isMatch : Bool) : Leans p .undecided (p.answer isMatch) := by
  cases isMatch with
  | false => exact .inl rfl
  | true => exact .inr rfl

/-- If two answers change to one side only, so does the one that is picked. When the first of them
changes it is picked, and when it stays the second decides. -/
theorem Leans.orElse {p : Polarity} {s s' t t' : Status} (hs : Leans p s s') (ht : Leans p t t') :
    Leans p (s.orElse t) (s'.orElse t') := by
  rcases hs with rfl | rfl
  · -- The first answer stays, so it still hides the second one or lets it through.
    cases s' with
    | undecided => exact ht
    | allow => exact .inl rfl
    | reject => exact .inl rfl
  · exact .inr (orElse_of_ne p.onMatch_ne_undecided t')

/-- If the answers of a list change to one side only, so does the first that is picked. It is
`Leans.orElse` along the list. -/
theorem Leans.first_map {α : Type} {p : Polarity} {f g : α → Status} {xs : List α}
    (h : ∀ x ∈ xs, Leans p (f x) (g x)) : Leans p (first (xs.map f)) (first (xs.map g)) := by
  induction xs with
  | nil => exact .refl p _
  | cons x xs ih =>
    rw [List.map_cons, List.map_cons, first_cons, first_cons]
    exact (h x List.mem_cons_self).orElse (ih fun y hy => h y (List.mem_cons_of_mem _ hy))

/-- Two answers that are each of one polarity or none are picked in either order. If both settle the
query they are the same. -/
theorem orElse_comm_of_leans {p : Polarity} {s t : Status} (hs : Leans p .undecided s)
    (ht : Leans p .undecided t) : s.orElse t = t.orElse s := by
  rcases hs with rfl | rfl
  · exact (orElse_undecided t).symm
  · rcases ht with rfl | rfl
    · exact orElse_undecided _
    · rfl

end ClassFilter.Status
