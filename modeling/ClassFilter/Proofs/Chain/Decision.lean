import ClassFilter.Chain.Decision

/-!
# `ClassFilter.Proofs.Chain.Decision`: the answer of a chain, rule by rule

`Chain.decideFrom?` carries a position along, on which the status of the decision does not
depend. So `Chain.evaluate` has the equations of a search for the first opinion:
`evaluate_nil` and `evaluate_cons`. An answer that settles the query comes from a decision
(`evaluate_eq_iff_exists`).

The decision itself is the first rule with an opinion (`decideFrom?_eq_some_iff`), which splits the
rules into those before it and those after it, or there is none (`decideFrom?_eq_none_iff`). From
the first rule on, its position counts the rules before it (`decide?_eq_some_iff`).
-/

set_option autoImplicit false

namespace ClassFilter.Chain

/-- The position from which rules are counted does not change the status. `evaluate` forgets the
position, so the count carried along can be ignored in its equations. -/
theorem map_status_decideFrom? (q : Query) (start start' : Nat) (rules : List Rule) :
    (decideFrom? q start rules).map Decision.status
      = (decideFrom? q start' rules).map Decision.status := by
  -- The positions move on together, so they are general in the induction.
  induction rules generalizing start start' with
  | nil => rfl
  | cons r rules ih =>
    rw [decideFrom?, decideFrom?]
    cases r.check q with
    | undecided => exact ih (start + 1) (start' + 1)
    | allow => rfl
    | reject => rfl

theorem evaluate_eq_getD (c : Chain) (q : Query) :
    c.evaluate q = ((c.decide? q).map Decision.status).getD .undecided := by
  unfold evaluate
  cases c.decide? q <;> rfl

/-- An answer that settles the query is that of a decision. The undecided answer is left out,
because it stands for there being no decision. -/
theorem evaluate_eq_iff_exists {c : Chain} {q : Query} {st : Status} (hst : st ≠ .undecided) :
    c.evaluate q = st ↔ ∃ d, c.decide? q = some d ∧ d.status = st := by
  unfold evaluate
  cases c.decide? q with
  | none => simp [hst.symm]
  | some d => simp

/-- Without rules there is no answer. Compiled chains have a rule, but the remaining rules of a
chain come down to this in an induction. -/
theorem evaluate_nil (q : Query) : (Chain.mk []).evaluate q = .undecided := rfl

/-- The first rule answers if it has an opinion, and the others answer if it has none. This equation
is the step of every induction over the rules of a chain. -/
theorem evaluate_cons (r : Rule) (rules : List Rule) (q : Query) :
    (Chain.mk (r :: rules)).evaluate q =
      if r.check q = .undecided then (Chain.mk rules).evaluate q else r.check q := by
  rw [evaluate_eq_getD, evaluate_eq_getD, decide?, decide?, decideFrom?]
  cases r.check q with
  | undecided => rw [map_status_decideFrom? q (0 + 1) 0, if_pos rfl]
  | allow => rfl
  | reject => rfl

/-- One rule answers for a chain that holds no other. So a rule can be judged on its own by a chain
made of it. -/
theorem evaluate_singleton (r : Rule) (q : Query) : (Chain.mk [r]).evaluate q = r.check q := by
  rw [evaluate_cons, evaluate_nil]
  split
  · rename_i hnone
    exact hnone.symm
  · rfl

/-! ### The first opinion -/

/-- A decision is the first rule with an opinion, and all rules before it have none. Its position
counts from the given start, which the search raises by one at each rule it passes. -/
theorem decideFrom?_eq_some_iff {q : Query} {start : Nat} {rules : List Rule} {d : Decision} :
    decideFrom? q start rules = some d ↔
      ∃ before after, rules = before ++ d.rule :: after ∧ d.position = start + before.length ∧
        (∀ r ∈ before, r.check q = .undecided) ∧ d.rule.check q = d.status ∧
        d.status ≠ .undecided := by
  induction rules generalizing start with
  | nil => simp [decideFrom?]
  | cons r rules ih =>
    rw [decideFrom?]
    split
    · -- The rule has no opinion, so it joins those before the decision.
      rename_i hnone
      rw [ih]
      constructor
      · rintro ⟨before, after, rfl, hposition, hbefore, hcheck⟩
        refine ⟨r :: before, after, rfl, ?_, List.forall_mem_cons.2 ⟨hnone, hbefore⟩, hcheck⟩
        rw [hposition, List.length_cons]
        omega
      · rintro ⟨before, after, hsplit, hposition, hbefore, hcheck, hdecided⟩
        cases before with
        | nil =>
          obtain ⟨rfl, rfl⟩ := List.cons.inj hsplit
          exact absurd (hcheck.symm.trans hnone) hdecided
        | cons first before =>
          obtain ⟨rfl, rfl⟩ := List.cons.inj hsplit
          refine ⟨before, after, rfl, ?_, (List.forall_mem_cons.1 hbefore).2, hcheck, hdecided⟩
          rw [hposition, List.length_cons]
          omega
    · rename_i hsome
      constructor
      · rintro ⟨⟩
        exact ⟨[], rules, rfl, rfl, List.forall_mem_nil _, rfl, hsome⟩
      · rintro ⟨before, after, hsplit, hposition, hbefore, hcheck, -⟩
        cases before with
        | nil =>
          obtain ⟨position, rule, status⟩ := d
          obtain ⟨rfl, rfl⟩ := List.cons.inj hsplit
          cases hposition
          obtain rfl : r.check q = status := hcheck
          rfl
        | cons first before =>
          obtain ⟨rfl, rfl⟩ := List.cons.inj hsplit
          exact absurd (hbefore r List.mem_cons_self) hsome

/-- The position of a decision counts the rules before it, so it is the index of the rule in the
chain. This is `decideFrom?_eq_some_iff` from the first rule on. -/
theorem decide?_eq_some_iff {c : Chain} {q : Query} {d : Decision} :
    c.decide? q = some d ↔
      ∃ before after, c.rules = before ++ d.rule :: after ∧ d.position = before.length ∧
        (∀ r ∈ before, r.check q = .undecided) ∧ d.rule.check q = d.status ∧
        d.status ≠ .undecided := by
  rw [decide?, decideFrom?_eq_some_iff]
  simp only [Nat.zero_add]

/-- Without a decision no rule has an opinion, and the other way round. Where the counting starts
makes no difference. -/
theorem decideFrom?_eq_none_iff {q : Query} {start : Nat} {rules : List Rule} :
    decideFrom? q start rules = none ↔ ∀ r ∈ rules, r.check q = .undecided := by
  induction rules generalizing start with
  | nil => simp [decideFrom?]
  | cons r rules ih =>
    rw [decideFrom?, List.forall_mem_cons]
    split
    · rename_i hnone
      rw [ih]
      simp [hnone]
    · rename_i hsome
      simp [show r.check q ≠ .undecided from hsome]

end ClassFilter.Chain
