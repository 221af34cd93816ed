import ClassFilter.Proofs.Status
import ClassFilter.Rule

/-!
# `ClassFilter.Proofs.Rule.Check`: which answers a rule can give

A limit compares one counter of the query with its bound. `Query.Exceeds` says which counter of the
query that is, field by field, so that statements about limits need not go through
`Metric.measure`, by which the rule looks the counter up.

* `Query.exceeds_iff_measure`: the look-up finds the field. All that follows is about the fields.
* `Rule.check_limit_cases`, `Rule.check_limit_eq_reject_iff`, `Rule.leans_check_limit`: a limit
  rejects what exceeds it, and has no other answer.
* `Rule.check_congr`: a rule looks at the class, and at the counter that it limits.
* `Rule.leans_check`: where the class stays and that counter grows, an answer stays or becomes to
  reject.
-/

set_option autoImplicit false

namespace ClassFilter

/-- The counter that a limit bounds is above the bound. Depth, references and bytes are counted at
every position of a stream. An array length exceeds a bound only where the query has one: a position
outside of arrays passes every limit on it. -/
inductive Query.Exceeds (q : Query) (bound : Nat) : Metric → Prop
  | depth (h : bound < q.depth.toNat) : Exceeds q bound .depth
  | arrayLength {length : UInt64} (hlength : q.arrayLength = some length)
    (h : bound < length.toNat) : Exceeds q bound .arrayLength
  | references (h : bound < q.references.toNat) : Exceeds q bound .references
  | streamBytes (h : bound < q.streamBytes.toNat) : Exceeds q bound .streamBytes

/-- `Metric.measure` looks up the field that `Exceeds` names. This is the one place where the two
are compared; what limits do is said with `Exceeds` from here on. -/
theorem Query.exceeds_iff_measure {q : Query} {bound : Nat} {metric : Metric} :
    q.Exceeds bound metric ↔ ∃ value, metric.measure q = some value ∧ bound < value.toNat := by
  constructor
  · intro h
    cases h with
    | depth h => exact ⟨_, rfl, h⟩
    | arrayLength hlength h => exact ⟨_, hlength, h⟩
    | references h => exact ⟨_, rfl, h⟩
    | streamBytes h => exact ⟨_, rfl, h⟩
  · intro ⟨value, hvalue, h⟩
    cases metric with
    | depth =>
      obtain rfl := Option.some.inj hvalue
      exact .depth h
    | arrayLength => exact .arrayLength hvalue h
    | references =>
      obtain rfl := Option.some.inj hvalue
      exact .references h
    | streamBytes =>
      obtain rfl := Option.some.inj hvalue
      exact .streamBytes h

namespace Rule

/-- A limit never allows. It rejects a query that exceeds its bound and has no opinion on any other,
the bound itself included: the comparison is strict. -/
theorem check_limit_cases (metric : Metric) (max : UInt64) (q : Query) :
    q.Exceeds max.toNat metric ∧ (Rule.limit metric max).check q = .reject ∨
      ¬ q.Exceeds max.toNat metric ∧ (Rule.limit metric max).check q = .undecided := by
  rw [Query.exceeds_iff_measure, check]
  cases metric.measure q with
  | none => exact .inr ⟨by simp, rfl⟩
  | some value =>
    by_cases hlt : max < value
    · exact .inl ⟨⟨value, rfl, UInt64.lt_iff_toNat_lt.1 hlt⟩, if_pos hlt⟩
    · refine .inr ⟨?_, if_neg hlt⟩
      rintro ⟨_, ⟨⟩, hexceeds⟩
      exact hlt (UInt64.lt_iff_toNat_lt.2 hexceeds)

/-- The queries that a limit rejects, for callers that do not ask what it does with the others. -/
theorem check_limit_eq_reject_iff {metric : Metric} {max : UInt64} {q : Query} :
    (Rule.limit metric max).check q = .reject ↔ q.Exceeds max.toNat metric := by
  rcases check_limit_cases metric max q with ⟨hexceeds, hcheck⟩ | ⟨hwithin, hcheck⟩
  · exact iff_of_true hcheck hexceeds
  · exact iff_of_false (by rw [hcheck]; decide) hwithin

/-- A limit leans to reject, like a rule that denies. Reading a specification off its elements
relies on this: an element answers towards one polarity only. -/
theorem leans_check_limit (metric : Metric) (max : UInt64) (q : Query) :
    Status.Leans .deny .undecided ((Rule.limit metric max).check q) := by
  rcases check_limit_cases metric max q with ⟨-, hcheck⟩ | ⟨-, hcheck⟩
  · exact .inr hcheck
  · exact .inl hcheck

/-- A rule answers alike if the class is the same, and so is what exceeds the bound of the rule. A
class rule asks for the class only, so there is nothing to show about the counters then. -/
theorem check_congr {r : Rule} {q q' : Query} (hname : q'.name = q.name)
    (hexceeds : ∀ metric max, r = .limit metric max →
      (q'.Exceeds max.toNat metric ↔ q.Exceeds max.toNat metric)) : r.check q' = r.check q := by
  cases r with
  | limit metric max =>
    have hiff := hexceeds metric max rfl
    rcases check_limit_cases metric max q with ⟨h, hcheck⟩ | ⟨h, hcheck⟩
    · rw [hcheck, check_limit_eq_reject_iff]
      exact hiff.2 h
    · rcases check_limit_cases metric max q' with ⟨h', -⟩ | ⟨-, hcheck'⟩
      · exact absurd (hiff.1 h') h
      · rw [hcheck, hcheck']
  | exact p names => simp only [check, hname]
  | wildcard p scope text => simp only [check, hname]

/-- A rule answers alike or turns to reject if the class is the same and what exceeds its bound
still does so. This is the step that a growing stream takes through each rule of a chain. -/
theorem leans_check {r : Rule} {q q' : Query} (hname : q'.name = q.name)
    (hexceeds : ∀ metric max, r = .limit metric max →
      q.Exceeds max.toNat metric → q'.Exceeds max.toNat metric) :
    Status.Leans .deny (r.check q) (r.check q') := by
  cases r with
  | limit metric max =>
    rcases check_limit_cases metric max q' with ⟨-, hcheck'⟩ | ⟨hwithin, hcheck'⟩
    · exact .inr hcheck'
    · -- What is within the bound now was so before.
      rcases check_limit_cases metric max q with ⟨h, -⟩ | ⟨-, hcheck⟩
      · exact absurd (hexceeds metric max rfl h) hwithin
      · exact .inl (hcheck'.trans hcheck.symm)
  | exact p names => exact .inl (check_congr hname nofun)
  | wildcard p scope text => exact .inl (check_congr hname nofun)

end Rule

end ClassFilter
