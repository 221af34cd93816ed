import ClassFilter.Proofs.Chain.Text

/-!
# `ClassFilter.Proofs.Chain.Image`: which chains have a specification

`Chain.WellFormed` is the invariant of compiled chains, stated through the elements that
rules are made of. This file states the same chains clause by clause, on the rules as they
stand, and shows that nothing else is needed:

* `Chain.Expressible`: the clauses. Each is about one kind of rule, or about the place of a
  rule in the chain.
* `Rule.admits_of_mem_texts`, `Rule.nodup_exactPolarities_iff`: the two clauses that are
  stated in another way by `Chain.WellFormed`.
* `Chain.expressible_iff_wellFormed`: both say the same.
* `Chain.exists_compile_iff_expressible`: the chains that specifications compile to are the
  expressible ones.
-/

set_option autoImplicit false

namespace ClassFilter

/-! ### The clauses -/

/-- The texts of a rule: its class names, or what stands before its stars. The clauses about
characters are about these, and a limit has none. -/
def Rule.texts : Rule → List String
  | .limit _ _ => []
  | .exact _ names => names.toList
  | .wildcard _ _ text => [text]

/-- What a chain needs to have a specification:
- `nonempty`: there is a rule;
- `bounds`: a bound fits a signed word;
- `oneSet`: exact rules of one polarity are the same rule;
- `named`: an exact rule has a class name;
- `unreserved`: no text holds a character that the language reserves;
- `unmarked`: no text to allow begins with the marker of a denied one;
- `denied`: the empty name is not denied;
- `packages`: a package or hierarchy is named, with a dot at its end;
- `stems`: a stem does not end in a dot;
- `anchored`: if the empty name alone is allowed last, a class is denied by name. -/
structure Chain.Expressible (c : Chain) : Prop where
  nonempty : c.rules ≠ []
  bounds : ∀ metric max, .limit metric max ∈ c.rules → max.toNat ≤ 2 ^ 63 - 1
  oneSet : ∀ (i j : Nat) (p : Polarity) (names names' : NameSet),
    c.rules[i]? = some (.exact p names) → c.rules[j]? = some (.exact p names') → i = j
  named : ∀ p names, .exact p names ∈ c.rules → ∃ name, name ∈ names
  unreserved : ∀ r ∈ c.rules, ∀ text ∈ r.texts,
    ';' ∉ text.toList ∧ '/' ∉ text.toList ∧ '=' ∉ text.toList ∧ '*' ∉ text.toList
  unmarked : ∀ r ∈ c.rules, r.polarity? = some .allow →
    ∀ text ∈ r.texts, text.toList.head? ≠ some '!'
  denied : ∀ names, .exact .deny names ∈ c.rules → "" ∉ names
  packages : ∀ p scope text, .wildcard p scope text ∈ c.rules →
    scope = .package ∨ scope = .hierarchy → text.toList.getLast? = some '.' ∧ text ≠ "."
  stems : ∀ p text, .wildcard p .stem text ∈ c.rules → text.toList.getLast? ≠ some '.'
  anchored : c.rules.getLast? = some (.exact .allow (.singleton "")) →
    ∃ names, .exact .deny names ∈ c.rules

/-! ### The clauses and the invariant -/

namespace Rule

/-- A text of a well-formed rule can follow the marker of the rule's polarity. It brings the two
forms of a rule that have texts under one statement. -/
theorem admits_of_mem_texts {r : Rule} (h : r.WellFormed) {text : String} (htext : text ∈ r.texts) :
    ∃ p, r.polarity? = some p ∧ p.Admits text := by
  cases r with
  | limit metric max => cases htext
  | exact p names => exact ⟨p, rfl, ((wellFormed_exact_iff.1 h).2 text htext).1⟩
  | wildcard p scope front =>
    have hfront : text = front := List.mem_singleton.1 htext
    rw [hfront]
    exact ⟨p, rfl, (wellFormed_wildcard_iff.1 h).1⟩

/-- No polarity has two exact rules, if no exact rule is followed by one of its polarity. It takes
the list of polarities away, along which the invariant was proved by induction. -/
theorem nodup_exactPolarities_iff_pairwise {rules : List Rule} :
    (exactPolarities rules).Nodup ↔
      rules.Pairwise fun r s => ∀ p names names', r = .exact p names → s ≠ .exact p names' := by
  induction rules with
  | nil => exact iff_of_true List.nodup_nil List.Pairwise.nil
  | cons r rules ih =>
    rw [List.pairwise_cons, ← ih]
    cases r with
    | limit metric max => exact (and_iff_right fun s _ p names names' h => nomatch h).symm
    | wildcard p scope text => exact (and_iff_right fun s _ p names names' h => nomatch h).symm
    | exact p names =>
      rw [exactPolarities, List.nodup_cons, mem_exactPolarities]
      refine and_congr_left fun _ => ⟨fun h s hs q names₁ names₂ heq hs' => ?_, fun h => ?_⟩
      · -- The rule that follows would be of the polarity of the first.
        cases heq
        rw [hs'] at hs
        exact h ⟨names₂, hs⟩
      · rintro ⟨names', hmem⟩
        exact h _ hmem p names names' rfl rfl

/-- No polarity has two exact rules, if exact rules of one polarity have one index. The names in
both are then the same as well, being those of one rule. -/
theorem nodup_exactPolarities_iff {rules : List Rule} :
    (exactPolarities rules).Nodup ↔
      ∀ (i j : Nat) (p : Polarity) (names names' : NameSet),
        rules[i]? = some (.exact p names) → rules[j]? = some (.exact p names') → i = j := by
  rw [nodup_exactPolarities_iff_pairwise, List.pairwise_iff_getElem]
  constructor
  · -- Of two different indices one comes first.
    intro h i j p names names' hi hj
    obtain ⟨hilt, hi⟩ := List.getElem?_eq_some_iff.1 hi
    obtain ⟨hjlt, hj⟩ := List.getElem?_eq_some_iff.1 hj
    rcases Nat.lt_trichotomy i j with hlt | heq | hgt
    · exact absurd hj (h i j hilt hjlt hlt p names names' hi)
    · exact heq
    · exact absurd hi (h j i hjlt hilt hgt p names' names hj)
  · intro h i j hi hj hlt p names names' heq heq'
    have hij := h i j p names names' (List.getElem?_eq_some_iff.2 ⟨hi, heq⟩)
      (List.getElem?_eq_some_iff.2 ⟨hj, heq'⟩)
    omega

end Rule

namespace Chain

/-- The invariant gives every clause. Each is a part of what it says about one kind of rule, but for
the clause on indices. -/
theorem expressible_of_wellFormed {c : Chain} (h : c.WellFormed) : c.Expressible where
  nonempty := h.nonempty
  bounds metric max hmem := by
    have hmax : max.toNat < 2 ^ 63 := Rule.wellFormed_limit_iff.1 (h.rules _ hmem)
    omega
  oneSet := Rule.nodup_exactPolarities_iff.1 h.nodup
  named p names hmem := by
    obtain ⟨hne, -⟩ := Rule.wellFormed_exact_iff.1 (h.rules _ hmem)
    exact List.exists_mem_of_ne_nil names.toList hne
  unreserved r hr text htext := by
    obtain ⟨p, -, hplain, -⟩ := Rule.admits_of_mem_texts (h.rules r hr) htext
    exact unreserved_iff_not_mem.1 hplain
  unmarked r hr hallow text htext := by
    obtain ⟨p, hp, -, hmarker⟩ := Rule.admits_of_mem_texts (h.rules r hr) htext
    exact hmarker (Option.some.inj (hp.symm.trans hallow))
  denied names hmem hempty := by
    obtain ⟨-, hnames⟩ := Rule.wellFormed_exact_iff.1 (h.rules _ hmem)
    exact (hnames "" hempty).2 rfl rfl
  packages p scope text hmem hscope := by
    obtain ⟨-, hfits⟩ := Rule.wellFormed_wildcard_iff.1 (h.rules _ hmem)
    rcases hscope with rfl | rfl
    · exact ⟨ClassName.endsWithDot_eq_true_iff.1 hfits.1, hfits.2⟩
    · exact ⟨ClassName.endsWithDot_eq_true_iff.1 hfits.1, hfits.2⟩
  stems p text hmem hdot := by
    obtain ⟨-, hfits⟩ := Rule.wellFormed_wildcard_iff.1 (h.rules _ hmem)
    exact Bool.false_ne_true (hfits.symm.trans (ClassName.endsWithDot_eq_true_iff.2 hdot))
  anchored hlast := Rule.mem_exactPolarities.1 (h.anchored (endsInEmptyName_iff.2 hlast))

/-- A text of a rule of an expressible chain can follow the marker of the rule's polarity. The
clauses on reserved characters and on the marker are together what this means. -/
theorem Expressible.admits {c : Chain} (h : c.Expressible) {r : Rule} (hr : r ∈ c.rules)
    {p : Polarity} (hp : r.polarity? = some p) {text : String} (htext : text ∈ r.texts) :
    p.Admits text := by
  refine ⟨unreserved_iff_not_mem.2 (h.unreserved r hr text htext), fun hallow => ?_⟩
  rw [hallow] at hp
  exact h.unmarked r hr hp text htext

/-- The clauses together make every rule well formed. Each kind of rule takes up those that are
about it, a pattern further split by its scope. -/
theorem Expressible.rule_wellFormed {c : Chain} (h : c.Expressible) {r : Rule} (hr : r ∈ c.rules) :
    r.WellFormed := by
  cases r with
  | limit metric max =>
    have hmax := h.bounds metric max hr
    exact Rule.wellFormed_limit_iff.2 (show max.toNat < 2 ^ 63 by omega)
  | exact p names =>
    obtain ⟨first, hfirst⟩ := h.named p names hr
    refine Rule.wellFormed_exact_iff.2 ⟨List.ne_nil_of_mem (NameSet.mem_toList.2 hfirst), ?_⟩
    intro name hname
    refine ⟨h.admits hr rfl hname, fun hdeny hempty => ?_⟩
    rw [hdeny] at hr
    rw [hempty] at hname
    exact h.denied names hr hname
  | wildcard p scope text =>
    refine Rule.wellFormed_wildcard_iff.2 ⟨h.admits hr rfl (List.mem_singleton.2 rfl), ?_⟩
    cases scope with
    | package =>
      obtain ⟨hdot, hne⟩ := h.packages p .package text hr (.inl rfl)
      exact ⟨ClassName.endsWithDot_eq_true_iff.2 hdot, hne⟩
    | hierarchy =>
      obtain ⟨hdot, hne⟩ := h.packages p .hierarchy text hr (.inr rfl)
      exact ⟨ClassName.endsWithDot_eq_true_iff.2 hdot, hne⟩
    | stem =>
      refine Bool.eq_false_iff.2 fun hdot => h.stems p text hr ?_
      exact ClassName.endsWithDot_eq_true_iff.1 hdot

/-- The clauses are the invariant of compiled chains, which is stated through the elements that
rules are made of. Nothing follows from one that does not follow from the other. -/
theorem expressible_iff_wellFormed {c : Chain} : c.Expressible ↔ c.WellFormed := by
  refine ⟨fun h => ⟨h.nonempty, fun r hr => h.rule_wellFormed hr, ?_, fun hend => ?_⟩,
    expressible_of_wellFormed⟩
  · exact Rule.nodup_exactPolarities_iff.2 h.oneSet
  · exact Rule.mem_exactPolarities.2 (h.anchored (endsInEmptyName_iff.1 hend))

/-- A chain is compiled from some specification exactly when it is expressible. The specification
may be taken to be its own text, so this can be decided by compiling once. -/
theorem exists_compile_iff_expressible {c : Chain} :
    (∃ spec, compile spec = .ok c) ↔ c.Expressible := by
  rw [exists_compile_eq_ok_iff, expressible_iff_wellFormed]

end Chain

end ClassFilter
