import ClassFilter.Proofs.Chain.Decision
import ClassFilter.Proofs.Rule.Check

/-!
# `ClassFilter.Proofs.Chain.Growth`: what a longer stream does to the answers

While a stream is decoded, its counters grow. The theorems compare the answers to two queries about
one class, where the counters that the chain limits are no smaller in the second.

* `Chain.Grows`: this relation between queries. The counters that no rule limits are arbitrary.
* `Chain.decideFrom?_of_leans`: if single rules answer alike or towards one polarity, the decision
  is the same, or one of that polarity which is taken no later. The induction is on the rules.
* `Chain.Grows.decide?_eq_or_reject`, `Chain.decide?_of_grows`: so a growing stream is decided
  alike, or rejected no later.
-/

set_option autoImplicit false

namespace ClassFilter.Chain

/-- A rule of the chain limits this counter. The other counters do not matter for its answers. -/
def Limits (c : Chain) (metric : Metric) : Prop :=
  ∃ max, .limit metric max ∈ c.rules

/-- A second query is about the same class, and no counter that the chain limits is smaller in it.
An absent array length is smaller than any that is present, and the counters that no rule limits
are arbitrary. -/
structure Grows (c : Chain) (q q' : Query) : Prop where
  name : q'.name = q.name
  depth : c.Limits .depth → q.depth ≤ q'.depth
  arrayLength : c.Limits .arrayLength → ∀ length, q.arrayLength = some length →
    ∃ length', q'.arrayLength = some length' ∧ length ≤ length'
  references : c.Limits .references → q.references ≤ q'.references
  streamBytes : c.Limits .streamBytes → q.streamBytes ≤ q'.streamBytes

/-- Two queries have the same counters as far as the chain limits them. The other counters may
differ in any way, and nothing is said about the class. -/
structure SameCounters (c : Chain) (q q' : Query) : Prop where
  depth : c.Limits .depth → q'.depth = q.depth
  arrayLength : c.Limits .arrayLength → q'.arrayLength = q.arrayLength
  references : c.Limits .references → q'.references = q.references
  streamBytes : c.Limits .streamBytes → q'.streamBytes = q.streamBytes

/-- Positions are counted upwards, so a decision stands no earlier than where the search began. It
gives the position its bound when a rule at the front rejects the second query. -/
theorem le_position_of_decideFrom? {q : Query} {start : Nat} {rules : List Rule} {d : Decision}
    (h : decideFrom? q start rules = some d) : start ≤ d.position := by
  obtain ⟨before, -, -, hposition, -⟩ := decideFrom?_eq_some_iff.1 h
  omega

/-- Rules that answer alike decide alike, with the same rule at the same position. It is stated for
any start, as the search moves on. -/
theorem decideFrom?_congr {q q' : Query} {rules : List Rule}
    (h : ∀ r ∈ rules, r.check q' = r.check q) (start : Nat) :
    decideFrom? q' start rules = decideFrom? q start rules := by
  induction rules generalizing start with
  | nil => rfl
  | cons r rules ih =>
    rw [decideFrom?, decideFrom?, h r List.mem_cons_self,
      ih fun x hx => h x (List.mem_cons_of_mem _ hx)]

/-- Rules that answer alike or towards one polarity decide alike, or towards it and no later. At a
rule whose opinion changed the second search stops, and the first one goes past it or stops
there. -/
theorem decideFrom?_of_leans {p : Polarity} {q q' : Query} {rules : List Rule}
    (h : ∀ r ∈ rules, Status.Leans p (r.check q) (r.check q')) (start : Nat) :
    decideFrom? q' start rules = decideFrom? q start rules ∨
      ∃ d', decideFrom? q' start rules = some d' ∧ d'.status = p.onMatch ∧
        ∀ d, decideFrom? q start rules = some d → d'.position ≤ d.position := by
  induction rules generalizing start with
  | nil => exact .inl rfl
  | cons r rules ih =>
    have hrest := ih (fun x hx => h x (List.mem_cons_of_mem _ hx)) (start + 1)
    rcases h r List.mem_cons_self with hsame | hmoved
    · rw [decideFrom?, decideFrom?, hsame]
      cases r.check q with
      | undecided => exact hrest
      | allow => exact .inl rfl
      | reject => exact .inl rfl
    · -- The rule decides now, and no other can do so before it.
      have hd' : decideFrom? q' start (r :: rules) = some ⟨start, r, p.onMatch⟩ := by
        rw [decideFrom?, hmoved]
        cases p <;> rfl
      exact .inr ⟨_, hd', rfl, fun d hd => le_position_of_decideFrom? hd⟩

/-! ### Decisions about a growing stream -/

/-- What exceeds a bound on a counter that the chain limits still does so when the counter grew. -/
theorem Grows.exceeds {c : Chain} {q q' : Query} (h : c.Grows q q') {metric : Metric}
    (hlimits : c.Limits metric) {bound : Nat} (hexceeds : q.Exceeds bound metric) :
    q'.Exceeds bound metric := by
  cases hexceeds with
  | depth hlt => exact .depth (Nat.lt_of_lt_of_le hlt (UInt64.le_iff_toNat_le.1 (h.depth hlimits)))
  | arrayLength hlength hlt =>
    obtain ⟨length', hlength', hle⟩ := h.arrayLength hlimits _ hlength
    exact .arrayLength hlength' (Nat.lt_of_lt_of_le hlt (UInt64.le_iff_toNat_le.1 hle))
  | references hlt =>
    exact .references (Nat.lt_of_lt_of_le hlt (UInt64.le_iff_toNat_le.1 (h.references hlimits)))
  | streamBytes hlt =>
    exact .streamBytes (Nat.lt_of_lt_of_le hlt (UInt64.le_iff_toNat_le.1 (h.streamBytes hlimits)))

/-- The rules of the chain answer alike or reject. Of a limit this is what growing means, and of the
other rules it is that the class is the same. -/
theorem Grows.leans_check {c : Chain} {q q' : Query} (h : c.Grows q q') {r : Rule}
    (hr : r ∈ c.rules) : Status.Leans .deny (r.check q) (r.check q') := by
  refine Rule.leans_check h.name fun metric max hlimit => h.exceeds ⟨max, ?_⟩
  rwa [← hlimit]

/-- Counters that are the same have not shrunk in either direction. So facts on growing apply both
ways, for queries about one class. -/
theorem SameCounters.grows {c : Chain} {q q' : Query} (h : c.SameCounters q q')
    (hname : q'.name = q.name) : c.Grows q q' ∧ c.Grows q' q := by
  refine ⟨⟨hname, fun hl => ?_, fun hl length hlength => ?_, fun hl => ?_, fun hl => ?_⟩,
    ⟨hname.symm, fun hl => ?_, fun hl length hlength => ?_, fun hl => ?_, fun hl => ?_⟩⟩
  · exact UInt64.le_of_eq (h.depth hl).symm
  · exact ⟨length, (h.arrayLength hl).trans hlength, UInt64.le_refl _⟩
  · exact UInt64.le_of_eq (h.references hl).symm
  · exact UInt64.le_of_eq (h.streamBytes hl).symm
  · exact UInt64.le_of_eq (h.depth hl)
  · exact ⟨length, (h.arrayLength hl).symm.trans hlength, UInt64.le_refl _⟩
  · exact UInt64.le_of_eq (h.references hl)
  · exact UInt64.le_of_eq (h.streamBytes hl)

/-- The chain decides alike, or rejects no later. It puts the rules' answers, of which growing makes
no other than to reject, into the walk down the chain. -/
theorem Grows.decide?_eq_or_reject {c : Chain} {q q' : Query} (h : c.Grows q q') :
    c.decide? q' = c.decide? q ∨ ∃ d', c.decide? q' = some d' ∧ d'.status = .reject ∧
      ∀ d, c.decide? q = some d → d'.position ≤ d.position :=
  decideFrom?_of_leans (p := .deny) (fun _ => h.leans_check) 0

/-- Queries about one class decide alike if the counters that the chain limits are the same. Every
rule answers alike then, so the walk down the chain stops at the same one. -/
theorem decide?_congr {c : Chain} {q q' : Query} (hname : q'.name = q.name)
    (hsame : c.SameCounters q q') : c.decide? q' = c.decide? q := by
  obtain ⟨hthere, hback⟩ := hsame.grows hname
  refine decideFrom?_congr (fun r hr => ?_) 0
  refine Rule.check_congr hname fun metric max hlimit => ?_
  have hlimits : c.Limits metric := ⟨max, hlimit ▸ hr⟩
  exact ⟨hback.exceeds hlimits, hthere.exceeds hlimits⟩

/-- The decision holds the answer, so chains that decide alike answer alike. Queries without a
decision are undecided on both sides. -/
theorem evaluate_eq_of_decide?_eq {c : Chain} {q q' : Query} (h : c.decide? q' = c.decide? q) :
    c.evaluate q' = c.evaluate q := by
  rw [evaluate_eq_getD, evaluate_eq_getD, h]

/-- A growing stream is decided alike, or rejected no later. The answer to the second query is that
to the first, or to reject. It is decided by a rule that stands no later. If it is to allow, it is
decided by the same rule. If the counters that the chain limits are the same, both queries are
decided by the same rule in the same way. -/
theorem decide?_of_grows {c : Chain} {q q' : Query} (h : c.Grows q q') :
    (c.evaluate q' = c.evaluate q ∨ c.evaluate q' = .reject) ∧
    (∀ d, c.decide? q = some d → ∃ d', c.decide? q' = some d' ∧ d'.position ≤ d.position) ∧
    (c.evaluate q' = .allow →
      ∃ d, d.status = .allow ∧ c.decide? q = some d ∧ c.decide? q' = some d) ∧
    (c.SameCounters q q' → c.evaluate q' = c.evaluate q ∧ c.decide? q' = c.decide? q) := by
  have hreject : ∀ d', c.decide? q' = some d' → d'.status = .reject → c.evaluate q' = .reject :=
    fun d' hd' hst => (evaluate_eq_iff_exists (by decide)).2 ⟨d', hd', hst⟩
  refine ⟨?_, ?_, ?_, ?_⟩
  · rcases h.decide?_eq_or_reject with heq | ⟨d', hd', hst, -⟩
    · exact .inl (evaluate_eq_of_decide?_eq heq)
    · exact .inr (hreject d' hd' hst)
  · intro d hd
    rcases h.decide?_eq_or_reject with heq | ⟨d', hd', -, hle⟩
    · exact ⟨d, heq.trans hd, Nat.le_refl _⟩
    · exact ⟨d', hd', hle d hd⟩
  · intro hallow
    rcases h.decide?_eq_or_reject with heq | ⟨d', hd', hst, -⟩
    · obtain ⟨d, hd, hst⟩ := (evaluate_eq_iff_exists (by decide)).1 hallow
      exact ⟨d, hst, heq.symm.trans hd, hd⟩
    · rw [hreject d' hd' hst] at hallow
      cases hallow
  · intro hsame
    have heq := decide?_congr h.name hsame
    exact ⟨evaluate_eq_of_decide?_eq heq, heq⟩

/-- The depth grows past its limit, so the second query is rejected before the package is asked. The
bytes read are not limited and shrink. The array length is limited, and first absent. -/
theorem decide?_of_grows_depth :
    (Chain.mk [.limit .depth 5, .wildcard .allow .package "a.", .limit .arrayLength 9]).Grows
        { className := some "a.B", depth := 3, streamBytes := 80 }
        { className := some "a.B", depth := 7, arrayLength := some 2 } ∧
      (Chain.mk [.limit .depth 5, .wildcard .allow .package "a.", .limit .arrayLength 9]).decide?
        { className := some "a.B", depth := 3, streamBytes := 80 }
        = some ⟨1, .wildcard .allow .package "a.", .allow⟩ ∧
      ∃ d', (Chain.mk [.limit .depth 5, .wildcard .allow .package "a.",
          .limit .arrayLength 9]).decide? { className := some "a.B", depth := 7, arrayLength := some 2 }
        = some d' ∧ d'.position ≤ 1 := by
  have h : (Chain.mk [.limit .depth 5, .wildcard .allow .package "a.", .limit .arrayLength 9]).Grows
      { className := some "a.B", depth := 3, streamBytes := 80 }
      { className := some "a.B", depth := 7, arrayLength := some 2 } := by
    refine ⟨rfl, fun _ => by decide, fun _ => nofun, fun _ => by decide, fun hlimits => ?_⟩
    obtain ⟨max, hmem⟩ := hlimits
    simp at hmem
  have hfirst : (Chain.mk [.limit .depth 5, .wildcard .allow .package "a.",
      .limit .arrayLength 9]).decide? { className := some "a.B", depth := 3, streamBytes := 80 }
      = some ⟨1, .wildcard .allow .package "a.", .allow⟩ := by
    decide
  obtain ⟨-, hlater, -⟩ := decide?_of_grows h
  exact ⟨h, hfirst, hlater _ hfirst⟩

end ClassFilter.Chain
