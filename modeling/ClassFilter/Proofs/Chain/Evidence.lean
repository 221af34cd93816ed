import ClassFilter.Proofs.Chain.Decision
import ClassFilter.Proofs.Chain.Text

/-!
# `ClassFilter.Proofs.Chain.Evidence`: what reports and events say about an answer

A chain gives its plain answer, a report with the rule that settled the query, and an event in the
log. The theorems show that the rule which is named is the first with an opinion, and that what is
said about it can be checked without the chain:

* `Chain.answers_of_decide?`, `Chain.answers_of_decide?_eq_none`: the three answers are read off
  the decision.
* `Chain.getElem?_position_of_decide?`: the rule of a decision is found in the chain by its
  position.
* `Chain.compile_text_rule`: the text of a well-formed rule compiles to that rule alone, unless it
  is empty.
* `Chain.explain_evidence`: so reports and events are true, and the text in a report gives the
  answer again.
-/

set_option autoImplicit false

namespace ClassFilter.Chain

/-! ### The three answers -/

/-- A decision is what all three answers are read off: the plain one has its status, the report its
position and the text of its rule, and the log one event about it. -/
theorem answers_of_decide? {c : Chain} {q : Query} {d : Decision} (h : c.decide? q = some d) :
    c.evaluate q = d.status ∧
      c.explain q = ⟨d.status, some (d.position, d.rule.text), d.position + 1⟩ ∧
      c.evaluateLogged q
        = (d.status, [.decided (q.className.getD "") d.position d.rule.text d.status]) := by
  rw [evaluate, explain, evaluateLogged, h]
  exact ⟨rfl, rfl, rfl⟩

/-- Without a decision all three answers leave the query open. The report then counts all rules as
asked, and nothing is logged. -/
theorem answers_of_decide?_eq_none {c : Chain} {q : Query} (h : c.decide? q = none) :
    c.evaluate q = .undecided ∧ c.explain q = ⟨.undecided, none, c.rules.length⟩ ∧
      c.evaluateLogged q = (.undecided, []) := by
  rw [evaluate, explain, evaluateLogged, h]
  exact ⟨rfl, rfl, rfl⟩

/-- The report gives the plain answer, whether the query is settled or not. A caller who keeps the
report need not ask again. -/
theorem status_explain (c : Chain) (q : Query) : (c.explain q).status = c.evaluate q := by
  unfold explain evaluate
  cases c.decide? q <;> rfl

/-- An answer that leaves the query open comes without a decision, since every decision has a status
that settles it. -/
theorem decide?_eq_none_of_evaluate {c : Chain} {q : Query} (h : c.evaluate q = .undecided) :
    c.decide? q = none := by
  cases hd : c.decide? q with
  | none => rfl
  | some d =>
    obtain ⟨-, -, -, -, -, -, hdecided⟩ := decide?_eq_some_iff.1 hd
    exact absurd ((answers_of_decide? hd).1.symm.trans h) hdecided

/-- A report names the position and the text of the decision, and it names nothing if there is none.
It is the way back from what a report says to the chain. -/
theorem decidedBy_explain_eq_some_iff {c : Chain} {q : Query} {i : Nat} {text : String} :
    (c.explain q).decidedBy = some (i, text) ↔
      ∃ d, c.decide? q = some d ∧ d.position = i ∧ d.rule.text = text := by
  unfold explain
  cases c.decide? q <;> simp

/-- The rule of a decision stands at its position, and its opinion is the answer. So the position in
a report can be used as an index into the chain. -/
theorem getElem?_position_of_decide? {c : Chain} {q : Query} {d : Decision}
    (h : c.decide? q = some d) :
    c.rules[d.position]? = some d.rule ∧ d.rule.check q = c.evaluate q := by
  obtain ⟨before, after, hrules, hposition, -, hcheck, -⟩ := decide?_eq_some_iff.1 h
  refine ⟨?_, hcheck.trans (answers_of_decide? h).1.symm⟩
  rw [hrules, hposition, List.getElem?_append_right (Nat.le_refl _), Nat.sub_self]
  rfl

/-! ### A rule on its own -/

/-- The text of a rule is a specification of the rule alone, unless it is that of the empty name
alone. A single rule is a chain, and the exception is the chain that would need an anchor and has
none. -/
theorem compile_text_rule {r : Rule} (h : r.WellFormed) (hne : r ≠ .exact .allow (.singleton "")) :
    compile r.text = .ok ⟨[r]⟩ := by
  have hend : (Chain.mk [r]).endsInEmptyName = false := by
    refine Bool.eq_false_iff.2 fun hend => ?_
    exact hne (Option.some.inj (endsInEmptyName_iff.1 hend))
  have hwf : (Chain.mk [r]).WellFormed := by
    refine ⟨List.cons_ne_nil _ _, List.forall_mem_singleton.2 h, ?_, fun hend' => ?_⟩
    · cases r <;> simp [Rule.exactPolarities]
    · rw [hend] at hend'
      cases hend'
  have htext : (Chain.mk [r]).text = r.text := by
    simp [text, anchor?, hend, Text.Separated.join]
  rw [← htext]
  exact compile_text hwf

/-- Reports and events are true evidence. The plain answer, the report and the log agree. If the
query is settled, they name the first rule with an opinion and its place, and one event is logged.
Otherwise no rule has an opinion, all are counted, and nothing is logged. The text that a report
about a compiled chain gives is that of its rule. As a specification of its own it settles the query
in the same way, unless the rule allows the empty name and no other, whose text is no
specification. -/
theorem explain_evidence (c : Chain) (q : Query) :
    ((c.explain q).status = c.evaluate q ∧ InputFilter.checkInput c q = c.evaluate q ∧
      (c.evaluateLogged q).1 = c.evaluate q) ∧
    (c.evaluate q ≠ .undecided → ∃ before r after, c.rules = before ++ r :: after ∧
      (∀ x ∈ before, x.check q = .undecided) ∧ r.check q = c.evaluate q ∧
      c.explain q = ⟨c.evaluate q, some (before.length, r.text), before.length + 1⟩ ∧
      (c.evaluateLogged q).2
        = [.decided (q.className.getD "") before.length r.text (c.evaluate q)]) ∧
    (c.evaluate q = .undecided → (∀ r ∈ c.rules, r.check q = .undecided) ∧
      c.explain q = ⟨.undecided, none, c.rules.length⟩ ∧ (c.evaluateLogged q).2 = []) ∧
    (∀ spec i text, compile spec = .ok c → (c.explain q).decidedBy = some (i, text) →
      ∃ r, c.rules[i]? = some r ∧
        (r ≠ .exact .allow (.singleton "") →
          ∃ d, compile text = .ok d ∧ d.rules = [r] ∧ d.evaluate q = c.evaluate q) ∧
        (r = .exact .allow (.singleton "") → compile text = .error ⟨"", .empty⟩)) := by
  refine ⟨⟨status_explain c q, rfl, fst_evaluateLogged c q⟩, fun hsome => ?_, fun hnone => ?_, ?_⟩
  · cases hd : c.decide? q with
    | none => exact absurd (answers_of_decide?_eq_none hd).1 hsome
    | some d =>
      obtain ⟨before, after, hrules, hposition, hbefore, hcheck, -⟩ := decide?_eq_some_iff.1 hd
      obtain ⟨hanswer, hreport, hlog⟩ := answers_of_decide? hd
      rw [hanswer, hreport, hlog, hposition]
      exact ⟨before, d.rule, after, hrules, hbefore, hcheck, rfl, rfl⟩
  · have hd := decide?_eq_none_of_evaluate hnone
    obtain ⟨-, hreport, hlog⟩ := answers_of_decide?_eq_none hd
    exact ⟨decideFrom?_eq_none_iff.1 hd, hreport, congrArg Prod.snd hlog⟩
  · intro spec i text hcompile hdecided
    obtain ⟨d, hd, rfl, rfl⟩ := decidedBy_explain_eq_some_iff.1 hdecided
    obtain ⟨hrule, hcheck⟩ := getElem?_position_of_decide? hd
    have hwf := (wellFormed_of_compile hcompile).rules d.rule (List.mem_of_getElem? hrule)
    refine ⟨d.rule, hrule, fun hne => ?_, fun heq => ?_⟩
    · refine ⟨⟨[d.rule]⟩, compile_text_rule hwf hne, rfl, ?_⟩
      rw [evaluate_singleton, hcheck]
    · -- The empty text has no element at all.
      rw [heq]
      rfl

/-- A query without a class passes the package and is allowed by the set of the empty name and
`b.X`, whose text allows it as a specification of its own. A class elsewhere passes both rules. -/
theorem explain_evidence_no_class :
    ∃ c, compile "!a.*;;b.X" = .ok c ∧
      c.explain .start = ⟨.allow, some (1, ";b.X"), 2⟩ ∧
      (c.evaluateLogged .start).2 = [.decided "" 1 ";b.X" .allow] ∧
      (∃ d, compile ";b.X" = .ok d ∧ d.evaluate .start = .allow) ∧
      c.explain { className := some "c.D" } = ⟨.undecided, none, 2⟩ := by
  have hcompile : compile "!a.*;;b.X"
      = .ok ⟨[.wildcard .deny .package "a.", .exact .allow (.ofList ["b.X", ""])]⟩ := by
    decide
  refine ⟨_, hcompile, ?_⟩
  obtain ⟨-, hsettled, -, hagain⟩ := explain_evidence
    ⟨[.wildcard .deny .package "a.", .exact .allow (.ofList ["b.X", ""])]⟩ .start
  obtain ⟨-, -, hopen, -⟩ := explain_evidence
    ⟨[.wildcard .deny .package "a.", .exact .allow (.ofList ["b.X", ""])]⟩
    { className := some "c.D" }
  have hreport : Chain.explain
      ⟨[.wildcard .deny .package "a.", .exact .allow (.ofList ["b.X", ""])]⟩ .start
        = ⟨.allow, some (1, ";b.X"), 2⟩ := by
    decide
  refine ⟨hreport, ?_, ?_, (hopen (by decide)).2.1⟩
  · -- The event names the rule and the place that the report names.
    obtain ⟨before, r, after, -, -, -, hexplain, hlog⟩ := hsettled (by decide)
    obtain ⟨hanswer, hby, -⟩ := Report.mk.inj (hexplain.symm.trans hreport)
    obtain ⟨hplace, htext⟩ := Prod.mk.inj (Option.some.inj hby)
    rw [hlog, hanswer, hplace, htext]
    rfl
  · obtain ⟨r, hr, hother, -⟩ := hagain _ 1 ";b.X" hcompile (by rw [hreport])
    cases hr
    obtain ⟨d, hd, -, hanswer⟩ := hother (by decide)
    exact ⟨d, hd, hanswer⟩

end ClassFilter.Chain
