import ClassFilter.Chain.Compile
import ClassFilter.Proofs.Draft.Slots
import ClassFilter.Proofs.Element.Grammar
import ClassFilter.Proofs.Result
import ClassFilter.Proofs.Text.Separated

/-!
# `ClassFilter.Proofs.Chain.Compiled`: the invariant of compiled chains

* `Draft.readAll_eq`, `Draft.ofTexts_eq_bind`: the loop that reads texts and adds their elements one
  by one comes to the same as reading all of them first.
* `Chain.compile_eq_ok_iff`: a specification compiles to the rules gathered from what its
  elements are read as, and only if there is an element and all can be read.
* `Chain.compile_eq_error_iff`: otherwise the error is that of the first element that cannot
  be read, or that there is none.
* `Chain.WellFormed`: what every compiled chain satisfies. There is a rule, each rule is
  made of well-formed elements, no polarity has two exact rules, and a chain that ends in
  the empty name has an exact deny rule.
* `Chain.wellFormed_of_compile`: compiling establishes the invariant.

The last condition is the subtle one. Empty elements at the end of a specification are
dropped, so the element that ends it is not the empty name. If the last rule nevertheless
allows the empty name alone, the element at the end has joined an earlier rule. It is a
class name, and not one to allow.
-/

set_option autoImplicit false

namespace ClassFilter

/-! ### What a specification compiles to -/

namespace Draft

/-- The loop makes the draft of all elements that are read, and its errors are those of reading. The
elements need not be kept apart from the draft that they join: nothing about a draft decides how the
next text is read. -/
theorem readAll_eq (texts : List String) :
    readAll texts = (texts.mapM Element.parse).map ofElements :=
  Result.foldlM_map_eq_map_mapM Element.parse add texts empty

/-- The loop ends in a draft if every text is read, and the draft is that of the elements. -/
theorem readAll_eq_ok_iff {texts : List String} {d : Draft} :
    readAll texts = .ok d ↔ ∃ es, texts.map Element.parse = es.map .ok ∧ ofElements es = d := by
  rw [readAll_eq, Result.map_eq_ok_iff]
  simp only [Result.mapM_eq_ok_iff]

/-- A draft without rules is that of no element. Elements can join rules that are there already, but
the first of them makes one. -/
theorem isEmpty_rules_ofElements (es : List Element) :
    (ofElements es).rules.isEmpty = es.isEmpty := by
  rw [← Array.isEmpty_toList, rules_ofElements, Bool.eq_iff_iff, List.isEmpty_iff, List.isEmpty_iff,
    Rule.gather_eq_nil_iff]

/-- The loop in three steps: read all texts, test that there is one, and build the draft. The loop
itself tests for a rule at its end. -/
theorem ofTexts_eq_bind (texts : List String) (source : String) :
    ofTexts texts source = texts.mapM Element.parse >>= fun es =>
      if es.isEmpty then .error ⟨source, .empty⟩ else .ok (ofElements es) := by
  have hloop : ofTexts texts source = readAll texts >>= fun d =>
      if d.rules.isEmpty then .error ⟨source, .empty⟩ else .ok d := rfl
  rw [hloop, readAll_eq]
  cases texts.mapM Element.parse with
  | error err => rfl
  | ok es =>
    show (if (ofElements es).rules.isEmpty then _ else _) = _
    rw [isEmpty_rules_ofElements]
    rfl

end Draft

namespace Chain

/-- The steps of compiling, for a specification. What `compile` accepts and refuses is read off this
equation. -/
theorem compile_eq_bind (spec : String) :
    compile spec = Except.map Draft.chain
      ((Text.Separated.elements spec).mapM Element.parse >>= fun es =>
        if es.isEmpty then .error ⟨spec, .empty⟩ else .ok (Draft.ofElements es)) :=
  congrArg (Except.map Draft.chain) (Draft.ofTexts_eq_bind _ spec)

/-- A specification compiles if it has elements and all can be read. The rules are those gathered
from the elements. Facts about compiled chains start here and do not go back to the loop. -/
theorem compile_eq_ok_iff {spec : String} {c : Chain} :
    compile spec = .ok c ↔
      ∃ es, es ≠ [] ∧ (Text.Separated.elements spec).map Element.parse = es.map .ok ∧
        c.rules = Rule.gather [] es := by
  rw [compile_eq_bind, Result.map_eq_ok_iff]
  constructor
  · intro ⟨d, hd, hc⟩
    obtain ⟨es, hread, hes⟩ := Result.bind_eq_ok_iff.1 hd
    obtain ⟨hne, hok⟩ := Result.ite_error_eq_ok_iff.1 hes
    cases hok
    refine ⟨es, by simpa using hne, Result.mapM_eq_ok_iff.1 hread, ?_⟩
    rw [← hc]
    exact Draft.rules_ofElements es
  · intro ⟨es, hne, hread, hrules⟩
    refine ⟨Draft.ofElements es, ?_, ?_⟩
    · refine Result.bind_eq_ok_iff.2 ⟨es, Result.mapM_eq_ok_iff.2 hread, ?_⟩
      exact Result.ite_error_eq_ok_iff.2 ⟨by simpa using hne, rfl⟩
    · rw [Draft.chain, Draft.rules_ofElements, ← hrules]

/-- A specification is refused if it has no element, or else for the first element that cannot be
read. The error of that element is passed on with its text and reason. -/
theorem compile_eq_error_iff {spec : String} {err : SpecError} :
    compile spec = .error err ↔
      (Text.Separated.elements spec = [] ∧ err = ⟨spec, .empty⟩) ∨
      ∃ before part after, Text.Separated.elements spec = before ++ part :: after ∧
        (∀ x ∈ before, ∃ e, Element.parse x = .ok e) ∧ Element.parse part = .error err := by
  rw [compile_eq_bind, Result.map_eq_error_iff, Result.bind_eq_error_iff, Result.mapM_eq_error_iff,
    or_comm]
  refine or_congr_left ?_
  constructor
  · intro ⟨es, hread, hes⟩
    -- Only the test is left to fail.
    split at hes
    · rename_i hempty
      rw [List.isEmpty_iff.1 hempty, Result.mapM_eq_ok_iff, List.map_nil, List.map_eq_nil_iff] at hread
      exact ⟨hread, (Except.error.inj hes).symm⟩
    · cases hes
  · rintro ⟨hnil, rfl⟩
    exact ⟨[], Result.mapM_eq_ok_iff.2 (by rw [hnil]; rfl), rfl⟩

end Chain

/-! ### The invariant -/

/-- Whether a rule is made of well-formed elements, and of at least one. The second part excludes an
exact rule without names, which no specification can spell. -/
def Rule.WellFormed (r : Rule) : Prop :=
  r.elements ≠ [] ∧ ∀ e ∈ r.elements, e.WellFormed

theorem Rule.wellFormed_limit_iff {metric : Metric} {max : UInt64} :
    (Rule.limit metric max).WellFormed ↔ (Element.limit metric max).WellFormed := by
  simp [Rule.WellFormed, Rule.elements]

theorem Rule.wellFormed_exact_iff {p : Polarity} {names : NameSet} :
    (Rule.exact p names).WellFormed ↔
      names.toList ≠ [] ∧ ∀ name ∈ names, (Element.exact p name).WellFormed := by
  simp [Rule.WellFormed, Rule.elements, NameSet.mem_toList]

theorem Rule.wellFormed_wildcard_iff {p : Polarity} {scope : Scope} {text : String} :
    (Rule.wildcard p scope text).WellFormed ↔ (Element.wildcard p scope text).WellFormed := by
  simp [Rule.WellFormed, Rule.elements]

/-- What every compiled chain satisfies, and what is needed to write it down again. There is a rule,
and each could stand in a specification. Each polarity has at most one exact rule. A chain that ends
in the empty name has a denied class (`anchored`), whose name can be repeated after it so that the
empty element does not stand at the end. -/
structure Chain.WellFormed (c : Chain) : Prop where
  nonempty : c.rules ≠ []
  rules : ∀ r ∈ c.rules, r.WellFormed
  nodup : (Rule.exactPolarities c.rules).Nodup
  anchored : c.endsInEmptyName = true → .deny ∈ Rule.exactPolarities c.rules

namespace Chain

theorem endsInEmptyName_iff {c : Chain} :
    c.endsInEmptyName = true ↔ c.rules.getLast? = some (.exact .allow (.singleton "")) := by
  have hset : ∀ names : NameSet, names.toList = [""] ↔ names = .singleton "" := by
    intro names
    constructor
    · intro h
      ext name
      rw [← NameSet.mem_toList, h, List.mem_singleton, NameSet.mem_singleton]
    · rintro rfl
      rfl
  unfold endsInEmptyName
  split
  · rename_i names hlast
    rw [beq_iff_eq, hset, hlast]
    simp
  · rename_i hlast
    refine ⟨fun h => Bool.noConfusion h, fun h => ?_⟩
    exact absurd h (hlast _)

/-- An element that is not the empty name ends no chain in the empty name, unless it is a denied
class. A limit or a pattern would be the last rule itself, and another allowed class would be in the
set. -/
theorem deny_mem_of_endsInEmptyName {c : Chain} {es : List Element} {e : Element}
    (hrules : c.rules = Rule.gather [] (es ++ [e])) (he : e ≠ .exact .allow "")
    (hend : c.endsInEmptyName = true) : .deny ∈ Rule.exactPolarities c.rules := by
  rw [endsInEmptyName_iff, hrules] at hend
  cases e with
  | limit metric max =>
    rw [Rule.getLast?_gather_append_singleton rfl] at hend
    cases hend
  | wildcard p scope text =>
    rw [Rule.getLast?_gather_append_singleton rfl] at hend
    cases hend
  | exact p name =>
    cases p with
    | allow =>
      -- The set holds every class name to allow, and this one is not empty.
      have hmem := Rule.mem_iff_of_exact_mem_gather (List.mem_of_getLast? hend) name
      have hname := hmem.2 (List.mem_append_right _ (by simp))
      rw [NameSet.mem_singleton] at hname
      exact absurd (by rw [hname]) he
    | deny =>
      rw [hrules, Rule.mem_exactPolarities_gather]
      refine ⟨List.not_mem_nil, ?_⟩
      exact Element.mem_exactPolarities.2 ⟨name, List.mem_append_right _ (by simp)⟩

/-- An element of a specification is well formed, and its text is a spelling of it. The text has no
separator, which is why nothing more needs to be known of it. -/
theorem spells_of_mem_elements {spec : String} {es : List Element}
    (h : (Text.Separated.elements spec).map Element.parse = es.map .ok) {e : Element}
    (he : e ∈ es) :
    ∃ text ∈ Text.Separated.elements spec, e.WellFormed ∧ e.Spells text.toList := by
  have hmem : Except.ok e ∈ (Text.Separated.elements spec).map Element.parse := by
    rw [h]
    exact List.mem_map.2 ⟨e, he, rfl⟩
  obtain ⟨text, htext, hparse⟩ := List.mem_map.1 hmem
  have hsep := Text.Separated.separator_not_mem_of_mem_elements htext
  exact ⟨text, htext, (Element.parse_eq_ok_iff hsep).1 hparse⟩

/-- The last element of a specification is not the empty name, as empty elements at the end are
dropped before any is read. -/
theorem getLast?_ne_of_elements {spec : String} {es : List Element}
    (h : (Text.Separated.elements spec).map Element.parse = es.map .ok) :
    es.getLast? ≠ some (.exact .allow "") := by
  intro hlast
  have hmap : ((Text.Separated.elements spec).map Element.parse).getLast?
      = some (.ok (.exact .allow "")) := by
    rw [h, List.getLast?_map, hlast, Option.map_some]
  rw [List.getLast?_map] at hmap
  obtain ⟨text, htext, hparse⟩ := Option.map_eq_some_iff.1 hmap
  -- The empty name is spelled by the empty text only, which does not end the elements.
  have hsep := Text.Separated.separator_not_mem_of_mem_elements (List.mem_of_getLast? htext)
  have hspells := ((Element.parse_eq_ok_iff hsep).1 hparse).2
  obtain rfl := String.toList_eq_nil_iff.1 (show text.toList = [] from hspells)
  exact Text.Separated.getLast?_elements_ne spec htext

/-- Compiling establishes the invariant. The first three parts come from how rules are gathered, and
the last one from the element that ends the specification. -/
theorem wellFormed_of_compile {spec : String} {c : Chain} (h : compile spec = .ok c) :
    c.WellFormed := by
  obtain ⟨es, hne, hread, hrules⟩ := compile_eq_ok_iff.1 h
  refine ⟨?_, ?_, ?_, ?_⟩
  · rw [hrules]
    exact fun hnil => hne (Rule.gather_eq_nil_iff.1 hnil)
  · -- A rule is made of elements that were read.
    intro r hr
    rw [hrules] at hr
    obtain ⟨hsome, hmem⟩ := Rule.elements_of_mem_gather hr
    refine ⟨hsome, fun e he => ?_⟩
    obtain ⟨text, -, hwf, -⟩ := spells_of_mem_elements hread (hmem e he)
    exact hwf
  · rw [hrules]
    exact Rule.nodup_exactPolarities_gather [] es
  · -- The element at the end is not the empty name, since it was not dropped.
    intro hend
    have hsplit := List.dropLast_concat_getLast hne
    have hlast : es.getLast hne ≠ .exact .allow "" := by
      intro heq
      have hread' := getLast?_ne_of_elements hread
      rw [List.getLast?_eq_some_getLast hne, heq] at hread'
      exact hread' rfl
    exact deny_mem_of_endsInEmptyName (by rw [hsplit, hrules]) hlast hend

end Chain

end ClassFilter
