import ClassFilter.Builder
import ClassFilter.Proofs.Chain.Refusal

/-!
# `ClassFilter.Proofs.Builder.Refusal`: which step a builder refuses

A builder looks at its elements twice. All of them are searched for a separator, and only then are
they read. Either pass stops at the first element it refuses. Which of several faulty elements is
reported therefore depends on their faults, and not on their order alone.

* `Builder.ofSteps`, `Builder.elements_ofSteps`: a builder after some steps has the text of each.
* `Builder.compile_of_separator`: the first pass. The first element with a separator is the error.
* `Builder.exists_compile_eq_error_iff`: the second pass is reached without a separator. It fails if
  an element is refused alone, or if none is left.
* `Builder.compile_of_refused`: the error of the second pass is that of the first such element.
* `Builder.compile_reports_first_iff`: so the first faulty element is reported exactly when it holds
  a separator or none after it does.
* `Builder.compile_reports_later_separator`: two elements of which the second is reported.
-/

set_option autoImplicit false

namespace ClassFilter

open Text.Separated (dropTrailingEmpty join)

/-! ### Steps -/

/-- A call that puts one more element into a builder, with its arguments. Builders are made of such
calls only, so what holds after any list of steps holds of all builders. -/
inductive Builder.Step where
  | allow (pattern : String)
  | deny (pattern : String)
  | element (raw : String)
  | limit (metric : Metric) (max : UInt64)
deriving DecidableEq, Repr

namespace Builder

/-- The builder after one more step. The four calls are those of the program, and none of them looks
at its text. -/
def step (b : Builder) : Step → Builder
  | .allow pattern => b.allow pattern
  | .deny pattern => b.deny pattern
  | .element raw => b.element raw
  | .limit metric max => b.limit metric max

/-- The builder after some steps, from the empty one on. The steps are taken from left to right. -/
def ofSteps (steps : List Step) : Builder :=
  steps.foldl step empty

/-- The element that a step puts in. A denied pattern has the marker in front, a limit is written as
in a specification, and a raw text is taken as it is. -/
def Step.text : Step → String
  | .allow pattern => Polarity.allow.marker ++ pattern
  | .deny pattern => Polarity.deny.marker ++ pattern
  | .element raw => raw
  | .limit metric max => (Element.limit metric max).text

/-- A step puts its text at the end, whichever of the four calls it is. Nothing that was put in
before is changed. -/
theorem elements_step (b : Builder) (s : Step) : (b.step s).elements = b.elements ++ [s.text] := by
  cases s <;> rfl

/-- A run puts in the texts of its steps, in their order, behind what the builder has. The induction
is on the steps. -/
theorem elements_foldl_step (b : Builder) (steps : List Step) :
    (steps.foldl step b).elements = b.elements ++ steps.map Step.text := by
  induction steps generalizing b with
  | nil => exact (List.append_nil _).symm
  | cons s steps ih =>
    rw [List.foldl_cons, ih, elements_step, List.append_assoc]
    rfl

theorem elements_ofSteps (steps : List Step) : (ofSteps steps).elements = steps.map Step.text :=
  elements_foldl_step empty steps

/-! ### Faults -/

/-- Whether a text is refused alone. The empty text is not: among others it is the empty name, and
at the end it is dropped. -/
def Refused (text : String) : Prop :=
  text ≠ "" ∧ ¬ Chain.Compiles text

/-- Whether one of the two passes refuses a text, for a separator or as an element. A text can have
both faults, and then the separator is what is reported of it. -/
def Faulty (text : String) : Prop :=
  ';' ∈ text.toList ∨ Refused text

theorem refused_of_compile {text : String} {err : SpecError} (hne : text ≠ "")
    (h : Chain.compile text = .error err) : Refused text := by
  refine ⟨hne, fun hcompiles => ?_⟩
  obtain ⟨c, hc⟩ := hcompiles
  cases hc.symm.trans h

/-- A text that is not faulty can be read as an element. Such texts are passed over by both passes,
so they stand before the error and are no part of it. -/
theorem exists_parse_of_not_faulty {text : String} (h : ¬ Faulty text) :
    ∃ e, Element.parse text = .ok e := by
  obtain ⟨hsep, hgood⟩ := not_or.1 h
  exact (Chain.compiles_iff_parse_of_not_mem hsep).1 fun hne => not_not.1 (not_and.1 hgood hne)

/-! ### The search for a separator -/

/-- The first pass. The first element with a separator is the error, whatever else is wrong, since
no element is read before all have been searched. -/
theorem compile_of_separator {b : Builder} {before after : List String} {text : String}
    (h : b.elements = before ++ text :: after) (hbefore : ∀ x ∈ before, ';' ∉ x.toList)
    (htext : ';' ∈ text.toList) : b.compile = .error ⟨text, .embeddedSeparator⟩ := by
  have hfind : b.elements.find? (·.toList.contains Text.Separated.separator) = some text := by
    rw [h, List.find?_eq_some_iff_append]
    refine ⟨List.contains_iff_mem.2 htext, before, after, rfl, fun x hx => ?_⟩
    simpa [Text.Separated.separator] using hbefore x hx
  rw [compile, hfind]

/-- If an element holds a separator, then the error is about one that does. It is the first of them,
which is not said here. -/
theorem exists_compile_of_separator {b : Builder} (h : ∃ x ∈ b.elements, ';' ∈ x.toList) :
    ∃ x, ';' ∈ x.toList ∧ b.compile = .error ⟨x, .embeddedSeparator⟩ := by
  have hfind : (b.elements.find? (·.toList.contains Text.Separated.separator)).isSome := by
    simpa [Text.Separated.separator] using h
  obtain ⟨x, hx⟩ := Option.isSome_iff_exists.1 hfind
  have hsep := List.find?_some hx
  rw [List.contains_iff_mem] at hsep
  exact ⟨x, hsep, by rw [compile, hx]⟩

/-- Without a separator, the elements are compiled together, as the specification that joins them.
This is the second pass. -/
theorem compile_of_no_separator {b : Builder} (h : ∀ x ∈ b.elements, ';' ∉ x.toList) :
    b.compile = Chain.compile (join b.elements) := by
  have hfind : b.elements.find? (·.toList.contains Text.Separated.separator) = none := by
    rw [List.find?_eq_none]
    intro x hx
    simpa [Text.Separated.separator] using h x hx
  rw [compile, hfind]

/-! ### The reading of the elements -/

/-- What the second pass looks at, when it is reached: the elements of the builder, without the
empty ones at the end. Joining and splitting cancel out because no element holds a separator. -/
theorem elements_join {b : Builder} (h : ∀ x ∈ b.elements, ';' ∉ x.toList) :
    Text.Separated.elements (join b.elements) = dropTrailingEmpty b.elements :=
  Text.Separated.elements_join_eq_dropTrailingEmpty h

/-- When a builder is refused. An element holds a separator, or is refused alone, or no element is
left without the empty ones at the end. -/
theorem exists_compile_eq_error_iff (b : Builder) :
    (∃ err, b.compile = .error err) ↔
      (∃ x ∈ b.elements, ';' ∈ x.toList) ∨ (∃ x ∈ dropTrailingEmpty b.elements, Refused x) ∨
        dropTrailingEmpty b.elements = [] := by
  by_cases hsep : ∀ x ∈ b.elements, ';' ∉ x.toList
  · rw [compile_of_no_separator hsep, ← elements_join hsep, or_iff_right (by simpa using hsep)]
    constructor
    · intro ⟨err, herr⟩
      by_cases hnil : Text.Separated.elements (join b.elements) = []
      · exact .inr hnil
      · obtain ⟨_, part, _, hsplit, -, hne, halone, -⟩ :=
          Chain.exists_first_of_compile_error herr hnil
        exact .inl ⟨part, by simp [hsplit], refused_of_compile hne halone⟩
    · intro hfault
      cases hcompile : Chain.compile (join b.elements) with
      | error err => exact ⟨err, rfl⟩
      | ok c =>
        -- The elements of a specification that compiles can be read, and there is one.
        rcases hfault with ⟨x, hx, hne, hbad⟩ | hnil
        · have hread := Chain.parse_of_compile hcompile hx
          exact absurd ((Chain.compiles_iff_parse hx).2 hread hne) hbad
        · obtain ⟨es, hsome, hread, -⟩ := Chain.compile_eq_ok_iff.1 hcompile
          rw [hnil] at hread
          exact absurd (List.map_eq_nil_iff.1 hread.symm) hsome
  · have hin : ∃ x ∈ b.elements, ';' ∈ x.toList := by simpa using hsep
    obtain ⟨x, -, herr⟩ := exists_compile_of_separator hin
    exact iff_of_true ⟨_, herr⟩ (.inl hin)

/-- The second pass. If no element holds a separator, then the error is that of the first element
that is refused alone, and the same as there. The hypothesis `hbefore` is on both faults, of which
the separator is excluded anyway. -/
theorem compile_of_refused {b : Builder} {before after : List String} {text : String}
    (h : b.elements = before ++ text :: after) (hsep : ∀ x ∈ b.elements, ';' ∉ x.toList)
    (hbefore : ∀ x ∈ before, ¬ Faulty x) (htext : Refused text) :
    ∃ reason, b.compile = .error ⟨text, reason⟩ ∧ Chain.compile text = .error ⟨text, reason⟩ := by
  have htextsep : ';' ∉ text.toList := hsep text (by simp [h])
  cases hparse : Element.parse text with
  | ok e =>
    have hcompiles := (Chain.compiles_iff_parse_of_not_mem htextsep).2 ⟨e, hparse⟩
    exact absurd (hcompiles htext.1) htext.2
  | error err =>
    -- The element stays where it is when empty ones are dropped, since it is not empty.
    have helements := elements_join hsep
    rw [h, Text.Separated.dropTrailingEmpty_append_cons htext.1, ← h] at helements
    have hjoin : Chain.compile (join b.elements) = .error err :=
      Chain.compile_eq_error_iff.2 (.inr ⟨before, text, _, helements,
        fun x hx => exists_parse_of_not_faulty (hbefore x hx), hparse⟩)
    have halone : Chain.compile text = .error err := by
      rw [Chain.compile_single htext.1 htextsep, hparse]
      rfl
    obtain ⟨rfl, -⟩ := Element.parse_eq_error_iff.1 hparse
    exact ⟨err.reason, (compile_of_no_separator hsep).trans hjoin, halone⟩

/-! ### Both passes -/

/-- Whether a builder reports an element: with the separator as the reason if it holds one, and
otherwise as the element is refused alone. -/
def Reports (b : Builder) (text : String) : Prop :=
  ∃ reason, b.compile = .error ⟨text, reason⟩ ∧
    (';' ∈ text.toList → reason = .embeddedSeparator) ∧
    (';' ∉ text.toList → Chain.compile text = .error ⟨text, reason⟩)

/-- The first faulty element is reported if it holds a separator, or if none after it does. In the
remaining case the first pass stops at a later element, which is then the one reported. -/
theorem reports_iff {b : Builder} {before after : List String} {text : String}
    (h : b.elements = before ++ text :: after) (hbefore : ∀ x ∈ before, ¬ Faulty x)
    (htext : Faulty text) :
    b.Reports text ↔ ';' ∈ text.toList ∨ ∀ x ∈ after, ';' ∉ x.toList := by
  have hclean : ∀ x ∈ before, ';' ∉ x.toList := fun x hx hsep => hbefore x hx (.inl hsep)
  by_cases hsep : ';' ∈ text.toList
  · have herr := compile_of_separator h hclean hsep
    exact iff_of_true ⟨_, herr, fun _ => rfl, fun hno => absurd hsep hno⟩ (.inl hsep)
  rw [or_iff_right hsep]
  by_cases hafter : ∀ x ∈ after, ';' ∉ x.toList
  · -- The first pass finds nothing, and the second stops here.
    have hnone : ∀ x ∈ b.elements, ';' ∉ x.toList := by
      rw [h, List.forall_mem_append, List.forall_mem_cons]
      exact ⟨hclean, hsep, hafter⟩
    obtain ⟨reason, herr, halone⟩ :=
      compile_of_refused h hnone hbefore (htext.resolve_left hsep)
    exact iff_of_true ⟨reason, herr, fun hyes => absurd hyes hsep, fun _ => halone⟩ hafter
  · -- The first pass stops at a later element.
    obtain ⟨later, hlater, hin⟩ : ∃ x ∈ after, ';' ∈ x.toList := by simpa using hafter
    have hsome : ∃ x ∈ b.elements, ';' ∈ x.toList := ⟨later, by simp [h, hlater], hin⟩
    obtain ⟨other, hother, herr⟩ := exists_compile_of_separator hsome
    refine iff_of_false (fun hreports => ?_) hafter
    obtain ⟨reason, herr', -⟩ := hreports
    have hsame : other = text :=
      congrArg SpecError.element (Except.error.inj (herr.symm.trans herr'))
    exact hsep (hsame ▸ hother)

/-- What a builder refuses, and what it reports. It is refused if an element holds a separator, or
is refused alone, or none is left without the empty ones at the end. The first element with a
separator is the error if there is one, even where an element before it is refused alone. So the
first faulty element is reported, for its own reason, exactly when it holds a separator or none
after it does. -/
theorem compile_reports_first_iff (steps : List Step) :
    ((∃ err, (ofSteps steps).compile = .error err) ↔
      (∃ x ∈ steps.map Step.text, ';' ∈ x.toList) ∨
        (∃ x ∈ dropTrailingEmpty (steps.map Step.text), Refused x) ∨
        dropTrailingEmpty (steps.map Step.text) = []) ∧
    (∀ before text after, steps.map Step.text = before ++ text :: after →
      (∀ x ∈ before, ';' ∉ x.toList) → ';' ∈ text.toList →
        (ofSteps steps).compile = .error ⟨text, .embeddedSeparator⟩) ∧
    ∀ before text after, steps.map Step.text = before ++ text :: after →
      (∀ x ∈ before, ¬ Faulty x) → Faulty text →
        ((ofSteps steps).Reports text ↔ ';' ∈ text.toList ∨ ∀ x ∈ after, ';' ∉ x.toList) := by
  rw [← elements_ofSteps]
  exact ⟨exists_compile_eq_error_iff _, fun _ _ _ => compile_of_separator, fun _ _ _ => reports_iff⟩

/-- Three builders. In the first a module pattern is reported, since no separator follows it. In the
second a later element is. The third has no faulty element, but none that is left. -/
theorem compile_reports_first_iff_module :
    (ofSteps [.allow "a.B", .element "a/b", .limit .depth 3]).Reports "a/b" ∧
      (ofSteps [.allow "a.B", .element "a/b", .deny "c;d"]).compile
        = .error ⟨"!c;d", .embeddedSeparator⟩ ∧
      ¬ (ofSteps [.allow "a.B", .element "a/b", .deny "c;d"]).Reports "a/b" ∧
      ∃ err, (ofSteps [.allow "", .element ""]).compile = .error err := by
  have hmodule : Faulty "a/b" :=
    .inr (refused_of_compile (by decide)
      (show Chain.compile "a/b" = .error ⟨"a/b", .modulePattern⟩ by decide))
  have hname : ∀ x ∈ ["a.B"], ¬ Faulty x := by
    rw [List.forall_mem_singleton]
    rintro (hsep | ⟨-, hbad⟩)
    · exact absurd hsep (by decide)
    · exact hbad ⟨⟨[.exact .allow (.singleton "a.B")]⟩, by decide⟩
  obtain ⟨-, -, hfirst⟩ :=
    compile_reports_first_iff [.allow "a.B", .element "a/b", .limit .depth 3]
  obtain ⟨-, hsep, hlater⟩ :=
    compile_reports_first_iff [.allow "a.B", .element "a/b", .deny "c;d"]
  obtain ⟨hfails, -, -⟩ := compile_reports_first_iff [.allow "", .element ""]
  exact ⟨(hfirst ["a.B"] "a/b" ["maxdepth=3"] rfl hname hmodule).2 (.inr (by decide)),
    hsep ["a.B", "a/b"] "!c;d" [] rfl (by decide) (by decide),
    fun hreports => absurd ((hlater ["a.B"] "a/b" ["!c;d"] rfl hname hmodule).1 hreports)
      (by decide),
    hfails.2 (.inr (.inr (by decide)))⟩

/-- A module pattern comes first and is refused alone, but the separator after it is reported. The
message thus names the second element and not the first one at fault. -/
theorem compile_reports_later_separator :
    Refused "a/b" ∧ Chain.compile "a/b" = .error ⟨"a/b", .modulePattern⟩ ∧
      (ofSteps [.element "a/b", .element "c;d"]).compile = .error ⟨"c;d", .embeddedSeparator⟩ ∧
      ¬ (ofSteps [.element "a/b", .element "c;d"]).Reports "a/b" := by
  have halone : Chain.compile "a/b" = .error ⟨"a/b", .modulePattern⟩ := by decide
  have herr : (ofSteps [.element "a/b", .element "c;d"]).compile
      = .error ⟨"c;d", .embeddedSeparator⟩ := by
    decide
  refine ⟨refused_of_compile (by decide) halone, halone, herr, fun hreports => ?_⟩
  obtain ⟨reason, herr', -⟩ := hreports
  have hsame : "c;d" = "a/b" :=
    congrArg SpecError.element (Except.error.inj (herr.symm.trans herr'))
  exact absurd hsame (by decide)

end Builder

end ClassFilter
