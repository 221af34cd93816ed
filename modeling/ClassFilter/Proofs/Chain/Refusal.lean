import ClassFilter.Proofs.Chain.Single
import ClassFilter.Proofs.Element.Refusal

/-!
# `ClassFilter.Proofs.Chain.Refusal`: which error a specification gets

The elements of a specification are read one after the other, and the first that cannot be read
is the error. An element that is not empty is refused in a specification as it is refused alone,
so the error can be said without the reader:

* `Chain.Compiles`: a text compiles on its own.
* `Chain.compiles_iff_parse`: an element can be read if it is empty or compiles on its own.
* `Chain.exists_first_of_compile_error`: the error is that of the first element that cannot be
  read, refused alone.
* `Chain.compile_refusal`: the error of a specification is that of its first element that does
  not compile on its own, whatever the other elements are.
-/

set_option autoImplicit false

namespace ClassFilter.Chain

open Text.Separated (elements)

/-- Whether a text compiles on its own, as a specification. It says of an element that it is
accepted, without the reader of elements. -/
def Compiles (text : String) : Prop :=
  ∃ c, compile text = .ok c

/-- A text without a separator can be read if it is empty or compiles on its own. The empty text is
the empty name among others, but as a specification it has no element. -/
theorem compiles_iff_parse_of_not_mem {part : String} (hsep : ';' ∉ part.toList) :
    (part ≠ "" → Compiles part) ↔ ∃ e, Element.parse part = .ok e := by
  by_cases hne : part = ""
  · rw [hne]
    exact iff_of_true (fun h => absurd rfl h) ⟨.exact .allow "", rfl⟩
  · rw [Compiles, compile_single hne hsep]
    simp only [Result.map_eq_ok_iff]
    constructor
    · intro hcompiles
      obtain ⟨c, e, he, -⟩ := hcompiles hne
      exact ⟨e, he⟩
    · intro ⟨e, he⟩ _
      exact ⟨_, e, he, rfl⟩

/-- An element of a specification can be read if it is empty or compiles on its own. It has no
separator, having been split at them. -/
theorem compiles_iff_parse {spec part : String} (h : part ∈ elements spec) :
    (part ≠ "" → Compiles part) ↔ ∃ e, Element.parse part = .ok e :=
  compiles_iff_parse_of_not_mem (Text.Separated.separator_not_mem_of_mem_elements h)

/-- The elements of a specification that compiles can be read, every one of them. None is passed
over, whatever comes before it. -/
theorem parse_of_compile {spec : String} {c : Chain} (h : compile spec = .ok c) {part : String}
    (hpart : part ∈ elements spec) : ∃ e, Element.parse part = .ok e := by
  obtain ⟨es, -, hread, -⟩ := compile_eq_ok_iff.1 h
  obtain ⟨e, -, he⟩ := Result.exists_mem_of_map_eq hread hpart
  exact ⟨e, he⟩

/-- The error of a specification that has elements is that of an element which is refused alone in
the same way. Those before it are empty or compile on their own, so it is the first of its kind. -/
theorem exists_first_of_compile_error {spec : String} {err : SpecError}
    (h : compile spec = .error err) (hsome : elements spec ≠ []) :
    ∃ before part after, elements spec = before ++ part :: after ∧
      (∀ x ∈ before, x ≠ "" → Compiles x) ∧ part ≠ "" ∧ compile part = .error err ∧
      err.element = part ∧ err.reason.IsFirst part := by
  rcases compile_eq_error_iff.1 h with ⟨hnil, -⟩ | ⟨before, part, after, hsplit, hbefore, herr⟩
  · exact absurd hnil hsome
  have hmem : ∀ x ∈ before ++ part :: after, x ∈ elements spec := by
    rw [hsplit]
    exact fun x hx => hx
  have hpart : part ∈ elements spec := hmem part (by simp)
  -- The empty element can be read.
  have hne : part ≠ "" := by
    rintro rfl
    cases herr
  have halone : compile part = .error err := by
    rw [compile_single hne (Text.Separated.separator_not_mem_of_mem_elements hpart), herr]
    rfl
  refine ⟨before, part, after, hsplit, fun x hx => ?_, hne, halone, Element.parse_eq_error_iff.1 herr⟩
  exact (compiles_iff_parse (hmem x (List.mem_append_left _ hx))).2 (hbefore x hx)

/-- The error is that of the first bad element. A specification without elements is refused as a
whole. One whose elements compile on their own, the empty ones apart, compiles. Any other gets the
error of the first of its elements that does not, for the first reason that applies to it. -/
theorem compile_refusal (spec : String) :
    (elements spec = [] → compile spec = .error ⟨spec, .empty⟩) ∧
    (elements spec ≠ [] → (∀ part ∈ elements spec, part ≠ "" → Compiles part) → Compiles spec) ∧
    (¬ (∀ part ∈ elements spec, part ≠ "" → Compiles part) →
      ∃ before part after reason, elements spec = before ++ part :: after ∧
        (∀ x ∈ before, x ≠ "" → Compiles x) ∧ part ≠ "" ∧
        compile part = .error ⟨part, reason⟩ ∧ compile spec = .error ⟨part, reason⟩ ∧
        reason.IsFirst part) := by
  refine ⟨fun hnil => compile_eq_error_iff.2 (.inl ⟨hnil, rfl⟩), fun hsome hall => ?_, fun hnot => ?_⟩
  · cases hcompile : compile spec with
    | ok c => exact ⟨c, hcompile⟩
    -- The first element that is refused is refused alone too, but all of them compile.
    | error err =>
      obtain ⟨before, part, after, hsplit, -, hne, halone, -⟩ :=
        exists_first_of_compile_error hcompile hsome
      obtain ⟨c, hc⟩ := hall part (by simp [hsplit]) hne
      cases hc.symm.trans halone
  · cases hcompile : compile spec with
    | ok c =>
      refine absurd (fun part hpart => ?_) hnot
      exact (compiles_iff_parse hpart).2 (parse_of_compile hcompile hpart)
    | error err =>
      have hsome : elements spec ≠ [] := by
        intro hnil
        rw [hnil] at hnot
        exact hnot (List.forall_mem_nil _)
      obtain ⟨before, part, after, hsplit, hbefore, hne, halone, rfl, hfirst⟩ :=
        exists_first_of_compile_error hcompile hsome
      exact ⟨before, err.element, after, err.reason, hsplit, hbefore, hne, halone, rfl, hfirst⟩

/-- A negative bound is the error, after a class name and an empty element that are fine and
before an element that would be refused too. -/
theorem compile_refusal_negative :
    compile "a.B;;bound=-5;c/d" = .error ⟨"bound=-5", .negativeLimit (-5)⟩ ∧
      compile "bound=-5" = .error ⟨"bound=-5", .negativeLimit (-5)⟩ ∧
      (Reason.negativeLimit (-5)).IsFirst "bound=-5" := by
  have hspec : compile "a.B;;bound=-5;c/d" = .error ⟨"bound=-5", .negativeLimit (-5)⟩ := by rfl
  obtain ⟨hempty, hgood, hbad⟩ := compile_refusal "a.B;;bound=-5;c/d"
  have hsome : elements "a.B;;bound=-5;c/d" ≠ [] := by decide
  have hnot : ¬ ∀ part ∈ elements "a.B;;bound=-5;c/d", part ≠ "" → Compiles part := by
    intro hall
    obtain ⟨c, hc⟩ := hgood hsome hall
    cases hspec.symm.trans hc
  obtain ⟨before, part, after, reason, -, -, -, halone, hcompile, hfirst⟩ := hbad hnot
  cases hspec.symm.trans hcompile
  exact ⟨hspec, halone, hfirst⟩

end ClassFilter.Chain
