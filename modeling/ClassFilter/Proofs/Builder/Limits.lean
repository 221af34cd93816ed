import ClassFilter.Proofs.Builder.Refusal
import ClassFilter.Proofs.Rule.Check
import Mathlib.Data.List.Basic

/-!
# `ClassFilter.Proofs.Builder.Limits`: what becomes of the limits of a builder

A limit is put into a builder as a number, written down, and read back. The reader takes literals
that fit a signed word, so the upper half of the numbers is refused. The others come back as they
were, wherever the limit stands and whatever is merged or dropped around it.

* `Chain.bounds`, `Builder.Step.bounds`: the bounds of a chain, and what a step contributes to them.
* `Rule.filterMap_bound?_gather`: class names are merged, and the bounds stay in their order.
* `Builder.bounds_of_compile`: the bounds of the chain are those of the steps.
* `Element.parse_limit_of_le`, `Builder.compile_of_large_limit`: the first limit that is too large
  is the error.
* `Builder.compile_limits`: both together, for all steps that are fine apart from their limits.
-/

set_option autoImplicit false

namespace ClassFilter

open Text.Separated (dropTrailingEmpty join)

/-! ### Bounds -/

/-- The metric and the bound of a limit. A rule of class names or of a pattern has none, so the
bounds of a chain are found among its rules by `filterMap`. -/
def Rule.bound? : Rule → Option (Metric × UInt64)
  | .limit metric max => some (metric, max)
  | .exact _ _ => none
  | .wildcard _ _ _ => none

/-- The metric and the bound of an element that is a limit. It is `Rule.bound?` before the rules are
made, since a limit is one rule by itself. -/
def Element.bound? : Element → Option (Metric × UInt64)
  | .limit metric max => some (metric, max)
  | .exact _ _ => none
  | .wildcard _ _ _ => none

/-- The bounds of the limits of a chain, in their order. The metrics stand with them, so a limit on
depth is not taken for one on arrays. -/
def Chain.bounds (c : Chain) : List (Metric × UInt64) :=
  c.rules.filterMap Rule.bound?

/-- The bounds of the chain that a specification compiles to. If it is refused there are none. The
empty text, which is refused alone, has none among others either. -/
def Chain.boundsOf (spec : String) : List (Metric × UInt64) :=
  match compile spec with
  | .ok c => c.bounds
  | .error _ => []

theorem Chain.mem_bounds {c : Chain} {metric : Metric} {max : UInt64} :
    (metric, max) ∈ c.bounds ↔ .limit metric max ∈ c.rules := by
  rw [bounds, List.mem_filterMap]
  constructor
  · rintro ⟨r, hr, hbound⟩
    cases r with
    | limit metric' max' =>
      cases hbound
      exact hr
    | exact p names => cases hbound
    | wildcard p scope text => cases hbound
  · exact fun h => ⟨_, h, rfl⟩

/-- Class names are merged, and the bounds stay in their order. A class name that joins an earlier
rule moves no limit, because each limit is a rule of its own, made where it stands. -/
theorem Rule.filterMap_bound?_gather (seen : List Polarity) (es : List Element) :
    (gather seen es).filterMap bound? = es.filterMap Element.bound? := by
  induction es generalizing seen with
  | nil => rfl
  | cons e es ih =>
    cases e with
    | limit metric max => exact congrArg ((metric, max) :: ·) (ih seen)
    | exact p name =>
      by_cases hp : p ∈ seen
      · rw [gather, if_pos hp]
        exact ih seen
      · rw [gather, if_neg hp]
        exact ih (p :: seen)
    | wildcard p scope text => exact ih seen

/-! ### The text of a limit -/

namespace Element

theorem not_mem_text_limit (metric : Metric) (max : UInt64) :
    ';' ∉ (limit metric max).text.toList ∧ '/' ∉ (limit metric max).text.toList := by
  obtain ⟨value, hvalue, htext⟩ := (limit metric max).spells_text
  rw [htext]
  exact ⟨(not_mem_limit metric hvalue).1, (not_mem_limit metric hvalue).2.1⟩

theorem text_limit_ne (metric : Metric) (max : UInt64) : (limit metric max).text ≠ "" := by
  intro h
  cases text_eq_empty_iff.1 h

/-- A bound that no signed word holds is malformed. The literal is a decimal without sign, so it
reaches the branch of the reader that finds a number out of range, and the error shows the
literal. -/
theorem parse_limit_of_le {metric : Metric} {max : UInt64} (h : 2 ^ 63 ≤ max.toNat) :
    parse (limit metric max).text
      = .error ⟨(limit metric max).text, .malformedLimitValue (toString max.toNat)⟩ := by
  have hsplits : Splits (limit metric max).text metric.keyword (toString max.toNat) :=
    ⟨(not_mem_limit metric (.inl rfl : Text.Decimal.Spells _ max.toNat)).2.2, rfl⟩
  have hvalue : (toString max.toNat).toList = Nat.toDigits 10 max.toNat := Nat.toList_repr
  rw [parse_eq_error_iff_read]
  refine ⟨rfl, ?_⟩
  rw [hsplits.read_eq (not_mem_text_limit metric max).2, readLimit, hvalue,
    if_neg Nat.toDigits_ne_nil, Text.Decimal.word?_toDigits_of_le h, ← hvalue, String.ofList_toList]

end Element

/-! ### The bounds of elements -/

namespace Chain

/-- The bound of an element, if it has one, is that of the chain it makes alone. The empty text is
no exception, as it has no bound among others and is refused alone. -/
theorem boundsOf_eq {text : String} {e : Element} (hsep : ';' ∉ text.toList)
    (h : Element.parse text = .ok e) : boundsOf text = e.bound?.toList := by
  by_cases hne : text = ""
  · -- Alone it is no element. Among others it is the empty class name.
    subst hne
    cases h
    rfl
  · rw [boundsOf, compile_single hne hsep, h]
    cases e <;> rfl

/-- The bounds of some elements are those of the chains that they make alone, one after another. So
a step's contribution can be told without a look at the other steps. -/
theorem filterMap_bound?_eq {texts : List String} {es : List Element}
    (hsep : ∀ x ∈ texts, ';' ∉ x.toList) (h : texts.map Element.parse = es.map .ok) :
    es.filterMap Element.bound? = texts.flatMap boundsOf := by
  induction texts generalizing es with
  | nil =>
    rw [List.map_nil, eq_comm, List.map_eq_nil_iff] at h
    rw [h]
    rfl
  | cons text texts ih =>
    obtain ⟨hfirst, hrest⟩ := List.forall_mem_cons.1 hsep
    cases es with
    | nil => cases h
    | cons e es =>
      obtain ⟨he, hes⟩ := List.cons.inj h
      rw [List.flatMap_cons, boundsOf_eq hfirst he, ← ih hrest hes, List.filterMap_cons]
      cases e.bound? <;> rfl

end Chain

namespace Builder

/-! ### Steps that are fine -/

/-- The bounds that a step contributes to a chain: its own, or those of what its text makes alone. A
text may be a limit too, as `element` takes any. -/
def Step.bounds : Step → List (Metric × UInt64)
  | .limit metric max => [(metric, max)]
  | s => Chain.boundsOf s.text

/-- Whether a signed word holds the bound of a step, if it is a limit. Limits are given as unsigned
words and read back as signed ones, so half of the numbers are too large. -/
def Step.Bounded (s : Step) : Prop :=
  ∀ metric max, s = .limit metric max → max.toNat < 2 ^ 63

/-- A limit is not faulty if a signed word holds its bound. Its text has no separator, and alone it
compiles to a chain of one rule. -/
theorem not_faulty_limit {metric : Metric} {max : UInt64} (h : max.toNat < 2 ^ 63) :
    ¬ Faulty (Element.limit metric max).text := by
  have hsep := (Element.not_mem_text_limit metric max).1
  rintro (hmem | ⟨hne, hbad⟩)
  · exact hsep hmem
  · exact hbad ((Chain.compiles_iff_parse_of_not_mem hsep).2 ⟨_, Element.parse_text h⟩ hne)

/-- Whether a step is a limit, or its text is not faulty. Bounds are left out of it, since the
theorem is about what they alone make wrong. -/
def Step.Fine (s : Step) : Prop :=
  (∃ metric max, s = .limit metric max) ∨ ¬ Faulty s.text

/-- A fine step has no separator in its text. For a limit this holds whatever its bound is, so the
first pass over the elements finds nothing. -/
theorem Step.Fine.separator_not_mem {s : Step} (h : s.Fine) : ';' ∉ s.text.toList := by
  rcases h with ⟨metric, max, rfl⟩ | hgood
  · exact (Element.not_mem_text_limit metric max).1
  · exact fun hmem => hgood (.inl hmem)

theorem Step.Fine.not_faulty {s : Step} (h : s.Fine) (hbounded : s.Bounded) : ¬ Faulty s.text := by
  rcases h with ⟨metric, max, rfl⟩ | hgood
  · exact not_faulty_limit (hbounded metric max rfl)
  · exact hgood

/-- What a bounded step contributes is what its text makes alone. For a limit this needs the bound
to be read back, and for the other steps it is the definition. -/
theorem Step.bounds_eq {s : Step} (h : s.Bounded) : s.bounds = Chain.boundsOf s.text := by
  cases s with
  | limit metric max =>
    have hsep := (Element.not_mem_text_limit metric max).1
    exact (Chain.boundsOf_eq hsep (Element.parse_text (h metric max rfl))).symm
  | allow pattern => rfl
  | deny pattern => rfl
  | element raw => rfl

/-- The bounds of the chain are those of the steps, in their order. Each is found by its step alone,
and merging class names does not change them. -/
theorem bounds_of_compile {steps : List Step} {c : Chain}
    (hsep : ∀ x ∈ (ofSteps steps).elements, ';' ∉ x.toList) (hbounded : ∀ s ∈ steps, s.Bounded)
    (h : (ofSteps steps).compile = .ok c) : c.bounds = steps.flatMap Step.bounds := by
  rw [compile_of_no_separator hsep] at h
  obtain ⟨es, -, hread, hrules⟩ := Chain.compile_eq_ok_iff.1 h
  rw [elements_join hsep] at hread
  have hkept : ∀ x ∈ dropTrailingEmpty (ofSteps steps).elements, ';' ∉ x.toList := fun x hx =>
    hsep x (Text.Separated.mem_of_mem_dropTrailingEmpty hx)
  calc c.bounds
      = es.filterMap Element.bound? := by
        rw [Chain.bounds, hrules, Rule.filterMap_bound?_gather]
    _ = (dropTrailingEmpty (ofSteps steps).elements).flatMap Chain.boundsOf :=
        Chain.filterMap_bound?_eq hkept hread
    _ = (steps.map Step.text).flatMap Chain.boundsOf := by
        rw [Text.Separated.flatMap_dropTrailingEmpty rfl, elements_ofSteps]
    _ = steps.flatMap Step.bounds := by
        rw [List.flatMap_map]
        exact List.flatMap_congr fun s hs => (Step.bounds_eq (hbounded s hs)).symm

/-- A builder is compiled if no text in it is faulty, and a text is left when the empty ones at the
end are dropped. It turns the three ways of being refused around. -/
theorem exists_compile_of_not_faulty {b : Builder} (h : ∀ x ∈ b.elements, ¬ Faulty x)
    (hleft : dropTrailingEmpty b.elements ≠ []) : ∃ c, b.compile = .ok c := by
  cases hcompile : b.compile with
  | ok c => exact ⟨c, rfl⟩
  | error err =>
    rcases (exists_compile_eq_error_iff b).1 ⟨err, hcompile⟩ with
      ⟨x, hx, hsep⟩ | ⟨x, hx, hbad⟩ | hnil
    · exact absurd (.inl hsep) (h x hx)
    · exact absurd (.inr hbad) (h x (Text.Separated.mem_of_mem_dropTrailingEmpty hx))
    · exact absurd hnil hleft

/-! ### Limits that are too large -/

/-- The first limit that is too large is the error, if nothing before it is faulty and no text holds
a separator. Elements behind it are not read, so they may be of any kind. -/
theorem compile_of_large_limit {b : Builder} {before after : List String} {metric : Metric}
    {max : UInt64} (h : b.elements = before ++ (Element.limit metric max).text :: after)
    (hsep : ∀ x ∈ b.elements, ';' ∉ x.toList) (hbefore : ∀ x ∈ before, ¬ Faulty x)
    (hlarge : 2 ^ 63 ≤ max.toNat) :
    b.compile = .error ⟨(Element.limit metric max).text,
      .malformedLimitValue (toString max.toNat)⟩ := by
  have hne := Element.text_limit_ne metric max
  have halone : Chain.compile (Element.limit metric max).text
      = .error ⟨(Element.limit metric max).text, .malformedLimitValue (toString max.toNat)⟩ := by
    rw [Chain.compile_single hne (Element.not_mem_text_limit metric max).1,
      Element.parse_limit_of_le hlarge]
    rfl
  obtain ⟨reason, hcompile, hsame⟩ :=
    compile_of_refused h hsep hbefore (refused_of_compile hne halone)
  cases halone.symm.trans hsame
  exact hcompile

/-! ### All limits -/

/-- The limits of a builder. Let all steps be fine apart from their limits. If a signed word holds
each bound, then a builder with a text left is compiled. The bounds of the chain are those of the
steps in their order, so each limit is a rule with its own metric and bound, and this rule rejects
exactly what exceeds the bound. Otherwise the first limit whose bound is too large is refused, and
its bound is called malformed. -/
theorem compile_limits (steps : List Step) (h : ∀ s ∈ steps, s.Fine) :
    ((∀ s ∈ steps, s.Bounded) → dropTrailingEmpty (steps.map Step.text) ≠ [] →
      ∃ c, (ofSteps steps).compile = .ok c ∧ c.bounds = steps.flatMap Step.bounds ∧
        ∀ metric max, .limit metric max ∈ steps → .limit metric max ∈ c.rules ∧
          ∀ q, (Rule.limit metric max).check q = .reject ↔ q.Exceeds max.toNat metric) ∧
    ∀ before metric max after, steps = before ++ .limit metric max :: after →
      (∀ s ∈ before, s.Bounded) → 2 ^ 63 ≤ max.toNat →
        (ofSteps steps).compile = .error ⟨metric.keyword ++ "=" ++ toString max.toNat,
          .malformedLimitValue (toString max.toNat)⟩ := by
  have hsep : ∀ x ∈ (ofSteps steps).elements, ';' ∉ x.toList := by
    rw [elements_ofSteps, List.forall_mem_map]
    exact fun s hs => (h s hs).separator_not_mem
  refine ⟨fun hbounded hleft => ?_, fun before metric max after hsteps hbefore hlarge => ?_⟩
  · have hgood : ∀ x ∈ (ofSteps steps).elements, ¬ Faulty x := by
      rw [elements_ofSteps, List.forall_mem_map]
      exact fun s hs => (h s hs).not_faulty (hbounded s hs)
    obtain ⟨c, hc⟩ := exists_compile_of_not_faulty hgood (by rwa [elements_ofSteps])
    have hbounds := bounds_of_compile hsep hbounded hc
    refine ⟨c, hc, hbounds, fun metric max hs => ⟨?_, fun q => Rule.check_limit_eq_reject_iff⟩⟩
    -- The bounds of a chain are those of its limit rules, so the rule is found among them.
    rw [← Chain.mem_bounds, hbounds, List.mem_flatMap]
    exact ⟨_, hs, List.mem_singleton_self _⟩
  · have helements : (ofSteps steps).elements
        = before.map Step.text ++ (Element.limit metric max).text :: after.map Step.text := by
      rw [elements_ofSteps, hsteps, List.map_append, List.map_cons]
      rfl
    refine compile_of_large_limit helements hsep ?_ hlarge
    rw [List.forall_mem_map]
    exact fun s hs => (h s (by simp [hsteps, hs])).not_faulty (hbefore s hs)

/-- The largest bound that is read back, a limit that is no limit step, and class names around them
that are merged. The depth above the bound and the array that is not empty are rejected, the bound
itself and a position without an array are not. One more than that bound is refused, after a limit
that is fine. -/
theorem compile_limits_largest :
    (∃ c, (ofSteps [.allow "a.B", .limit .depth 9223372036854775807, .allow "maxrefs=7",
        .allow "c.D", .limit .arrayLength 0]).compile = .ok c ∧
      c.bounds = [(.depth, 9223372036854775807), (.references, 7), (.arrayLength, 0)] ∧
      .limit .depth 9223372036854775807 ∈ c.rules ∧ .limit .arrayLength 0 ∈ c.rules) ∧
    (Rule.limit .depth 9223372036854775807).check { depth := 9223372036854775808 } = .reject ∧
    (Rule.limit .depth 9223372036854775807).check { depth := 9223372036854775807 } ≠ .reject ∧
    (Rule.limit .arrayLength 0).check { arrayLength := some 1 } = .reject ∧
    (Rule.limit .arrayLength 0).check .start ≠ .reject ∧
    (ofSteps [.limit .depth 3, .limit .streamBytes 9223372036854775808]).compile
      = .error ⟨"maxbytes=9223372036854775808", .malformedLimitValue "9223372036854775808"⟩ := by
  have hgood : ∀ text c, ';' ∉ text.toList → Chain.compile text = .ok c →
      (Step.allow text).Fine := by
    intro text c hsep hc
    refine .inr ?_
    rw [Step.text, Polarity.marker, String.empty_append]
    rintro (hmem | ⟨-, hbad⟩)
    · exact hsep hmem
    · exact hbad ⟨c, hc⟩
  have hmany : ∀ s ∈ [Step.allow "a.B", .limit .depth 9223372036854775807, .allow "maxrefs=7",
      .allow "c.D", .limit .arrayLength 0], s.Fine := by
    simp only [List.forall_mem_cons]
    exact ⟨hgood "a.B" ⟨[.exact .allow (.singleton "a.B")]⟩ (by decide) (by decide),
      .inl ⟨_, _, rfl⟩, hgood "maxrefs=7" ⟨[.limit .references 7]⟩ (by decide) (by decide),
      hgood "c.D" ⟨[.exact .allow (.singleton "c.D")]⟩ (by decide) (by decide),
      .inl ⟨_, _, rfl⟩, List.forall_mem_nil _⟩
  have htwo : ∀ s ∈ [Step.limit .depth 3, .limit .streamBytes 9223372036854775808], s.Fine := by
    simp only [List.forall_mem_cons]
    exact ⟨.inl ⟨_, _, rfl⟩, .inl ⟨_, _, rfl⟩, List.forall_mem_nil _⟩
  obtain ⟨hcompile, -⟩ := compile_limits _ hmany
  obtain ⟨-, hlarge⟩ := compile_limits _ htwo
  obtain ⟨c, hc, hbounds, hrules⟩ := hcompile (by simp [Step.Bounded]) (by decide)
  obtain ⟨hdepth, hdeep⟩ := hrules .depth 9223372036854775807 (by decide)
  obtain ⟨harray, hlong⟩ := hrules .arrayLength 0 (by decide)
  refine ⟨⟨c, hc, hbounds.trans (by decide), hdepth, harray⟩, (hdeep _).2 (.depth (by decide)),
    fun hreject => ?_, (hlong _).2 (.arrayLength rfl (by decide)), fun hreject => ?_,
    hlarge [.limit .depth 3] .streamBytes 9223372036854775808 [] rfl (by simp [Step.Bounded])
      (by decide)⟩
  · cases (hdeep _).1 hreject with
    | depth hexceeds => exact absurd hexceeds (by decide)
  · cases (hlong _).1 hreject with
    | arrayLength hlength => cases hlength

/-- The least bound that is too large, in a builder with no other element. An element is left, and
it is refused. -/
theorem compile_large_limit_refused :
    dropTrailingEmpty ([Step.limit .depth 9223372036854775808].map Step.text) ≠ [] ∧
      (ofSteps [.limit .depth 9223372036854775808]).compile
        = .error ⟨"maxdepth=9223372036854775808",
          .malformedLimitValue "9223372036854775808"⟩ := by
  decide

end Builder

end ClassFilter
