import ClassFilter.Proofs.Element.Grammar
import ClassFilter.Proofs.Result
import ClassFilter.Proofs.Text.Literal

/-!
# `ClassFilter.Proofs.Element.Refusal`: why an element is refused

Several reasons can speak against one text, and the reader gives one. This file says what each
reason is about without the reader, ranks the reasons, and proves that the reader gives the
first that applies:

* `Element.Splits`: a text is cut at its first `=`.
* `Reason.Applies`: what a reason says about a text. Nothing is assumed about the reasons
  before it, so that several may apply.
* `Reason.rank`: which of them counts.
* `readPattern_eq_error_iff`: when the reader of patterns fails, and with which reason.
* `applies_of_read`: the reason that the reader gives applies.
* `read_eq_error_of_first`: the reader gives a reason that applies, if none applies that comes
  before it. There is one case for each reason.
* `parse_eq_error_iff`: so an element is refused for the first reason that applies, and is
  accepted if none does.
-/

set_option autoImplicit false

namespace ClassFilter

/-! ### The reasons -/

/-- Whether a text is this keyword and value, cut at its first `=`. The keyword holds none, so
keyword and value are determined by the text. -/
def Element.Splits (text keyword value : String) : Prop :=
  '=' ∉ keyword.toList ∧ text = keyword ++ "=" ++ value

namespace Reason

open Text.Decimal

/-- What a reason says about an element, without the reader and without the other reasons. The
reasons that are not about one element apply to none. -/
def Applies (text : String) : Reason → Prop
  | modulePattern => '/' ∈ text.toList
  | missingLimitValue => ∃ keyword, Element.Splits text keyword ""
  | malformedLimitValue value => ∃ keyword, Element.Splits text keyword value ∧
      ∀ v, Whole value.toList v → ¬ (-2 ^ 63 ≤ v ∧ v ≤ 2 ^ 63 - 1)
  | negativeLimit v => ∃ keyword value, Element.Splits text keyword value ∧
      Whole value.toList v ∧ v < 0
  | unknownLimit keyword => ∃ value, Element.Splits text keyword value ∧
      ∀ metric : Metric, metric.keyword ≠ keyword
  | bareNegation => text = "!"
  | emptyPackage => ∃ p : Polarity, text = p.marker ++ ".*" ∨ text = p.marker ++ ".**"
  | misplacedWildcard => ∃ (p : Polarity) (front rest : String), '=' ∉ text.toList ∧
      -- Something follows the first star, and it is not a second one after a dot.
      text = p.marker ++ (front ++ "*" ++ rest) ∧ (p = .allow → front.toList.head? ≠ some '!') ∧
        '*' ∉ front.toList ∧ rest ≠ "" ∧ (rest = "*" → front.toList.getLast? ≠ some '.')
  | missing | empty | embeddedSeparator => False

/-- The place of a reason in the order in which they count. What a reason carries, such as a value
or a keyword, does not matter for it. -/
@[simp]
def rank : Reason → Nat
  | modulePattern => 0
  | missingLimitValue => 1
  | malformedLimitValue _ => 2
  | negativeLimit _ => 3
  | unknownLimit _ => 4
  | bareNegation => 5
  | emptyPackage => 6
  | misplacedWildcard => 7
  | missing | empty | embeddedSeparator => 8

/-- Whether a reason applies to an element, and none that comes before it does. Of reasons with one
rank at most one applies, so this determines the reason. -/
def IsFirst (text : String) (r : Reason) : Prop :=
  r.Applies text ∧ ∀ other : Reason, other.Applies text → r.rank ≤ other.rank

theorem IsFirst.not_applies {text : String} {r other : Reason} (h : r.IsFirst text)
    (hlt : other.rank < r.rank) : ¬ other.Applies text := by
  intro hother
  have hle := h.2 other hother
  omega

/-- If a reason applies, there is a first. It is found by the ranks alone, which are natural
numbers. -/
theorem exists_isFirst {text : String} {r : Reason} (h : r.Applies text) :
    ∃ first : Reason, first.IsFirst text :=
  Result.exists_least rank h

end Reason

namespace Element

open Text.Decimal

/-! ### Texts cut at a character -/

/-- A text that holds a character is cut at its first occurrence. Both parts are given as texts
again, as the reasons are about texts. -/
theorem exists_cut {c : Char} {text : String} (h : c ∈ text.toList) :
    ∃ front rest : String, c ∉ front.toList ∧ text.toList = front.toList ++ c :: rest.toList := by
  obtain ⟨front, rest, htext, hfront⟩ := List.eq_append_cons_of_mem h
  refine ⟨String.ofList front, String.ofList rest, by rwa [String.toList_ofList], ?_⟩
  rw [htext, String.toList_ofList, String.toList_ofList]

theorem splits_iff {text keyword value : String} :
    Splits text keyword value ↔
      '=' ∉ keyword.toList ∧ text.toList = keyword.toList ++ '=' :: value.toList := by
  rw [Splits, ← String.toList_inj]
  simp

/-- The reader cuts a text at the same `=`, if no `/` stands in the text, and reads keyword and
value from there on. -/
theorem Splits.read_eq {text keyword value : String} (h : Splits text keyword value)
    (hslash : '/' ∉ text.toList) : read text.toList = readLimit keyword.toList value.toList := by
  obtain ⟨hkeyword, htext⟩ := splits_iff.1 h
  rw [htext] at hslash ⊢
  exact read_limit hslash hkeyword

/-- What is refused about a pattern: a lone dot before one or two stars, and whatever follows the
first star, unless it is one more star after a dot. A pattern without a star is never refused. -/
theorem readPattern_eq_error_iff {p : Polarity} {front rest : String} {r : Reason}
    (hfront : '*' ∉ front.toList) :
    readPattern p (front.toList ++ '*' :: rest.toList) = .error r ↔
      (r = .emptyPackage ∧ front = "." ∧ (rest = "" ∨ rest = "*")) ∨
        (r = .misplacedWildcard ∧ rest ≠ "" ∧ (rest = "*" → front.toList.getLast? ≠ some '.')) := by
  have hhead : ∀ x ∈ ('*' :: rest.toList).head?, x = '*' := fun x hx => (Option.some.inj hx).symm
  obtain ⟨hfr, hst⟩ := takeWhile_dropWhile_iff.2 ⟨rfl, hfront, hhead⟩
  have hlone : front.toList = ['.'] ↔ front = "." := by
    rw [← String.toList_inj]
    rfl
  unfold readPattern
  simp only [hfr, hst, hlone]
  split
  · rename_i hnil
    cases hnil
  · -- One star is refused after a lone dot only.
    rename_i hone
    have hrest : rest = "" := String.toList_eq_nil_iff.1 (List.cons.inj hone).2
    by_cases hdot : front = "."
    · simp [hdot, hrest, eq_comm (a := r)]
    · simp only [hdot, hrest, if_false]
      split <;> simp
  · -- Two stars need a dot before them, and that dot a name.
    rename_i htwo
    have hrest : rest = "*" := String.toList_inj.1 (List.cons.inj htwo).2
    by_cases hdot : front = "."
    · simp [hdot, hrest, eq_comm (a := r)]
    · have hends : ClassName.endsWithDot front.toList = true ↔ front.toList.getLast? = some '.' :=
        ClassName.endsWithDot_eq_true_iff
      by_cases hlast : front.toList.getLast? = some '.'
      · simp [hdot, hrest, hends, hlast]
      · simp [hdot, hrest, hends, hlast, eq_comm (a := r)]
  · -- Whatever else follows the first star is refused.
    rename_i hnone hone htwo
    have hempty : rest ≠ "" := by
      rintro rfl
      exact hone rfl
    have hstar : rest ≠ "*" := by
      rintro rfl
      exact htwo rfl
    simp [hempty, hstar, eq_comm (a := r)]

/-! ### The reason that is given applies -/

/-- A refused limit is refused for a reason that applies. The four tests of the reader are gone
through, each of which fails for one reason. -/
theorem applies_of_readLimit {text keyword value : String} {r : Reason}
    (hsplits : Splits text keyword value) (h : readLimit keyword.toList value.toList = .error r) :
    r.Applies text := by
  unfold readLimit at h
  split at h
  · rename_i hnil
    cases h
    rw [String.toList_eq_nil_iff.1 hnil] at hsplits
    exact ⟨keyword, hsplits⟩
  split at h
  · rename_i hword
    cases h
    rw [String.ofList_toList]
    refine ⟨keyword, hsplits, fun v hv hrange => ?_⟩
    rw [word?_eq_some_iff.2 ⟨hv, hrange⟩] at hword
    cases hword
  rename_i v hword
  split at h
  · rename_i hneg
    cases h
    exact ⟨keyword, value, hsplits, (word?_eq_some_iff.1 hword).1, hneg⟩
  split at h
  · rename_i hmetric
    cases h
    rw [String.ofList_toList] at hmetric ⊢
    refine ⟨value, hsplits, fun metric hkeyword => ?_⟩
    rw [← hkeyword, Metric.ofKeyword?_keyword] at hmetric
    cases hmetric
  · cases h

/-- A refused pattern is refused for a reason that applies, one of the two that
`readPattern_eq_error_iff` leaves. -/
theorem applies_of_readPattern {text pattern : String} {p : Polarity} {r : Reason}
    (htext : text = p.marker ++ pattern) (hequals : '=' ∉ text.toList)
    (hbang : p = .allow → pattern.toList.head? ≠ some '!')
    (h : readPattern p pattern.toList = .error r) : r.Applies text := by
  have hmem : '*' ∈ pattern.toList := by
    by_contra hstar
    rw [readPattern_name hstar] at h
    cases h
  obtain ⟨front, rest, hfront, hpattern⟩ := exists_cut hmem
  rw [hpattern, readPattern_eq_error_iff hfront] at h
  rcases h with ⟨rfl, rfl, hrest⟩ | ⟨rfl, hrest, hdot⟩
  · refine ⟨p, ?_⟩
    rw [htext, String.append_right_inj, String.append_right_inj, ← String.toList_inj,
      ← String.toList_inj, hpattern]
    rcases hrest with rfl | rfl
    · exact .inl rfl
    · exact .inr rfl
  · refine ⟨p, front, rest, hequals, ?_, ?_, hfront, hrest, hdot⟩
    · rw [htext, ← String.toList_inj, String.toList_append, hpattern]
      simp
    · intro hp hhead
      refine hbang hp ?_
      rw [hpattern, List.head?_append, hhead]
      rfl

/-- The reason that the reader gives applies. It is found along the path that the text takes through
the reader: a slash, a limit, a lone marker or a pattern. -/
theorem applies_of_read {text : String} {r : Reason} (h : read text.toList = .error r) :
    r.Applies text := by
  by_cases hslash : '/' ∈ text.toList
  · rw [read, if_pos hslash] at h
    cases h
    exact hslash
  by_cases hequals : '=' ∈ text.toList
  · obtain ⟨keyword, value, hcut⟩ := exists_cut hequals
    have hsplits : Splits text keyword value := splits_iff.2 hcut
    rw [hsplits.read_eq hslash] at h
    exact applies_of_readLimit hsplits h
  rw [read_class hslash hequals] at h
  by_cases hbare : text.toList = ['!']
  · rw [hbare] at h
    cases h
    exact String.toList_inj.1 hbare
  obtain ⟨p, pattern, htext, hbang, hne⟩ := exists_marker_append hbare
  rw [htext, readClass_marker_append hbang hne] at h
  obtain ⟨pattern, rfl⟩ : ∃ s : String, s.toList = pattern := ⟨_, String.toList_ofList⟩
  refine applies_of_readPattern ?_ hequals hbang h
  rw [← String.toList_inj, htext, String.toList_append]

/-! ### The first reason is given -/

/-- A value that is there is read on. If the reason for a missing value does not apply, the test for
it passes. -/
theorem value_ne_of_not_applies {text keyword value : String} (h : Splits text keyword value)
    (hmissing : ¬ Reason.missingLimitValue.Applies text) : value.toList ≠ [] := by
  intro hnil
  rw [String.toList_eq_nil_iff.1 hnil] at h
  exact hmissing ⟨keyword, h⟩

/-- A value that is not malformed is a number that a signed word holds. It may still be negative,
which is the next reason. -/
theorem exists_word_of_not_applies {text keyword value : String} (h : Splits text keyword value)
    (hmalformed : ¬ (Reason.malformedLimitValue value).Applies text) :
    ∃ v, Whole value.toList v ∧ word? value.toList = some v := by
  by_contra hnone
  refine hmalformed ⟨keyword, h, fun v hv hrange => hnone ⟨v, hv, ?_⟩⟩
  exact word?_eq_some_iff.2 ⟨hv, hrange⟩

/-- The reader gives a reason that applies, if none applies that comes before it. There is one case
for each reason, in which the reasons of lower rank say that the earlier tests pass. -/
theorem read_eq_error_of_first {text : String} {r : Reason} (h : r.IsFirst text) :
    read text.toList = .error r := by
  have hslash : 0 < r.rank → '/' ∉ text.toList := fun hr =>
    h.not_applies (show Reason.modulePattern.rank < r.rank from hr)
  cases r with
  | modulePattern => exact if_pos h.1
  | missingLimitValue =>
    obtain ⟨keyword, hsplits⟩ := h.1
    rw [hsplits.read_eq (hslash (by simp))]
    rfl
  | malformedLimitValue value =>
    obtain ⟨keyword, hsplits, hout⟩ := h.1
    have hsome := value_ne_of_not_applies hsplits (h.not_applies (by simp))
    have hword : word? value.toList = none := by
      refine Option.eq_none_iff_forall_ne_some.2 fun v hv => ?_
      obtain ⟨hwhole, hrange⟩ := word?_eq_some_iff.1 hv
      exact hout v hwhole hrange
    rw [hsplits.read_eq (hslash (by simp)), readLimit, if_neg hsome, hword, String.ofList_toList]
  | negativeLimit v =>
    obtain ⟨keyword, value, hsplits, hv, hneg⟩ := h.1
    have hsome := value_ne_of_not_applies hsplits (h.not_applies (by simp))
    -- The value is a number in range, as a malformed one would have come first.
    obtain ⟨w, hw, hword⟩ := exists_word_of_not_applies hsplits (h.not_applies (by simp))
    rw [hw.unique hv] at hword
    rw [hsplits.read_eq (hslash (by simp)), readLimit, if_neg hsome, hword]
    exact if_pos hneg
  | unknownLimit keyword =>
    obtain ⟨value, hsplits, hkeyword⟩ := h.1
    have hsome := value_ne_of_not_applies hsplits (h.not_applies (by simp))
    obtain ⟨v, hv, hword⟩ := exists_word_of_not_applies hsplits (h.not_applies (by simp))
    have hnatural : ¬ (Reason.negativeLimit v).Applies text := h.not_applies (by simp)
    have hneg : ¬ v < 0 := fun hneg => hnatural ⟨keyword, value, hsplits, hv, hneg⟩
    have hmetric : Metric.ofKeyword? keyword = none := by
      refine Option.eq_none_iff_forall_ne_some.2 fun metric hmetric => ?_
      exact hkeyword metric (Metric.keyword_of_ofKeyword? hmetric)
    rw [hsplits.read_eq (hslash (by simp)), readLimit, if_neg hsome, hword]
    simp only [if_neg hneg, String.ofList_toList, hmetric]
  | bareNegation =>
    rw [show text = "!" from h.1]
    rfl
  | emptyPackage =>
    obtain ⟨p, rfl | rfl⟩ := h.1 <;> cases p <;> rfl
  | misplacedWildcard =>
    obtain ⟨p, front, rest, hequals, htext, hbang, hstar, hrest, hdot⟩ := h.1
    have hcs : text.toList = p.marker.toList ++ (front.toList ++ '*' :: rest.toList) := by
      rw [htext]
      simp
    have hhead : p = .allow → (front.toList ++ '*' :: rest.toList).head? ≠ some '!' := fun hp =>
      head?_append_ne (hbang hp) (by simp)
    rw [read_class (hslash (by simp)) hequals, hcs, readClass_marker_append hhead fun _ => by simp]
    exact (readPattern_eq_error_iff hstar).2 (.inr ⟨rfl, hrest, hdot⟩)
  | missing => exact h.1.elim
  | empty => exact h.1.elim
  | embeddedSeparator => exact h.1.elim

theorem parse_eq_error_iff_read {text : String} {err : SpecError} :
    parse text = .error err ↔ err.element = text ∧ read text.toList = .error err.reason := by
  rw [parse]
  cases err
  cases read text.toList <;> simp [eq_comm]

/-- An element is refused for the first reason that applies, and the error holds the element itself.
If none applies, the element is accepted. -/
theorem parse_eq_error_iff {text : String} {err : SpecError} :
    parse text = .error err ↔ err.element = text ∧ err.reason.IsFirst text := by
  rw [parse_eq_error_iff_read]
  refine and_congr_right fun _ => ⟨fun h => ?_, read_eq_error_of_first⟩
  -- Some reason applies, and the reader gives the first.
  obtain ⟨first, hfirst⟩ := Reason.exists_isFirst (applies_of_read h)
  obtain rfl : first = err.reason :=
    Except.error.inj ((read_eq_error_of_first hfirst).symm.trans h)
  exact hfirst

end Element

end ClassFilter
