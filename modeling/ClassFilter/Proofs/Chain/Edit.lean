import ClassFilter.Proofs.Chain.Refusal
import ClassFilter.Proofs.Element.Opinion

/-!
# `ClassFilter.Proofs.Chain.Edit`: what an edit of a specification does to the answers

A class name does not stay where it is written, so an edit in one place can move rules in others.
The answers change less than the rules. They are the first opinions of the elements where they
stand (`Element.evaluate_gather`), and an edit is judged on these.

* `Chain.evaluate_gather_insert`, `Chain.evaluate_gather_swap`, `Chain.evaluate_gather_repeat`:
  the three edits on elements.
* `Chain.compile_join_eq_ok_iff`: a list of texts compiles to the rules of what they are read as.
  `Chain.compile_join_insert` is the case of one more text, which is dropped if it is empty and
  stands at the end. `Chain.compile_join_swap` is that of two neighbours swapped.
* `Chain.exists_compile_insert`: one more element compiles, and the answers change to those of
  its side only.
* `Chain.exists_compile_swap_repeat`: the order of elements of one side does not matter, and a
  copy of an element that stands before is harmless.
-/

set_option autoImplicit false

namespace ClassFilter.Chain

open Text.Separated (join)

/-! ### Edits of elements -/

/-- One more element changes an answer to that of its side only. The opinions of the other elements
change to its side at most, and its own is one more at its place. -/
theorem evaluate_gather_insert (front back : List Element) (e : Element) (q : Query) :
    Status.Leans e.side ((Chain.mk (Rule.gather [] (front ++ back))).evaluate q)
      ((Chain.mk (Rule.gather [] (front ++ e :: back))).evaluate q) := by
  have hothers : ∀ xs : List Element,
      Status.Leans e.side (Status.first (xs.map (Element.opinion (front ++ back) q)))
        (Status.first (xs.map (Element.opinion (front ++ e :: back) q))) := fun xs =>
    .first_map fun x _ => Element.leans_opinion_insert front back e q x
  rw [Element.evaluate_gather, Element.evaluate_gather, List.map_append, Status.first_append,
    List.map_append, Status.first_append, List.map_cons, Status.first_cons]
  -- The new element changes no opinion into one of its own, where there was none.
  have hnew := (Element.leans_opinion (front ++ e :: back) q e).orElse (hothers back)
  exact (hothers front).orElse hnew

/-- Two neighbours of one side can be swapped, since their opinions are the side's answer or none.
Which class names there are does not depend on the order. -/
theorem evaluate_gather_swap {x y : Element} (h : x.side = y.side) (front back : List Element)
    (q : Query) :
    (Chain.mk (Rule.gather [] (front ++ y :: x :: back))).evaluate q
      = (Chain.mk (Rule.gather [] (front ++ x :: y :: back))).evaluate q := by
  have hmem : ∀ p, .exact p q.name ∈ front ++ y :: x :: back ↔
      .exact p q.name ∈ front ++ x :: y :: back := by
    intro p
    simp only [List.mem_append, List.mem_cons, or_left_comm]
  rw [Element.evaluate_gather, Element.evaluate_gather, Element.opinion_congr hmem]
  generalize hopinion : Element.opinion (front ++ x :: y :: back) q = opinion
  have hx : Status.Leans x.side .undecided (opinion x) := hopinion ▸ Element.leans_opinion _ q x
  have hy : Status.Leans x.side .undecided (opinion y) := hopinion ▸ h ▸ Element.leans_opinion _ q y
  simp only [List.map_append, List.map_cons, Status.first_append, Status.first_cons]
  congr 1
  calc (opinion y).orElse ((opinion x).orElse (Status.first (back.map opinion)))
    _ = ((opinion y).orElse (opinion x)).orElse (Status.first (back.map opinion)) :=
      (Status.orElse_assoc _ _ _).symm
    _ = ((opinion x).orElse (opinion y)).orElse (Status.first (back.map opinion)) := by
      rw [Status.orElse_comm_of_leans hy hx]
    _ = (opinion x).orElse ((opinion y).orElse (Status.first (back.map opinion))) :=
      Status.orElse_assoc _ _ _

/-- A copy of an element that stands before is harmless. Where the copy has an opinion the first one
has the same, and it comes earlier. -/
theorem evaluate_gather_repeat {front : List Element} {e : Element} (h : e ∈ front)
    (back : List Element) (q : Query) :
    (Chain.mk (Rule.gather [] (front ++ e :: back))).evaluate q
      = (Chain.mk (Rule.gather [] (front ++ back))).evaluate q := by
  have hmem : ∀ p, .exact p q.name ∈ front ++ e :: back ↔ .exact p q.name ∈ front ++ back := by
    intro p
    rw [List.mem_append, List.mem_cons, List.mem_append]
    constructor
    · rintro (hfront | rfl | hback)
      · exact .inl hfront
      · exact .inl h
      · exact .inr hback
    · exact fun hmem => hmem.imp_right .inr
  rw [Element.evaluate_gather, Element.evaluate_gather, Element.opinion_congr hmem]
  simp only [List.map_append, List.map_cons, Status.first_append, Status.first_cons]
  exact Status.first_orElse_of_mem (List.mem_map_of_mem h) _

/-! ### Edits of texts -/

/-- Texts without a separator, the last of which is not empty, compile to the rules of what they are
read as. So an edit of the texts is an edit of the elements, as long as no list ends in the empty
text. -/
theorem compile_join_eq_ok_iff {parts : List String} {c : Chain}
    (hsep : ∀ part ∈ parts, ';' ∉ part.toList) (hlast : parts.getLast? ≠ some "") :
    compile (join parts) = .ok c ↔
      ∃ es, es ≠ [] ∧ parts.map Element.parse = es.map .ok ∧ c.rules = Rule.gather [] es := by
  rw [compile_eq_ok_iff, Text.Separated.elements_join hsep hlast]

/-- One more text compiles to the rules with one more element, or is dropped. It is dropped if it is
empty and stands at the end, and then the rules are the same as before. -/
theorem compile_join_insert {before after : List String} {part : String} {e : Element} {c : Chain}
    (hsep : ∀ x ∈ before ++ after, ';' ∉ x.toList) (hlast : (before ++ after).getLast? ≠ some "")
    (h : compile (join (before ++ after)) = .ok c) (hpart : ';' ∉ part.toList)
    (hread : Element.parse part = .ok e) :
    ∃ front back, before.map Element.parse = front.map .ok ∧
      c.rules = Rule.gather [] (front ++ back) ∧
      (compile (join (before ++ part :: after)) = .ok c ∨
        compile (join (before ++ part :: after)) = .ok ⟨Rule.gather [] (front ++ e :: back)⟩) := by
  obtain ⟨es, -, hes, hrules⟩ := (compile_join_eq_ok_iff hsep hlast).1 h
  rw [List.map_append] at hes
  obtain ⟨front, back, rfl, hfront, hback⟩ := List.append_eq_map_iff.1 hes
  refine ⟨front, back, hfront.symm, hrules, ?_⟩
  have hsep' : ∀ x ∈ before ++ part :: after, ';' ∉ x.toList := by
    intro x hx
    rcases List.mem_append.1 hx with hx | hx
    · exact hsep x (List.mem_append_left _ hx)
    rcases List.mem_cons.1 hx with rfl | hx
    · exact hpart
    · exact hsep x (List.mem_append_right _ hx)
  by_cases hlast' : (before ++ part :: after).getLast? = some ""
  · -- The new text is empty and stands at the end, so it is dropped.
    obtain ⟨rfl, rfl⟩ : after = [] ∧ part = "" := by
      cases after with
      | nil => simpa using hlast'
      | cons x after => exact absurd (by simpa using hlast') hlast
    have hdrop : Text.Separated.elements (join (before ++ [""]))
        = Text.Separated.elements (join (before ++ [])) := by
      rw [Text.Separated.elements_join_eq_dropTrailingEmpty hsep',
        Text.Separated.dropTrailingEmpty_append_empty,
        Text.Separated.elements_join_eq_dropTrailingEmpty hsep, List.append_nil]
    rw [compile_eq_ok_iff] at h ⊢
    rw [hdrop]
    exact .inl h
  · refine .inr ((compile_join_eq_ok_iff hsep' hlast').2 ⟨front ++ e :: back, by simp, ?_, rfl⟩)
    rw [List.map_append, List.map_cons, ← hfront, ← hback, hread, List.map_append, List.map_cons]

/-- Two neighbours that are swapped compile to the rules of the elements with two neighbours
swapped. The list that results must not end in the empty text, which would be dropped there. -/
theorem compile_join_swap {before after : List String} {x y : String} {c : Chain}
    (hsep : ∀ z ∈ before ++ x :: y :: after, ';' ∉ z.toList)
    (hlast : (before ++ x :: y :: after).getLast? ≠ some "")
    (h : compile (join (before ++ x :: y :: after)) = .ok c)
    (hlast' : (before ++ y :: x :: after).getLast? ≠ some "") :
    ∃ front e f back, Element.parse x = .ok e ∧ Element.parse y = .ok f ∧
      c.rules = Rule.gather [] (front ++ e :: f :: back) ∧
      compile (join (before ++ y :: x :: after))
        = .ok ⟨Rule.gather [] (front ++ f :: e :: back)⟩ := by
  obtain ⟨es, -, hes, hrules⟩ := (compile_join_eq_ok_iff hsep hlast).1 h
  rw [List.map_append, List.map_cons, List.map_cons] at hes
  obtain ⟨front, rest, rfl, hfront, hrest⟩ := List.map_eq_append_iff.1 hes.symm
  obtain ⟨e, rest, rfl, he, hrest⟩ := List.map_eq_cons_iff.1 hrest
  obtain ⟨f, back, rfl, hf, hback⟩ := List.map_eq_cons_iff.1 hrest
  have hsep' : ∀ z ∈ before ++ y :: x :: after, ';' ∉ z.toList := by
    intro z hz
    refine hsep z ?_
    rw [List.mem_append, List.mem_cons, List.mem_cons] at hz ⊢
    rwa [or_left_comm (a := z = x)]
  have hread : (before ++ y :: x :: after).map Element.parse
      = (front ++ f :: e :: back).map .ok := by
    simp only [List.map_append, List.map_cons, hfront, he, hf, hback]
  exact ⟨front, e, f, back, he.symm, hf.symm, hrules,
    (compile_join_eq_ok_iff hsep' hlast').2 ⟨_, by simp, hread, rfl⟩⟩

/-- Order matters between the sides only, and repeats are harmless. In a list of texts that
compiles, two neighbours of one side can be swapped, and a copy of a text can be inserted anywhere
after it. The list still compiles, and every answer stays, as long as no list ends in the empty
text. -/
theorem exists_compile_swap_repeat {parts : List String} {c : Chain}
    (hsep : ∀ x ∈ parts, ';' ∉ x.toList) (hlast : parts.getLast? ≠ some "")
    (h : compile (join parts) = .ok c) :
    (∀ before x y after, parts = before ++ x :: y :: after → Reading.side x = Reading.side y →
      (before ++ y :: x :: after).getLast? ≠ some "" →
      ∃ c', compile (join (before ++ y :: x :: after)) = .ok c' ∧
        ∀ q, c'.evaluate q = c.evaluate q) ∧
    ∀ before x after, parts = before ++ after → x ∈ before →
      ∃ c', compile (join (before ++ x :: after)) = .ok c' ∧ ∀ q, c'.evaluate q = c.evaluate q := by
  refine ⟨?_, ?_⟩
  · rintro before x y after rfl hside hlast'
    obtain ⟨front, e, f, back, he, hf, hrules, hswap⟩ := compile_join_swap hsep hlast h hlast'
    obtain rfl : c = ⟨Rule.gather [] (front ++ e :: f :: back)⟩ := congrArg Chain.mk hrules
    have hsides : e.side = f.side := by
      rw [← Reading.side_eq (hsep x (by simp)) he, hside, Reading.side_eq (hsep y (by simp)) hf]
    exact ⟨_, hswap, evaluate_gather_swap hsides front back⟩
  · rintro before x after rfl hx
    obtain ⟨e, hread⟩ : ∃ e, Element.parse x = .ok e := by
      refine parse_of_compile h ?_
      rw [Text.Separated.elements_join hsep hlast]
      exact List.mem_append_left _ hx
    obtain ⟨front, back, hfront, hrules, hsame | hinsert⟩ :=
      compile_join_insert hsep hlast h (hsep x (List.mem_append_left _ hx)) hread
    · exact ⟨c, hsame, fun q => rfl⟩
    · obtain rfl : c = ⟨Rule.gather [] (front ++ back)⟩ := congrArg Chain.mk hrules
      -- The copy is read as an element that stands before.
      have hmem : e ∈ front := by
        obtain ⟨e', he', heq⟩ := Result.exists_mem_of_map_eq hfront hx
        rw [hread] at heq
        cases heq
        exact he'
      exact ⟨_, hinsert, evaluate_gather_repeat hmem back⟩

/-- The denied class `a.C` is swapped with a limit and takes `b.D` with it. A copy of the pattern
`a.*` makes one more rule. -/
theorem exists_compile_swap_repeat_denied_name :
    ∃ c c' c'', compile (join ["a.*", "maxdepth=5", "!a.C", "!b.D"]) = .ok c ∧
      compile (join ["a.*", "!a.C", "maxdepth=5", "!b.D"]) = .ok c' ∧
      compile (join ["a.*", "maxdepth=5", "!a.C", "a.*", "!b.D"]) = .ok c'' ∧
      ∀ q, c'.evaluate q = c.evaluate q ∧ c''.evaluate q = c.evaluate q := by
  have h : compile (join ["a.*", "maxdepth=5", "!a.C", "!b.D"])
      = .ok ⟨[.wildcard .allow .package "a.", .limit .depth 5,
          .exact .deny (.ofList ["a.C", "b.D"])]⟩ := by
    decide
  obtain ⟨hswap, hrepeat⟩ := exists_compile_swap_repeat (by decide) (by decide) h
  obtain ⟨c', hc', heq'⟩ :=
    hswap ["a.*"] "maxdepth=5" "!a.C" ["!b.D"] rfl (by decide) (by decide)
  obtain ⟨c'', hc'', heq''⟩ := hrepeat ["a.*", "maxdepth=5", "!a.C"] "a.*" ["!b.D"] rfl (by decide)
  exact ⟨_, c', c'', h, hc', hc'', fun q => ⟨heq' q, heq'' q⟩⟩

end ClassFilter.Chain
