import ClassFilter.Proofs.Chain.Decision
import ClassFilter.Proofs.Element.Grammar
import ClassFilter.Proofs.Rule.Check
import ClassFilter.Proofs.Rule.Gather

/-!
# `ClassFilter.Proofs.Element.Opinion`: elements that answer for themselves

A class name is not asked where it stands. It joins the first class name of its polarity, and a
rule that comes in between is asked later than it. This file gives every element an answer where
it stands nevertheless: a class name answers for all class names of its polarity, wherever they
are. The first of them then answers as their rule does. If it has no answer, the others have none
either, so it does no harm to ask them too.

* `Element.opinion`: the answer of an element among others.
* `Element.evaluate_gather`: the rules of elements answer with the first opinion of the elements.
  The proof is an induction on the elements. `Rule.gather` keeps the polarities seen, and the
  class in question is no name of these.
* `Element.side`: the polarity towards which an element answers. `leans_opinion` says that an
  element has no other answer, and `leans_opinion_insert` that it draws the other elements to no
  other side.
* `Reading.side`: the same polarity, read off the text of the element.
-/

set_option autoImplicit false

namespace ClassFilter

/-! ### The opinions of elements -/

/-- The answer of an element among others. A class name answers for all of its polarity, and a limit
or a pattern answers as its own rule does. -/
def Element.opinion (es : List Element) (q : Query) : Element → Status
  | .limit metric max => (Rule.limit metric max).check q
  | .exact p _ => p.answer (decide (.exact p q.name ∈ es))
  | .wildcard p scope text => (Rule.wildcard p scope text).check q

/-- The polarity towards which an element answers. A limit has no polarity of its own, but it can
only reject, as a denial does. -/
def Element.side : Element → Polarity
  | .limit _ _ => .deny
  | .exact p _ => p
  | .wildcard p _ _ => p

/-- The first rule answers, or else the others do. This is `evaluate_cons` with the choice given a
name, whose laws are used from here on. -/
theorem Chain.evaluate_cons_eq_orElse (r : Rule) (rules : List Rule) (q : Query) :
    (Chain.mk (r :: rules)).evaluate q = (r.check q).orElse ((Chain.mk rules).evaluate q) := by
  rw [evaluate_cons]
  split
  · rename_i h
    rw [h, Status.undecided_orElse]
  · rename_i h
    exact (Status.orElse_of_ne h _).symm

namespace Element

/-- Only class names decide how other elements answer, and only the names of the class in question.
So an edit that keeps these keeps all opinions. -/
theorem opinion_congr {es es' : List Element} {q : Query}
    (h : ∀ p, .exact p q.name ∈ es ↔ .exact p q.name ∈ es') : opinion es q = opinion es' q := by
  funext e
  cases e with
  | limit metric max => rfl
  | exact p name => simp only [opinion, h p]
  | wildcard p scope text => rfl

/-- An element answers towards its side or not at all. For a class name it holds of the answer it
gives for the others too, as they are of one polarity. -/
theorem leans_opinion (es : List Element) (q : Query) (e : Element) :
    Status.Leans e.side .undecided (opinion es q e) := by
  cases e with
  | limit metric max => exact Rule.leans_check_limit metric max q
  | exact p name => exact Status.leans_answer p _
  | wildcard p scope text => exact Status.leans_answer p _

/-- One more element changes the answers of the others towards its side only. It can change them
just if it is a class name, and then those of its polarity. -/
theorem leans_opinion_insert (front back : List Element) (e : Element) (q : Query) (x : Element) :
    Status.Leans e.side (opinion (front ++ back) q x) (opinion (front ++ e :: back) q x) := by
  cases x with
  | limit metric max => exact .refl _ _
  | wildcard p scope text => exact .refl _ _
  | exact p name =>
    by_cases he : e = .exact p q.name
    · -- The new element is the class name in question, so the polarity answers now.
      have hmem : .exact p q.name ∈ front ++ e :: back := by simp [he]
      refine .inr ?_
      rw [opinion, decide_eq_true hmem, he]
      rfl
    · have hiff : .exact p q.name ∈ front ++ e :: back ↔ .exact p q.name ∈ front ++ back := by
        simp [Ne.symm he]
      refine .inl ?_
      simp only [opinion, hiff]

/-! ### The rules of elements -/

/-- The rules that are gathered after some polarities were seen answer in this way, if the class in
question is no name of these, and a name of another one in the elements at hand only. The hypothesis
is what the induction on the elements keeps. -/
theorem evaluate_gather_of_seen {whole es : List Element} {seen : List Polarity} {q : Query}
    (h : ∀ p, .exact p q.name ∈ whole ↔ p ∉ seen ∧ .exact p q.name ∈ es) :
    (Chain.mk (Rule.gather seen es)).evaluate q = Status.first (es.map (opinion whole q)) := by
  induction es generalizing seen with
  | nil => rfl
  | cons e es ih =>
    rw [List.map_cons, Status.first_cons]
    cases e with
    | limit metric max =>
      rw [Rule.gather, Chain.evaluate_cons_eq_orElse, ih (by simpa using h)]
      rfl
    | wildcard p scope text =>
      rw [Rule.gather, Chain.evaluate_cons_eq_orElse, ih (by simpa using h)]
      rfl
    | exact p name =>
      -- A class name of another polarity is among the elements that follow.
      have hother : ∀ p', p' ≠ p →
          (.exact p' q.name ∈ whole ↔ p' ∉ seen ∧ .exact p' q.name ∈ es) := by
        intro p' hp'
        rw [h p', List.mem_cons]
        simp [hp']
      by_cases hp : p ∈ seen
      · -- The rule was asked before, and it had no answer.
        have hnone : .exact p q.name ∉ whole := fun hmem => ((h p).1 hmem).1 hp
        have hrest : ∀ p', .exact p' q.name ∈ whole ↔ p' ∉ seen ∧ .exact p' q.name ∈ es := by
          intro p'
          by_cases hp' : p' = p
          · subst hp'
            exact iff_of_false hnone fun hmem => hmem.1 hp
          · exact hother p' hp'
        rw [Rule.gather, if_pos hp, ih hrest, opinion, decide_eq_false hnone]
        rfl
      · have hcheck : (Rule.exact p (.ofList (name :: namesOf p es))).check q
            = opinion whole q (.exact p name) := by
          have hmem : q.name ∈ NameSet.ofList (name :: namesOf p es) ↔ .exact p q.name ∈ whole := by
            rw [NameSet.mem_ofList, List.mem_cons, mem_namesOf, h p, List.mem_cons]
            simp [hp]
          simp only [Rule.check, opinion, hmem]
        rw [Rule.gather, if_neg hp, Chain.evaluate_cons_eq_orElse, hcheck]
        by_cases hwhole : .exact p q.name ∈ whole
        · -- The rule answers, and what follows is not asked.
          have hne : opinion whole q (.exact p name) ≠ .undecided := by
            rw [opinion, decide_eq_true hwhole]
            exact p.onMatch_ne_undecided
          rw [Status.orElse_of_ne hne, Status.orElse_of_ne hne]
        · have hrest : ∀ p', .exact p' q.name ∈ whole ↔
              p' ∉ p :: seen ∧ .exact p' q.name ∈ es := by
            intro p'
            by_cases hp' : p' = p
            · subst hp'
              simp [hwhole]
            · rw [hother p' hp', List.mem_cons]
              simp [hp']
          rw [ih hrest]

/-- The rules of elements answer with the first opinion of the elements. The order of the rules is
not needed for answers any more, only that of the elements. -/
theorem evaluate_gather (es : List Element) (q : Query) :
    (Chain.mk (Rule.gather [] es)).evaluate q = Status.first (es.map (opinion es q)) :=
  evaluate_gather_of_seen fun p => by simp

end Element

/-! ### The side of a text -/

/-- The polarity towards which the element of a text answers: a `=` or a leading `!` rejects. It is
read off two characters, so a caller can tell it of any text. -/
def Reading.side (text : String) : Polarity :=
  if '=' ∈ text.toList ∨ text.toList.head? = some '!' then .deny else .allow

namespace Reading

/-- The marker of a class element tells its side. A `!` in front is always the marker, as no pattern
to allow begins with one. -/
theorem side_marker_append {text : String} {p : Polarity} {pattern : List Char}
    (htext : text.toList = p.marker.toList ++ pattern) (hclass : '=' ∉ text.toList)
    (hmarker : p = .allow → pattern.head? ≠ some '!') : side text = p := by
  cases p with
  | allow =>
    refine if_neg ?_
    rintro (hmem | hhead)
    · exact hclass hmem
    · rw [htext] at hhead
      exact hmarker rfl hhead
  | deny =>
    refine if_pos (.inr ?_)
    rw [htext]
    rfl

/-- The side of an element is read off its text, for every text that can be read. A limit has an `=`
in it, and its side is to reject. -/
theorem side_eq {text : String} {e : Element} (hsep : ';' ∉ text.toList)
    (h : Element.parse text = .ok e) : side text = e.side := by
  obtain ⟨hwf, hspells⟩ := (Element.parse_eq_ok_iff hsep).1 h
  cases e with
  | limit metric max =>
    obtain ⟨value, -, htext⟩ := hspells
    refine if_pos (.inl ?_)
    rw [htext]
    simp
  | exact p name =>
    obtain ⟨⟨hname, hmarker⟩, -⟩ := hwf
    have htext : text.toList = p.marker.toList ++ name.toList := hspells
    refine side_marker_append htext ?_ hmarker
    rw [htext, ← List.append_nil name.toList]
    exact ((Element.not_mem_class (List.forall_mem_nil _)).1 hname).2.2.1
  | wildcard p scope front =>
    obtain ⟨⟨hfront, hmarker⟩, -⟩ := hwf
    have htext : text.toList = p.marker.toList ++ (front.toList ++ scope.stars.toList) := hspells
    refine side_marker_append htext ?_ fun hp => Element.head?_append_stars_ne.2 (hmarker hp)
    rw [htext]
    exact ((Element.not_mem_class fun c hc => Element.eq_of_mem_stars hc).1 hfront).2.2.1

end Reading

end ClassFilter
