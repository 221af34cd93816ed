import ClassFilter.Proofs.Chain.Compiled

/-!
# `ClassFilter.Proofs.Chain.Concat`: two specifications in one

Two specifications with a separator between them make one specification. Its chain is made from
the two chains, without a look at the elements: `Chain.append` lets an exact rule of the second
chain join the one of its polarity in the first, and puts the other rules of the second chain
after those of the first.

* `Rule.gather_append_seen`: gathering after some polarities were seen leaves out the exact rules
  of these.
* `Chain.gather_append_eq`: the rules of two lists of elements are those of the appended chains.
* `Chain.compile_append_separator`: the same for specifications.
-/

set_option autoImplicit false

namespace ClassFilter

/-- Whether a rule is the exact rule of one of these polarities. Such a rule of a second chain does
not follow the first, since its names go to the rule there. -/
def Rule.within (polarities : List Polarity) : Rule → Bool
  | .exact p _ => decide (p ∈ polarities)
  | .limit _ _ => false
  | .wildcard _ _ _ => false

/-- The rules of a chain, then those of another. An exact rule of the second chain does not follow
if the first has one of its polarity, but gives its class names to that one. It is said of the
chains alone, without the elements they come from. -/
def Chain.append (c d : Chain) : Chain :=
  ⟨c.rules.map (Rule.extend (d.rules.flatMap Rule.elements))
    ++ d.rules.filter fun r => !r.within (Rule.exactPolarities c.rules)⟩

namespace Rule

/-- Only the class names among elements extend a rule, and only their being there. So the elements
of a second specification may be replaced by those of its rules. -/
theorem extend_congr {es es' : List Element}
    (h : ∀ p name, .exact p name ∈ es ↔ .exact p name ∈ es') : extend es = extend es' := by
  funext r
  cases r with
  | limit metric max => rfl
  | wildcard p scope text => rfl
  | exact p names =>
    have hset : NameSet.ofList (names.toList ++ Element.namesOf p es)
        = NameSet.ofList (names.toList ++ Element.namesOf p es') := by
      ext name
      rw [NameSet.mem_ofList, NameSet.mem_ofList, List.mem_append, List.mem_append,
        Element.mem_namesOf, Element.mem_namesOf, h p name]
    rw [extend, extend, hset]

/-- The gathered rules hold the class names of the elements, neither more nor fewer. This is all
that `extend` asks of a list of elements. -/
theorem exact_mem_flatMap_elements_gather {es : List Element} (p : Polarity) (name : String) :
    .exact p name ∈ (gather [] es).flatMap elements ↔ .exact p name ∈ es := by
  rw [exact_mem_flatMap_elements_iff]
  constructor
  · intro ⟨names, hrule, hname⟩
    exact (mem_iff_of_exact_mem_gather hrule name).1 hname
  · intro hmem
    obtain ⟨names, hrule⟩ : ∃ names, .exact p names ∈ gather [] es := by
      rw [← mem_exactPolarities, mem_exactPolarities_gather]
      exact ⟨List.not_mem_nil, Element.mem_exactPolarities.2 ⟨name, hmem⟩⟩
    exact ⟨names, hrule, (mem_iff_of_exact_mem_gather hrule name).2 hmem⟩

/-- What is gathered after more polarities were seen lacks their exact rules, and is otherwise the
same. The names of these polarities are passed over, and the other rules keep their order. -/
theorem gather_append_seen (more seen : List Polarity) (es : List Element) :
    gather (more ++ seen) es = (gather seen es).filter fun r => !r.within more := by
  induction es generalizing seen with
  | nil => rfl
  | cons e es ih =>
    cases e with
    | limit metric max =>
      rw [gather, gather, ih]
      rfl
    | wildcard p scope text =>
      rw [gather, gather, ih]
      rfl
    | exact p name =>
      by_cases hseen : p ∈ seen
      · rw [gather, gather, if_pos (List.mem_append_right _ hseen), if_pos hseen, ih]
      · have hcons : gather (more ++ p :: seen) es
            = (gather (p :: seen) es).filter fun r => !r.within more := ih (p :: seen)
        rw [gather, gather, if_neg hseen, List.filter_cons, ← hcons]
        by_cases hmore : p ∈ more
        · -- The rule is left out, and the polarity was seen before already.
          rw [if_pos (List.mem_append_left _ hmore)]
          simp only [within, hmore, decide_true, Bool.not_true, Bool.false_eq_true, if_false]
          refine gather_congr (fun q => ?_) es
          simp only [List.mem_append, List.mem_cons]
          grind
        · rw [if_neg (by simp [hmore, hseen])]
          simp only [within, hmore, decide_false, Bool.not_false, if_true]
          congr 1
          refine gather_congr (fun q => ?_) es
          simp only [List.mem_append, List.mem_cons, or_left_comm]

end Rule

namespace Chain

/-- The rules of two lists of elements are the rules of the first and those of the second, appended
as chains. It joins `gather_append`, in which the second list is still a list of elements, with the
two facts above. -/
theorem gather_append_eq (es more : List Element) :
    Chain.mk (Rule.gather [] (es ++ more))
      = (Chain.mk (Rule.gather [] es)).append ⟨Rule.gather [] more⟩ := by
  have hpolarities : ∀ p, p ∈ Element.exactPolarities es ++ [] ↔
      p ∈ Rule.exactPolarities (Rule.gather [] es) ++ [] := by
    intro p
    simp [Rule.mem_exactPolarities_gather]
  rw [append, Rule.extend_congr Rule.exact_mem_flatMap_elements_gather, Rule.gather_append,
    Rule.gather_congr hpolarities, Rule.gather_append_seen]

/-- Two specifications in one compile to the appended chains, if both compile and the first does not
end in an empty element. Such an element would be dropped at the end of the first and kept in the
middle of both. -/
theorem compile_append_separator {front back : String} {c d : Chain}
    (hfront : compile front = .ok c) (hback : compile back = .ok d)
    (hlast : (Text.Separated.split front).getLast? ≠ some "") :
    compile (front ++ ";" ++ back) = .ok (c.append d) := by
  obtain ⟨es, hne, hes, hc⟩ := compile_eq_ok_iff.1 hfront
  obtain ⟨more, hne', hmore, hd⟩ := compile_eq_ok_iff.1 hback
  obtain rfl : c = ⟨Rule.gather [] es⟩ := congrArg Chain.mk hc
  obtain rfl : d = ⟨Rule.gather [] more⟩ := congrArg Chain.mk hd
  have hsome : Text.Separated.elements back ≠ [] := by
    intro hnil
    rw [hnil] at hmore
    exact hne' (List.map_eq_nil_iff.1 hmore.symm)
  rw [← gather_append_eq, compile_eq_ok_iff, Text.Separated.elements_append_separator hlast hsome]
  exact ⟨es ++ more, List.append_ne_nil_of_left_ne_nil hne _, by simp [hes, hmore], rfl⟩

/-- The theorem where names move. The class name `a.C` and the empty name at the seam join the first
rule, and `q.S` joins the denied `q.R`, past the pattern between them. -/
theorem compile_append_separator_seam :
    compile "a.B;!q.R;x.*" = .ok ⟨[.exact .allow (.ofList ["a.B"]),
        .exact .deny (.ofList ["q.R"]), .wildcard .allow .package "x."]⟩ ∧
      compile ";!q.S;maxdepth=3;a.C;;" = .ok ⟨[.exact .allow (.ofList ["", "a.C"]),
        .exact .deny (.ofList ["q.S"]), .limit .depth 3]⟩ ∧
      compile ("a.B;!q.R;x.*" ++ ";" ++ ";!q.S;maxdepth=3;a.C;;")
        = .ok ⟨[.exact .allow (.ofList ["", "a.B", "a.C"]), .exact .deny (.ofList ["q.R", "q.S"]),
            .wildcard .allow .package "x.", .limit .depth 3]⟩ := by
  have hfront : compile "a.B;!q.R;x.*" = .ok ⟨[.exact .allow (.ofList ["a.B"]),
      .exact .deny (.ofList ["q.R"]), .wildcard .allow .package "x."]⟩ := by
    decide
  have hback : compile ";!q.S;maxdepth=3;a.C;;" = .ok ⟨[.exact .allow (.ofList ["", "a.C"]),
      .exact .deny (.ofList ["q.S"]), .limit .depth 3]⟩ := by
    decide
  refine ⟨hfront, hback, ?_⟩
  rw [compile_append_separator hfront hback (by decide)]
  decide

end Chain

end ClassFilter
