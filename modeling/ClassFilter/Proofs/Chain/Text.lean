import ClassFilter.Proofs.Chain.Compiled

/-!
# `ClassFilter.Proofs.Chain.Text`: a chain is compiled from its text

`Chain.text` writes the elements of each rule, and an anchor where the text would end in
an empty element. The theorems show that compiling reads the same elements again, and
that they make the same rules:

* `Chain.elements` lists what the text is made of, and `text_eq_join` says that the text
  is its join.
* `getLast?_elements_ne`: these elements do not end in the empty name, which is what the
  anchor is for.
* `compile_text_eq_ok_iff`, `exists_compile_eq_ok_iff`: the chains that are compiled from
  their text are the well-formed ones, and no specification makes another chain.
* `exists_compile_text`: the round trip of a compiled chain.
-/

set_option autoImplicit false

namespace ClassFilter.Chain

/-! ### What the text is made of -/

/-- The element that is repeated at the end, if there is one. It is a denied class name, given as an
element where `Chain.anchor?` gives its text. -/
def anchorElements (c : Chain) : List Element :=
  if c.endsInEmptyName then c.leastDenied?.toList.map (.exact .deny) else []

/-- The elements of a chain's text: those of its rules, and the one that is repeated at the end. -/
def elements (c : Chain) : List Element :=
  c.rules.flatMap Rule.elements ++ c.anchorElements

theorem toList_anchor? (c : Chain) : c.anchor?.toList = c.anchorElements.map Element.text := by
  unfold anchor? anchorElements
  split
  · cases c.leastDenied? <;> rfl
  · rfl

/-- The text of a chain is the join of its elements' texts. The program joins within each rule
first, which comes to the same only because no rule is without elements. -/
theorem text_eq_join {c : Chain} (h : ∀ r ∈ c.rules, r.elements ≠ []) :
    c.text = Text.Separated.join (c.elements.map Element.text) := by
  -- Each rule is a group of texts, and so is the anchor.
  have hgroups : c.rules.map Rule.text ++ c.anchor?.toList
      = (c.rules.map (·.elements.map Element.text)
          ++ c.anchorElements.map fun e => [e.text]).map Text.Separated.join := by
    rw [List.map_append, List.map_map, List.map_map, toList_anchor?]
    rfl
  have hne : ∀ group ∈ c.rules.map (·.elements.map Element.text)
      ++ c.anchorElements.map fun e => [e.text], group ≠ [] := by
    intro group hgroup
    rcases List.mem_append.1 hgroup with hrule | hanchor
    · obtain ⟨r, hr, rfl⟩ := List.mem_map.1 hrule
      exact fun hnil => h r hr (List.map_eq_nil_iff.1 hnil)
    · obtain ⟨e, -, rfl⟩ := List.mem_map.1 hanchor
      exact List.cons_ne_nil _ _
  rw [text, hgroups, Text.Separated.join_flatten hne, elements, List.map_append,
    List.flatten_append, List.map_flatMap, ← List.flatMap_def, ← List.flatMap_def,
    ← List.map_eq_flatMap]

/-! ### The end of the text -/

/-- A chain with an exact deny rule has a class name to repeat, as no rule of it is without
elements. The name is one that the rule holds already, so repeating it changes nothing. -/
theorem leastDenied?_eq_some {c : Chain} (hne : ∀ r ∈ c.rules, r.elements ≠ [])
    (hdeny : .deny ∈ Rule.exactPolarities c.rules) :
    ∃ name names, c.leastDenied? = some name ∧ .exact .deny names ∈ c.rules ∧ name ∈ names := by
  obtain ⟨names, hnames⟩ := Rule.mem_exactPolarities.1 hdeny
  cases hleast : c.leastDenied? with
  | none =>
    -- Then no exact deny rule has a name.
    have hmin : names.toList.head? = none := List.findSome?_eq_none_iff.1 hleast _ hnames
    have hnil : (Rule.exact .deny names).elements = [] := by
      rw [Rule.elements, List.head?_eq_none_iff.1 hmin, List.map_nil]
    exact absurd hnil (hne _ hnames)
  | some name =>
    obtain ⟨r, hr, hname⟩ := List.exists_of_findSome?_eq_some hleast
    split at hname
    · rename_i others
      exact ⟨name, others, rfl, hr, List.mem_of_head? hname⟩
    · cases hname

/-- Only the set of the empty name alone ends in it, since it is the least name. So a chain whose
text would end in the empty element is recognised by its last rule. -/
theorem eq_singleton_of_getLast? {names : NameSet} (h : names.toList.getLast? = some "") :
    names = .singleton "" := by
  obtain ⟨front, hfront⟩ := List.getLast?_eq_some_iff.1 h
  -- Every name before the last one would be less than the empty name.
  have hsorted := names.sorted
  rw [hfront, List.pairwise_append] at hsorted
  have hnil : front = [] := by
    refine List.eq_nil_iff_forall_not_mem.2 fun x hx => ?_
    have hlt := String.lt_iff.1 (hsorted.2.2 x hx "" (by simp))
    exact List.not_lt_nil x.toList hlt
  ext name
  rw [← NameSet.mem_toList, hfront, hnil, List.nil_append, List.mem_singleton,
    NameSet.mem_singleton]

/-- The elements of a chain's text do not end in the empty name. This is what the anchor is for, and
by the invariant there is one when it is needed. -/
theorem getLast?_elements_ne {c : Chain} (h : c.WellFormed) :
    c.elements.getLast? ≠ some (.exact .allow "") := by
  intro hlast
  unfold elements anchorElements at hlast
  by_cases hend : c.endsInEmptyName = true
  · -- The anchor stands at the end, and it is a denied class.
    obtain ⟨name, names, hleast, -, -⟩ :=
      leastDenied?_eq_some (fun r hr => (h.rules r hr).1) (h.anchored hend)
    rw [if_pos hend, hleast] at hlast
    simp at hlast
  · rw [if_neg hend, List.append_nil] at hlast
    -- The last element is the last one of the last rule.
    have hsplit := List.dropLast_concat_getLast h.nonempty
    have hsome := (h.rules _ (List.getLast_mem h.nonempty)).1
    rw [← hsplit, List.flatMap_append, List.flatMap_singleton, List.getLast?_append,
      List.getLast?_eq_some_getLast hsome, Option.some_or,
      ← List.getLast?_eq_some_getLast hsome] at hlast
    cases hrule : c.rules.getLast h.nonempty with
    | limit metric max =>
      rw [hrule] at hlast
      cases hlast
    | wildcard p scope text =>
      rw [hrule] at hlast
      cases hlast
    | exact p names =>
      rw [hrule, Rule.elements, List.getLast?_map] at hlast
      obtain ⟨name, hname, heq⟩ := Option.map_eq_some_iff.1 hlast
      cases heq
      have hset := eq_singleton_of_getLast? hname
      rw [endsInEmptyName_iff, List.getLast?_eq_some_getLast h.nonempty, hrule, hset] at hend
      exact hend rfl

/-! ### The round trip -/

/-- The elements of a chain's text make the rules of the chain. The anchor is a name that a rule
holds already, so it makes no rule and extends none. -/
theorem gather_elements {c : Chain} (h : c.WellFormed) : Rule.gather [] c.elements = c.rules := by
  have hne : ∀ r ∈ c.rules, r.elements ≠ [] := fun r hr => (h.rules r hr).1
  refine Rule.gather_flatMap_elements hne h.nodup (by simp) fun e he => ?_
  -- The anchor makes no rule, as the deny rule holds its name.
  unfold anchorElements at he
  split at he
  · rename_i hend
    obtain ⟨name, names, hleast, hmem, hname⟩ := leastDenied?_eq_some hne (h.anchored hend)
    rw [hleast] at he
    obtain rfl := List.mem_singleton.1 he
    exact ⟨.deny, name, rfl, .inr ⟨names, hmem, hname⟩⟩
  · cases he

/-- Every element of a chain's text is well formed. The anchor is one of the elements of a rule, so
nothing more is asked for it. -/
theorem wellFormed_of_mem_elements {c : Chain} (h : c.WellFormed) {e : Element}
    (he : e ∈ c.elements) : e.WellFormed := by
  rcases List.mem_append.1 he with hrule | hanchor
  · obtain ⟨r, hr, her⟩ := List.mem_flatMap.1 hrule
    exact (h.rules r hr).2 e her
  · unfold anchorElements at hanchor
    split at hanchor
    · -- The anchor is an element of the exact deny rule.
      rename_i hend
      obtain ⟨name, names, hleast, hmem, hname⟩ :=
        leastDenied?_eq_some (fun r hr => (h.rules r hr).1) (h.anchored hend)
      rw [hleast] at hanchor
      obtain rfl := List.mem_singleton.1 hanchor
      exact (h.rules _ hmem).2 _ (List.mem_map.2 ⟨name, hname, rfl⟩)
    · cases hanchor

theorem elements_ne_nil {c : Chain} (h : c.WellFormed) : c.elements ≠ [] := by
  intro hnil
  have hrules := gather_elements h
  rw [hnil] at hrules
  exact h.nonempty hrules.symm

/-- The elements of a chain's text are found in it when it is split. None of them holds a separator,
and the last one is not empty, so splitting and joining cancel out. -/
theorem elements_text {c : Chain} (h : c.WellFormed) :
    Text.Separated.elements c.text = c.elements.map Element.text := by
  rw [text_eq_join fun r hr => (h.rules r hr).1]
  refine Text.Separated.elements_join ?_ ?_
  · -- No text holds a separator, so the join is split where it was joined.
    intro part hpart
    obtain ⟨e, he, rfl⟩ := List.mem_map.1 hpart
    exact Element.separator_not_mem_text (wellFormed_of_mem_elements h he)
  · -- Nothing is dropped at the end, since only the empty name has an empty text.
    intro hlast
    rw [List.getLast?_map] at hlast
    obtain ⟨e, he, hempty⟩ := Option.map_eq_some_iff.1 hlast
    rw [Element.text_eq_empty_iff.1 hempty] at he
    exact getLast?_elements_ne h he

/-- A well-formed chain is compiled from its text. The text is split into the elements it was made
of, these are read as they were spelled, and they make the same rules. -/
theorem compile_text {c : Chain} (h : c.WellFormed) : compile c.text = .ok c := by
  refine compile_eq_ok_iff.2 ⟨c.elements, elements_ne_nil h, ?_, (gather_elements h).symm⟩
  rw [elements_text h, List.map_map]
  exact List.map_congr_left fun e he => Element.parse_text (wellFormed_of_mem_elements h he)

/-- The chains that are compiled from their text are the well-formed ones. The other chains have a
text too, but it is refused or makes a different chain. -/
theorem compile_text_eq_ok_iff {c : Chain} : compile c.text = .ok c ↔ c.WellFormed :=
  ⟨wellFormed_of_compile, compile_text⟩

/-- The chains that any specification compiles to are the well-formed ones. So if a chain has a
specification, its text is one. -/
theorem exists_compile_eq_ok_iff {c : Chain} : (∃ spec, compile spec = .ok c) ↔ c.WellFormed := by
  constructor
  · intro ⟨spec, h⟩
    exact wellFormed_of_compile h
  · exact fun h => ⟨c.text, compile_text h⟩

/-- A compiled chain is compiled from its text again, and the text stays the same. After one round
no further change is possible. -/
theorem exists_compile_text {spec : String} {c : Chain} (h : compile spec = .ok c) :
    ∃ again, compile c.text = .ok again ∧ again.rules = c.rules ∧ again.text = c.text :=
  ⟨c, compile_text (wellFormed_of_compile h), rfl, rfl⟩

/-- The theorem where an anchor is needed. Both denied classes are in the first rule, so the empty
name ends the chain, and its text repeats one of them. -/
theorem exists_compile_text_anchored :
    compile "!d.E;;!a.B" = .ok ⟨[.exact .deny (.ofList ["a.B", "d.E"]), .exact .allow (.singleton "")]⟩ ∧
      ∃ again, compile (Chain.text
          ⟨[.exact .deny (.ofList ["a.B", "d.E"]), .exact .allow (.singleton "")]⟩) = .ok again ∧
        again.rules = [.exact .deny (.ofList ["a.B", "d.E"]), .exact .allow (.singleton "")] ∧
        again.text = "!a.B;!d.E;;!a.B" := by
  have h : compile "!d.E;;!a.B"
      = .ok ⟨[.exact .deny (.ofList ["a.B", "d.E"]), .exact .allow (.singleton "")]⟩ := by
    decide
  exact ⟨h, exists_compile_text h⟩

end ClassFilter.Chain
