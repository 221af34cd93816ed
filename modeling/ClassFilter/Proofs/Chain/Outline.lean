import ClassFilter.Proofs.Chain.Compiled

/-!
# `ClassFilter.Proofs.Chain.Outline`: what a specification's rules depend on

Class names of one polarity make one rule, at the place of the first of them. Where the later ones
stand, in which order they come and how often makes no difference. What is left of a specification
when this is forgotten is its outline and, for each polarity, the set of its class names.

* `Element.SameDeclarations`: when two lists of elements declare the same. They have the same other
  elements, and the first class name of each polarity at the same place among these.
* `Element.outline`: the elements, with a mark in place of the first class name of each polarity and
  without the other class names.
* `Element.SameDeclarations.outline_eq`: lists that declare the same have one outline. The induction
  is on the outline, in which each polarity is marked once (`nodup_marks`).
* `Rule.gather_eq_map_outline`: the rules are the outline with its marks filled.
* `Chain.eq_of_sameDeclarations`: two specifications that declare the same compile to one chain.

Places alone are not enough. In `a.B;!c.D` and in `!c.D;a.B` both class names come first among no
other elements, and the chains have their two rules in different order. So `SameDeclarations` asks
which of the two comes first where they share their place.
-/

set_option autoImplicit false

namespace ClassFilter

namespace Element

/-! ### Lists that declare the same -/

/-- The elements that are no class names, in their order. Each makes a rule of its own, so none of
them can be left out or moved. -/
def others (es : List Element) : List Element :=
  es.filter (!·.isName)

/-- The place of the first class name of a polarity: how many elements that are no class names stand
before it. Class names in front of it do not count. -/
def place? (p : Polarity) : List Element → Option Nat
  | [] => none
  | .exact q _ :: rest => if q = p then some 0 else place? p rest
  | .limit _ _ :: rest => (place? p rest).map (· + 1)
  | .wildcard _ _ _ :: rest => (place? p rest).map (· + 1)

/-- When two lists of elements declare the same:

- `others`: the elements that are no class names are the same, in the same order;
- `place`: the first class name of each polarity stands at the same place among them;
- `first`: if the two polarities share their place, the same one comes first;
- `names`: the class names are the same, in any order and number. -/
structure SameDeclarations (es es' : List Element) : Prop where
  others : others es = others es'
  place : ∀ p, place? p es = place? p es'
  first : place? .allow es = place? .deny es →
    (exactPolarities es).head? = (exactPolarities es').head?
  names : ∀ p name, .exact p name ∈ es ↔ .exact p name ∈ es'

/-! ### The outline -/

/-- The elements with a mark in place of the first class name of each polarity that is not in
`seen`, and without the other class names. It has one item for each rule. -/
def outline (seen : List Polarity) : List Element → List (Element ⊕ Polarity)
  | [] => []
  | .exact p _ :: rest =>
    if p ∈ seen then outline seen rest else .inr p :: outline (p :: seen) rest
  | .limit metric max :: rest => .inl (.limit metric max) :: outline seen rest
  | .wildcard p scope text :: rest => .inl (.wildcard p scope text) :: outline seen rest

/-- The marks of an outline, in their order. There are two at most, one for each polarity. -/
def marks (o : List (Element ⊕ Polarity)) : List Polarity :=
  o.filterMap Sum.getRight?

/-- The place of a mark among the elements of an outline. It counts elements and not marks, so two
marks side by side have one place. -/
def markPlace? (p : Polarity) : List (Element ⊕ Polarity) → Option Nat
  | [] => none
  | .inr q :: rest => if q = p then some 0 else markPlace? p rest
  | .inl _ :: rest => (markPlace? p rest).map (· + 1)

/-- An outline keeps the elements that are no class names, in their order. What it adds are marks,
and what it leaves out are class names. -/
theorem filterMap_outline (seen : List Polarity) (es : List Element) :
    (outline seen es).filterMap Sum.getLeft? = others es := by
  induction es generalizing seen with
  | nil => rfl
  | cons e es ih =>
    cases e with
    | limit metric max => exact congrArg (Element.limit metric max :: ·) (ih seen)
    | wildcard p scope text => exact congrArg (Element.wildcard p scope text :: ·) (ih seen)
    | exact p name =>
      rw [outline]
      split
      · exact ih seen
      · exact ih (p :: seen)

/-- A polarity whose mark is still to come is marked where its first class name stands. The class
names before it are of the other polarity and count in neither. -/
theorem markPlace?_outline {p : Polarity} {seen : List Polarity} (hp : p ∉ seen)
    (es : List Element) : markPlace? p (outline seen es) = place? p es := by
  induction es generalizing seen with
  | nil => rfl
  | cons e es ih =>
    cases e with
    | limit metric max => exact congrArg (Option.map (· + 1)) (ih hp)
    | wildcard q scope text => exact congrArg (Option.map (· + 1)) (ih hp)
    | exact q name =>
      rw [outline, place?]
      by_cases hq : q = p
      · rw [if_neg (hq ▸ hp), markPlace?, if_pos hq, if_pos hq]
      · rw [if_neg hq]
        split
        · exact ih hp
        · rw [markPlace?, if_neg hq]
          exact ih fun hmem => hp ((List.mem_cons.1 hmem).resolve_left (Ne.symm hq))

/-- Each polarity is marked once, and not at all if it was seen before. Both parts are proved
together, as a mark puts its polarity among those seen. -/
theorem nodup_marks (seen : List Polarity) (es : List Element) :
    (marks (outline seen es)).Nodup ∧ ∀ p ∈ marks (outline seen es), p ∉ seen := by
  induction es generalizing seen with
  | nil => exact ⟨List.nodup_nil, nofun⟩
  | cons e es ih =>
    cases e with
    | limit metric max => exact ih seen
    | wildcard p scope text => exact ih seen
    | exact p name =>
      rw [outline]
      split
      · exact ih seen
      · rename_i hp
        obtain ⟨hnodup, hseen⟩ := ih (p :: seen)
        -- The polarity marked here is among those seen by the rest, which does not mark it again.
        refine ⟨List.nodup_cons.2 ⟨fun hmem => hseen p hmem List.mem_cons_self, hnodup⟩, ?_⟩
        intro q hq
        rcases List.mem_cons.1 hq with rfl | hq
        · exact hp
        · exact fun hmem => hseen q hq (List.mem_cons_of_mem _ hmem)

/-- The first mark is that of the first class name, whichever elements stand before it. -/
theorem head?_marks_outline (es : List Element) :
    (marks (outline [] es)).head? = (exactPolarities es).head? := by
  induction es with
  | nil => rfl
  | cons e es ih =>
    cases e with
    | limit metric max => exact ih
    | wildcard p scope text => exact ih
    | exact p name => rfl

/-- A polarity without a place has no mark, and the other way round. So places tell also which marks
there are. -/
theorem markPlace?_eq_none_iff {p : Polarity} {o : List (Element ⊕ Polarity)} :
    markPlace? p o = none ↔ p ∉ marks o := by
  induction o with
  | nil => simp [markPlace?, marks]
  | cons x o ih =>
    cases x with
    | inl e => rw [markPlace?, Option.map_eq_none_iff, ih]; rfl
    | inr q =>
      show (if q = p then some 0 else markPlace? p o) = none ↔ p ∉ q :: marks o
      rw [List.mem_cons, not_or, ← ih]
      by_cases hq : q = p
      · simp [hq]
      · simp [hq, Ne.symm hq]

/-- If the marks of an outline share their place and one of them is missing, so is the other: they
share it only by having none. -/
theorem not_mem_marks_of_shared {p : Polarity} {o : List (Element ⊕ Polarity)} (hp : p ∉ marks o)
    (hsame : markPlace? .allow o = markPlace? .deny o) (q : Polarity) : q ∉ marks o := by
  rw [← markPlace?_eq_none_iff] at hp ⊢
  cases p <;> cases q <;> simp_all

/-- Two outlines that begin with a mark begin with the same one. If the marks were different, both
outlines would have both at their front, and `hfirst` says which one is before the other. -/
theorem front_mark_eq {p p' : Polarity} {o o' : List (Element ⊕ Polarity)}
    (hplace : ∀ q, markPlace? q (.inr p :: o) = markPlace? q (.inr p' :: o'))
    (hfirst : markPlace? .allow (.inr p :: o) = markPlace? .deny (.inr p :: o) →
      (marks (.inr p :: o)).head? = (marks (.inr p' :: o')).head?) : p = p' := by
  by_contra hne
  have hown : markPlace? p (.inr p :: o) = some 0 := if_pos rfl
  have hother : markPlace? p' (.inr p :: o) = some 0 := by
    rw [hplace p', markPlace?, if_pos rfl]
  have hsame : markPlace? .allow (.inr p :: o) = markPlace? .deny (.inr p :: o) := by
    cases p <;> cases p' <;> simp_all
  exact hne (Option.some.inj (hfirst hsame))

/-- An outline is determined by its elements, the places of its marks and, where the two marks share
their place, the one that comes first. -/
theorem eq_of_marks {o o' : List (Element ⊕ Polarity)} (hnodup : (marks o).Nodup)
    (hnodup' : (marks o').Nodup)
    (hothers : o.filterMap Sum.getLeft? = o'.filterMap Sum.getLeft?)
    (hplace : ∀ p, markPlace? p o = markPlace? p o')
    (hfirst : markPlace? .allow o = markPlace? .deny o → (marks o).head? = (marks o').head?) :
    o = o' := by
  induction o generalizing o' with
  | nil =>
    cases o' with
    | nil => rfl
    | cons x o' =>
      cases x with
      | inl e => cases hothers
      | inr p => simpa [markPlace?] using hplace p
  | cons x o ih =>
    cases x with
    | inl e =>
      cases o' with
      | nil => cases hothers
      | cons y o' =>
        cases y with
        | inr p => simpa [markPlace?] using hplace p
        | inl e' =>
          obtain ⟨rfl, hrest⟩ := List.cons.inj hothers
          have hlater : ∀ p, markPlace? p o = markPlace? p o' := fun p =>
            Option.map_injective (fun _ _ => Nat.succ.inj) (hplace p)
          have hrest' : (marks o').Nodup := hnodup'
          refine congrArg (.inl e :: ·) (ih hnodup hrest' hrest hlater fun hsame => ?_)
          exact hfirst (congrArg (Option.map (· + 1)) hsame)
    | inr p =>
      cases o' with
      | nil => simpa [markPlace?] using (hplace p).symm
      | cons y o' =>
        cases y with
        | inl e' => simpa [markPlace?] using (hplace p).symm
        | inr p' =>
          obtain rfl := front_mark_eq hplace hfirst
          obtain ⟨hfree, hrest⟩ := List.nodup_cons.1 hnodup
          obtain ⟨hfree', hrest'⟩ := List.nodup_cons.1 hnodup'
          have hlater : ∀ q, markPlace? q o = markPlace? q o' := by
            intro q
            by_cases hq : p = q
            · subst hq
              rw [markPlace?_eq_none_iff.2 hfree, markPlace?_eq_none_iff.2 hfree']
            · simpa only [markPlace?, if_neg hq] using hplace q
          refine congrArg (.inr p :: ·) (ih hrest hrest' hothers hlater fun hsame => ?_)
          -- One mark is used up, so the tails have none if the marks share their place there.
          have hsame' : markPlace? .allow o' = markPlace? .deny o' := by
            rw [← hlater, ← hlater, hsame]
          rw [List.eq_nil_iff_forall_not_mem.2 (not_mem_marks_of_shared hfree hsame),
            List.eq_nil_iff_forall_not_mem.2 (not_mem_marks_of_shared hfree' hsame')]

/-- Lists that declare the same have one outline. The three parts of an outline are those in which
they agree: the other elements, the places of the marks, and which comes first of two that share a
place. -/
theorem SameDeclarations.outline_eq {es es' : List Element} (h : SameDeclarations es es') :
    outline [] es = outline [] es' := by
  refine eq_of_marks (nodup_marks [] es).1 (nodup_marks [] es').1 ?_ (fun p => ?_) fun hsame => ?_
  · rw [filterMap_outline, filterMap_outline, h.others]
  · rw [markPlace?_outline List.not_mem_nil, markPlace?_outline List.not_mem_nil, h.place]
  · rw [markPlace?_outline List.not_mem_nil, markPlace?_outline List.not_mem_nil] at hsame
    rw [head?_marks_outline, head?_marks_outline, h.first hsame]

/-- The set of the class names of a polarity. It forgets their order and number, as a rule does. -/
def nameSet (es : List Element) (p : Polarity) : NameSet :=
  .ofList (namesOf p es)

theorem mem_nameSet {es : List Element} {p : Polarity} {name : String} :
    name ∈ nameSet es p ↔ .exact p name ∈ es := by
  rw [nameSet, NameSet.mem_ofList, mem_namesOf]

/-- Sets of class names are equal if the class names are the same, in whatever order and number they
are declared. -/
theorem SameDeclarations.nameSet_eq {es es' : List Element} (h : SameDeclarations es es') :
    nameSet es = nameSet es' := by
  funext p
  ext name
  rw [mem_nameSet, mem_nameSet, h.names]

end Element

namespace Rule

/-- The rule at a place of an outline. A mark is filled with the class names of its polarity, and
another element makes its rule. -/
def fill (names : Polarity → NameSet) : Element ⊕ Polarity → Rule
  | .inl e => .ofElement e
  | .inr p => .exact p (names p)

/-- The rules of elements that are left, if `names` still has exactly their class names for every
polarity that has no rule yet. -/
theorem gather_eq_map_outline_of_names {names : Polarity → NameSet} {seen : List Polarity}
    {es : List Element} (h : ∀ p ∉ seen, ∀ name, name ∈ names p ↔ .exact p name ∈ es) :
    gather seen es = (Element.outline seen es).map (fill names) := by
  induction es generalizing seen with
  | nil => rfl
  | cons e es ih =>
    -- What the first element is not a name of still has all its names among the rest.
    have hrest : ∀ p ∉ seen, (∀ first, e ≠ .exact p first) →
        ∀ name, name ∈ names p ↔ .exact p name ∈ es := by
      intro p hp hother name
      rw [h p hp, List.mem_cons, or_iff_right fun heq => hother name heq.symm]
    cases e with
    | limit metric max =>
      exact congrArg (Rule.limit metric max :: ·) (ih fun p hp => hrest p hp nofun)
    | wildcard q scope text =>
      exact congrArg (Rule.wildcard q scope text :: ·) (ih fun p hp => hrest p hp nofun)
    | exact q first =>
      have hne : ∀ p, p ≠ q → ∀ other, Element.exact q first ≠ .exact p other := by
        rintro p hp other ⟨⟩
        exact hp rfl
      by_cases hq : q ∈ seen
      · rw [gather, Element.outline, if_pos hq, if_pos hq]
        exact ih fun p hp => hrest p hp (hne p fun heq => hp (heq ▸ hq))
      · have hset : NameSet.ofList (first :: Element.namesOf q es) = names q := by
          ext name
          rw [NameSet.mem_ofList, List.mem_cons, Element.mem_namesOf, h q hq, List.mem_cons]
          simp
        have hlater : ∀ p ∉ q :: seen, ∀ name, name ∈ names p ↔ .exact p name ∈ es := by
          intro p hp
          obtain ⟨hpq, hp⟩ := not_or.1 fun hin => hp (List.mem_cons.2 hin)
          exact hrest p hp (hne p hpq)
        rw [gather, Element.outline, if_neg hq, if_neg hq, List.map_cons, hset, ih hlater]
        rfl

/-- The rules are the filled outline. Nothing else of a list of elements enters its rules, so what
has one outline and the same names has the same rules. -/
theorem gather_eq_map_outline (es : List Element) :
    gather [] es = (Element.outline [] es).map (fill (Element.nameSet es)) :=
  gather_eq_map_outline_of_names fun _ _ _ => Element.mem_nameSet

end Rule

namespace Chain

/-- The rules of a compiled chain are those of whatever its specification is read as. Reading has
one result, so the elements may be given beforehand. -/
theorem rules_of_compile {spec : String} {es : List Element} {c : Chain}
    (h : compile spec = .ok c)
    (hread : (Text.Separated.elements spec).map Element.parse = es.map .ok) :
    c.rules = Rule.gather [] es := by
  obtain ⟨es', -, hread', hrules⟩ := compile_eq_ok_iff.1 h
  have heq : es' = es :=
    (List.map_inj_right fun _ _ => Except.ok.inj).1 (hread'.symm.trans hread)
  rw [hrules, heq]

/-- Two specifications that declare the same compile to one chain. Neither their texts nor the order
of their class names is left in it. -/
theorem eq_of_sameDeclarations {spec spec' : String} {es es' : List Element} {c d : Chain}
    (h : compile spec = .ok c) (h' : compile spec' = .ok d)
    (hread : (Text.Separated.elements spec).map Element.parse = es.map .ok)
    (hread' : (Text.Separated.elements spec').map Element.parse = es'.map .ok)
    (hsame : Element.SameDeclarations es es') : c = d := by
  have hc := (rules_of_compile h hread).trans (Rule.gather_eq_map_outline es)
  have hd := (rules_of_compile h' hread').trans (Rule.gather_eq_map_outline es')
  rw [hsame.outline_eq, hsame.nameSet_eq, ← hd] at hc
  cases c
  cases d
  exact congrArg Chain.mk hc

end Chain

end ClassFilter
