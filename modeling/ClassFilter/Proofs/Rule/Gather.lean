import ClassFilter.Rule

/-!
# `ClassFilter.Proofs.Rule.Gather`: the rules that elements make

Class names of one polarity share a rule, at the place of the first of them. `gather`
lists the rules of a list of elements in one pass: the first class name of a polarity
makes the rule, with all names of the polarity that follow, and the later names make
nothing.

* `gather_append`: the elements that come later extend the exact rules there are and make
  the other rules after them.
* `mem_exactPolarities_gather`, `nodup_exactPolarities_gather`: each polarity with a class
  name has one exact rule.
* `mem_iff_of_exact_mem_gather`: that rule holds the class names of its polarity.
* `elements_of_mem_gather`: every rule is made of elements of the list.
* `gather_flatMap_elements`: rules are gathered again from their own elements. `Held` says
  which class names may follow these.
-/

set_option autoImplicit false

namespace ClassFilter

/-- Whether an element is a class name, of either polarity. Class names are the elements that may
share a rule, where a limit or a pattern always makes one of its own. -/
def Element.isName : Element → Bool
  | .exact _ _ => true
  | _ => false

/-- The class names of a polarity among elements, in their order and with repetitions. `gather`
makes the set of an exact rule of them, and `mem_namesOf` reads them as membership in the list. -/
def Element.namesOf (p : Polarity) : List Element → List String
  | [] => []
  | .exact q name :: rest => if q = p then name :: namesOf p rest else namesOf p rest
  | .limit _ _ :: rest => namesOf p rest
  | .wildcard _ _ _ :: rest => namesOf p rest

/-- A rule with the class names of its polarity among elements added. This is what later elements do
to a rule that stands already, so limits and patterns stay as they are. -/
def Rule.extend (es : List Element) : Rule → Rule
  | .exact p names => .exact p (.ofList (names.toList ++ Element.namesOf p es))
  | r => r

/-- The rules that elements make when the polarities in `seen` have their exact rule already. The
first class name of another polarity makes the rule with all that follow, so one pass tells the
whole set, where the program inserts name after name. `Draft.rules_foldl_add` proves the two
equal. -/
def Rule.gather (seen : List Polarity) : List Element → List Rule
  | [] => []
  | .exact p name :: rest =>
    if p ∈ seen then gather seen rest
    else .exact p (.ofList (name :: Element.namesOf p rest)) :: gather (p :: seen) rest
  | .limit metric max :: rest => .limit metric max :: gather seen rest
  | .wildcard p scope text :: rest => .wildcard p scope text :: gather seen rest

/-- The polarities of the class names among elements, in their order and with repetitions. After a
run these are the polarities whose rule has been made, hence the `seen` of what follows. -/
def Element.exactPolarities : List Element → List Polarity
  | [] => []
  | .exact p _ :: rest => p :: exactPolarities rest
  | .limit _ _ :: rest => exactPolarities rest
  | .wildcard _ _ _ :: rest => exactPolarities rest

/-- The polarities of the exact rules among rules, in their order. That the list has no duplicates
says that each polarity has one exact rule at most, the invariant of every compiled chain. -/
def Rule.exactPolarities : List Rule → List Polarity
  | [] => []
  | .exact p _ :: rest => p :: exactPolarities rest
  | .limit _ _ :: rest => exactPolarities rest
  | .wildcard _ _ _ :: rest => exactPolarities rest

namespace Element

theorem mem_namesOf {p : Polarity} {name : String} {es : List Element} :
    name ∈ namesOf p es ↔ .exact p name ∈ es := by
  induction es with
  | nil => simp [namesOf]
  | cons e es ih =>
    cases e with
    | limit metric max => simp [namesOf, ih]
    | exact q other =>
      by_cases hq : q = p
      · subst hq
        simp [namesOf, ih]
      · simp [namesOf, hq, ih, Ne.symm hq]
    | wildcard q scope text => simp [namesOf, ih]

theorem mem_exactPolarities {p : Polarity} {es : List Element} :
    p ∈ exactPolarities es ↔ ∃ name, .exact p name ∈ es := by
  induction es with
  | nil => simp [exactPolarities]
  | cons e es ih =>
    cases e with
    | limit metric max => simp [exactPolarities, ih]
    | exact q other =>
      by_cases hp : p = q
      · simp [exactPolarities, hp]
      · simp [exactPolarities, hp, ih]
    | wildcard q scope text => simp [exactPolarities, ih]

theorem namesOf_append (p : Polarity) (es more : List Element) :
    namesOf p (es ++ more) = namesOf p es ++ namesOf p more := by
  induction es with
  | nil => rfl
  | cons e es ih =>
    cases e with
    | limit metric max => exact ih
    | exact q name =>
      by_cases hq : q = p
      · simp [namesOf, hq, ih]
      · simp [namesOf, hq, ih]
    | wildcard q scope text => exact ih

end Element

namespace Rule

theorem mem_exactPolarities {p : Polarity} {rules : List Rule} :
    p ∈ exactPolarities rules ↔ ∃ names, .exact p names ∈ rules := by
  induction rules with
  | nil => simp [exactPolarities]
  | cons r rules ih =>
    cases r with
    | limit metric max => simp [exactPolarities, ih]
    | exact q other =>
      by_cases hp : p = q
      · simp [exactPolarities, hp]
      · simp [exactPolarities, hp, ih]
    | wildcard q scope text => simp [exactPolarities, ih]

/-- Without elements a rule stays as it is. The names of an exact rule are listed and made into a
set again here, which gives the same set since a set is determined by its members. -/
theorem extend_nil (r : Rule) : r.extend [] = r := by
  cases r with
  | limit metric max => rfl
  | exact p names =>
    have hnames : NameSet.ofList (names.toList ++ []) = names := by
      ext name
      rw [List.append_nil, NameSet.mem_ofList, NameSet.mem_toList]
    rw [extend, Element.namesOf, hnames]
  | wildcard p scope text => rfl

/-- A class name changes only an exact rule of its own polarity. It covers the rules a class name
passes by, limits, patterns and the exact rule of the other polarity. -/
theorem extend_exact_cons {p : Polarity} {r : Rule} (hr : ∀ names, r ≠ .exact p names)
    (name : String) (es : List Element) : r.extend (.exact p name :: es) = r.extend es := by
  cases r with
  | limit metric max => rfl
  | exact q names =>
    have hq : p ≠ q := fun heq => hr names (by rw [heq])
    simp [extend, Element.namesOf, hq]
  | wildcard q scope text => rfl

/-- A class name that is inserted first need not be added with the others. It is the step between
the loop, which inserts a name where it meets it, and `extend`, which adds all at once. -/
theorem extend_insertName (p : Polarity) (names : NameSet) (name : String) (es : List Element) :
    ((Rule.exact p names).insertName name).extend es
      = (Rule.exact p names).extend (.exact p name :: es) := by
  have hset : NameSet.ofList ((names.insert name).toList ++ Element.namesOf p es)
      = NameSet.ofList (names.toList ++ name :: Element.namesOf p es) := by
    ext x
    simp only [NameSet.mem_ofList, List.mem_append, List.mem_cons, NameSet.mem_toList,
      NameSet.mem_insert]
    rw [or_assoc, or_left_comm]
  simp only [insertName, extend, Element.namesOf, if_true, hset]

/-- The rule of a first class name takes up the names that follow and is then the rule `gather`
makes at that place. It covers the branch of the loop that opens an exact rule. -/
theorem extend_singleton (p : Polarity) (name : String) (es : List Element) :
    (Rule.exact p (.singleton name)).extend es
      = .exact p (.ofList (name :: Element.namesOf p es)) := by
  rw [extend, NameSet.toList_singleton, List.singleton_append]

/-- A list of elements makes no rule just if it is empty, when no rule was made before. The compiler
tells by it a specification whose elements are all empty. -/
theorem gather_eq_nil_iff {es : List Element} : gather [] es = [] ↔ es = [] := by
  cases es with
  | nil => simp [gather]
  | cons e es => cases e <;> simp [gather]

/-! ### What comes later -/

/-- `gather` asks only whether a polarity is in `seen`. The order and the repetitions that `seen`
gets from a run of elements therefore do not matter, which `gather_append` needs at a class name. -/
theorem gather_congr {seen seen' : List Polarity} (h : ∀ p, p ∈ seen ↔ p ∈ seen')
    (es : List Element) : gather seen es = gather seen' es := by
  induction es generalizing seen seen' with
  | nil => rfl
  | cons e es ih =>
    cases e with
    | limit metric max => rw [gather, gather, ih h]
    | exact p name =>
      have hcons : ∀ q, q ∈ p :: seen ↔ q ∈ p :: seen' := by
        intro q
        rw [List.mem_cons, List.mem_cons, h q]
      by_cases hp : p ∈ seen
      · rw [gather, gather, if_pos hp, if_pos ((h p).1 hp), ih h]
      · rw [gather, gather, if_neg hp, if_neg (fun hp' => hp ((h p).2 hp')), ih hcons]
    | wildcard p scope text => rw [gather, gather, ih h]

/-- The elements that come later add their class names to the exact rules there are, and make the
rules of the polarities that have none. With it a specification is cut at any element: what a part
makes is known from the rules before it and the polarities they have. -/
theorem gather_append (seen : List Polarity) (es more : List Element) :
    gather seen (es ++ more)
      = (gather seen es).map (extend more)
        ++ gather (Element.exactPolarities es ++ seen) more := by
  induction es generalizing seen with
  | nil => rfl
  | cons e es ih =>
    cases e with
    | limit metric max =>
      rw [List.cons_append, gather, gather, ih]
      rfl
    | exact p name =>
      rw [List.cons_append, Element.exactPolarities]
      by_cases hp : p ∈ seen
      · -- The name is passed over on both sides, and its polarity has been seen twice.
        rw [gather, gather, if_pos hp, if_pos hp, ih]
        congr 1
        refine gather_congr (fun q => ?_) more
        simp only [List.mem_append, List.mem_cons]
        constructor
        · exact fun h => h.elim (fun h => .inl (.inr h)) .inr
        · rintro ((rfl | h) | h)
          · exact .inr hp
          · exact .inl h
          · exact .inr h
      · -- The new rule holds the names that come later, at once or by the extension.
        have hset : NameSet.ofList (name :: Element.namesOf p (es ++ more))
            = NameSet.ofList ((NameSet.ofList (name :: Element.namesOf p es)).toList
              ++ Element.namesOf p more) := by
          ext x
          simp only [NameSet.mem_ofList, List.mem_append, List.mem_cons, NameSet.mem_toList,
            Element.namesOf_append, or_assoc]
        rw [gather, gather, if_neg hp, if_neg hp, ih, hset, List.map_cons, List.cons_append]
        congr 2
        refine gather_congr (fun q => ?_) more
        rw [List.cons_append, List.mem_cons, List.mem_append, List.mem_append, List.mem_cons]
        exact or_left_comm
    | wildcard p scope text =>
      rw [List.cons_append, gather, gather, ih]
      rfl

/-! ### One exact rule for each polarity -/

/-- A polarity gets an exact rule just if it has a class name among the elements and none was made
before. It covers both polarities, whichever comes first. -/
theorem mem_exactPolarities_gather {seen : List Polarity} {es : List Element} {p : Polarity} :
    p ∈ exactPolarities (gather seen es) ↔
      p ∉ seen ∧ p ∈ Element.exactPolarities es := by
  induction es generalizing seen with
  | nil => simp [gather, exactPolarities, Element.exactPolarities]
  | cons e es ih =>
    cases e with
    | limit metric max => exact ih
    | exact q name =>
      by_cases hq : q ∈ seen
      · rw [gather, if_pos hq, ih, Element.exactPolarities, List.mem_cons]
        constructor
        · exact fun ⟨hp, hes⟩ => ⟨hp, .inr hes⟩
        · rintro ⟨hp, rfl | hes⟩
          · exact absurd hq hp
          · exact ⟨hp, hes⟩
      · rw [gather, if_neg hq, exactPolarities, Element.exactPolarities, List.mem_cons, List.mem_cons,
          ih, List.mem_cons]
        by_cases hpq : p = q
        · simp [hpq, hq]
        · simp [hpq]
    | wildcard q scope text => exact ih

/-- No polarity has two exact rules, because the first class name puts its polarity among those
seen. This gives the field `nodup` of `Chain.WellFormed`. -/
theorem nodup_exactPolarities_gather (seen : List Polarity) (es : List Element) :
    (exactPolarities (gather seen es)).Nodup := by
  induction es generalizing seen with
  | nil => exact List.nodup_nil
  | cons e es ih =>
    cases e with
    | limit metric max => exact ih seen
    | exact p name =>
      by_cases hp : p ∈ seen
      · rw [gather, if_pos hp]
        exact ih seen
      · rw [gather, if_neg hp, exactPolarities, List.nodup_cons]
        refine ⟨fun hmem => ?_, ih _⟩
        exact (mem_exactPolarities_gather.1 hmem).1 List.mem_cons_self
    | wildcard p scope text => exact ih seen

/-- An exact rule holds the class names of its polarity, however late they come, and no others. A
name before the rule cannot be of its polarity, as the first one makes it. -/
theorem mem_iff_of_exact_mem_gather {seen : List Polarity} {es : List Element} {p : Polarity}
    {names : NameSet} (h : .exact p names ∈ gather seen es) (name : String) :
    name ∈ names ↔ .exact p name ∈ es := by
  -- The rule is made where its first name stands. A name before it has another polarity.
  induction es generalizing seen with
  | nil => cases h
  | cons e es ih =>
    cases e with
    | limit metric max =>
      rcases List.mem_cons.1 h with h | h
      · cases h
      · rw [ih h]
        simp
    | exact q other =>
      by_cases hq : q ∈ seen
      · rw [gather, if_pos hq] at h
        have hpol := mem_exactPolarities_gather.1 (mem_exactPolarities.2 ⟨_, h⟩)
        have hne : p ≠ q := fun heq => hpol.1 (heq ▸ hq)
        rw [ih h]
        simp [hne]
      · rw [gather, if_neg hq] at h
        rcases List.mem_cons.1 h with h | h
        · cases h
          rw [NameSet.mem_ofList, List.mem_cons, Element.mem_namesOf]
          simp
        · have hpol := mem_exactPolarities_gather.1 (mem_exactPolarities.2 ⟨_, h⟩)
          have hne : p ≠ q := fun heq => hpol.1 (heq ▸ List.mem_cons_self)
          rw [ih h]
          simp [hne]
    | wildcard q scope text =>
      rcases List.mem_cons.1 h with h | h
      · cases h
      · rw [ih h]
        simp

/-! ### Rules and the elements they are made of -/

/-- Every rule is made of elements of the list, and of at least one. What holds of each element,
such as having a spelling, therefore holds of the elements of each rule of a compiled chain. -/
theorem elements_of_mem_gather {seen : List Polarity} {es : List Element} {r : Rule}
    (h : r ∈ gather seen es) : r.elements ≠ [] ∧ ∀ e ∈ r.elements, e ∈ es := by
  induction es generalizing seen with
  | nil => cases h
  | cons e es ih =>
    -- A rule of the rest is made of elements of the rest.
    have hrest : ∀ {seen'}, r ∈ gather seen' es →
        r.elements ≠ [] ∧ ∀ x ∈ r.elements, x ∈ e :: es := by
      intro seen' hr
      obtain ⟨hne, hmem⟩ := ih hr
      exact ⟨hne, fun x hx => List.mem_cons_of_mem _ (hmem x hx)⟩
    cases e with
    | limit metric max =>
      rcases List.mem_cons.1 h with rfl | h
      · exact ⟨by simp [elements], by simp [elements]⟩
      · exact hrest h
    | exact p name =>
      by_cases hp : p ∈ seen
      · rw [gather, if_pos hp] at h
        exact hrest h
      · rw [gather, if_neg hp] at h
        rcases List.mem_cons.1 h with rfl | h
        · -- The set holds the name itself and the names of its polarity that follow.
          have hmem : ∀ x, x ∈ NameSet.ofList (name :: Element.namesOf p es) ↔
              Element.exact p x ∈ Element.exact p name :: es := by
            intro x
            rw [NameSet.mem_ofList, List.mem_cons, Element.mem_namesOf]
            simp
          refine ⟨?_, ?_⟩
          · intro hnil
            have hname := (hmem name).2 (by simp)
            rw [← NameSet.mem_toList, List.map_eq_nil_iff.1 hnil] at hname
            cases hname
          · intro x hx
            obtain ⟨n, hn, rfl⟩ := List.mem_map.1 hx
            exact (hmem n).1 hn
        · exact hrest h
    | wildcard p scope text =>
      rcases List.mem_cons.1 h with rfl | h
      · exact ⟨by simp [elements], by simp [elements]⟩
      · exact hrest h

/-- A limit or pattern at the end of the elements makes the last rule. Class names are left out by
`he`, since a late one may join a rule at an earlier place. -/
theorem getLast?_gather_append_singleton {es : List Element} {e : Element}
    (he : Element.exactPolarities [e] = []) (seen : List Polarity) :
    (gather seen (es ++ [e])).getLast? = some (ofElement e) := by
  rw [gather_append]
  cases e with
  | limit metric max => exact List.getLast?_concat
  | exact p name => cases he
  | wildcard p scope text => exact List.getLast?_concat

/-- Class names of polarities that have their rule make nothing. It passes over the names of an
exact rule after its first, and over the names that follow all rules. -/
theorem gather_append_of_seen {seen : List Polarity} {front : List Element}
    (h : ∀ e ∈ front, ∃ p ∈ seen, ∃ name, e = .exact p name) (back : List Element) :
    gather seen (front ++ back) = gather seen back := by
  induction front with
  | nil => rfl
  | cons e front ih =>
    obtain ⟨p, hp, name, rfl⟩ := h e (by simp)
    rw [List.cons_append, gather, if_pos hp, ih fun e he => h e (List.mem_cons_of_mem _ he)]

/-! ### Gathering the elements of rules -/

/-- Whether an element is a class name that makes no difference behind some rules. Either its
polarity had a rule before these, or one of them holds the name. -/
def Held (seen : List Polarity) (rules : List Rule) (e : Element) : Prop :=
  ∃ p name, e = .exact p name ∧ (p ∈ seen ∨ ∃ names, .exact p names ∈ rules ∧ name ∈ names)

theorem held_nil_iff {seen : List Polarity} {e : Element} :
    Held seen [] e ↔ ∃ p ∈ seen, ∃ name, e = .exact p name := by
  simp [Held, and_comm]

/-- A rule that is not exact holds no class name, so what follows it is held by the others. This is
the step of `gather_flatMap_elements` at a limit or a pattern. -/
theorem Held.tail {seen : List Polarity} {r : Rule} {rules : List Rule} {e : Element}
    (h : Held seen (r :: rules) e) (hr : ∀ p names, r ≠ .exact p names) : Held seen rules e := by
  obtain ⟨p, name, he, hp | ⟨names, hmem, hname⟩⟩ := h
  · exact ⟨p, name, he, .inl hp⟩
  · rcases List.mem_cons.1 hmem with heq | hmem
    · exact absurd heq.symm (hr p names)
    · exact ⟨p, name, he, .inr ⟨names, hmem, hname⟩⟩

/-- An exact rule that comes first has been seen by the others, and with it all names of its
polarity are held. This is the step of `gather_flatMap_elements` at an exact rule. -/
theorem Held.seen {seen : List Polarity} {p : Polarity} {names : NameSet} {rules : List Rule}
    {e : Element} (h : Held seen (.exact p names :: rules) e) : Held (p :: seen) rules e := by
  obtain ⟨q, name, he, hq | ⟨other, hmem, hname⟩⟩ := h
  · exact ⟨q, name, he, .inl (List.mem_cons_of_mem _ hq)⟩
  · rcases List.mem_cons.1 hmem with heq | hmem
    · cases heq
      exact ⟨p, name, he, .inl List.mem_cons_self⟩
    · exact ⟨q, name, he, .inr ⟨other, hmem, hname⟩⟩

/-- The class names among the elements of rules are those that an exact rule of their polarity
holds. The elements of limits and patterns are no class names. -/
theorem exact_mem_flatMap_elements_iff {p : Polarity} {name : String} {rules : List Rule} :
    .exact p name ∈ rules.flatMap elements ↔ ∃ names, .exact p names ∈ rules ∧ name ∈ names := by
  rw [List.mem_flatMap]
  constructor
  · intro ⟨r, hr, hmem⟩
    cases r with
    | limit metric max => cases List.mem_singleton.1 hmem
    | wildcard q scope text => cases List.mem_singleton.1 hmem
    | exact q names =>
      obtain ⟨x, hx, heq⟩ := List.mem_map.1 hmem
      cases heq
      exact ⟨names, hr, hx⟩
  · intro ⟨names, hr, hname⟩
    exact ⟨_, hr, List.mem_map.2 ⟨name, hname, rfl⟩⟩

/-- If no polarity has two exact rules, the class names of a polarity without a rule before are
those of its rule, and held elements add none. So the set that `gather` collects at that rule is the
set the rule has. -/
theorem exact_mem_append_iff {seen : List Polarity} {p : Polarity} {names : NameSet}
    {rules : List Rule} {tail : List Element} (hp : p ∉ exactPolarities rules) (hseen : p ∉ seen)
    (htail : ∀ e ∈ tail, Held seen (.exact p names :: rules) e) (name : String) :
    .exact p name ∈ (Rule.exact p names :: rules).flatMap elements ++ tail ↔ name ∈ names := by
  -- No other rule of the list is of this polarity.
  have honly : ∀ other, .exact p other ∈ Rule.exact p names :: rules → other = names := by
    intro other hother
    rcases List.mem_cons.1 hother with heq | hother
    · exact (Rule.exact.inj heq).2
    · exact absurd (mem_exactPolarities.2 ⟨other, hother⟩) hp
  rw [List.mem_append, exact_mem_flatMap_elements_iff]
  constructor
  · intro h
    rcases h with ⟨other, hother, hname⟩ | hmem
    · rwa [honly other hother] at hname
    · obtain ⟨q, x, heq, hq | ⟨other, hother, hname⟩⟩ := htail _ hmem
      · cases heq
        exact absurd hq hseen
      · cases heq
        rwa [honly other hother] at hname
  · intro hname
    exact .inl ⟨names, List.mem_cons_self, hname⟩

/-- An exact rule is gathered from its own class names, its set then being made of all names of the
polarity. By `hmem` the later ones are among them, and by `hne` there is a first name to make the
rule. -/
theorem gather_elements_append {seen : List Polarity} {p : Polarity} {names : NameSet}
    {rest : List Element} (hne : (Rule.exact p names).elements ≠ []) (hp : p ∉ seen)
    (hmem : ∀ name, .exact p name ∈ (Rule.exact p names).elements ++ rest ↔ name ∈ names) :
    gather seen ((Rule.exact p names).elements ++ rest)
      = .exact p names :: gather (p :: seen) rest := by
  cases hlist : names.toList with
  | nil => exact absurd (by rw [elements, hlist, List.map_nil]) hne
  | cons first others =>
    rw [elements, hlist, List.map_cons, List.cons_append] at hmem ⊢
    -- The first name makes the rule, and the other names make nothing.
    have hset : NameSet.ofList (first :: Element.namesOf p (others.map (Element.exact p) ++ rest))
        = names := by
      ext name
      rw [NameSet.mem_ofList, List.mem_cons, Element.mem_namesOf, ← hmem name, List.mem_cons]
      simp
    have hothers : ∀ e ∈ others.map (Element.exact p), ∃ q ∈ p :: seen, ∃ name, e = .exact q name := by
      intro e he
      obtain ⟨name, -, rfl⟩ := List.mem_map.1 he
      exact ⟨p, List.mem_cons_self, name, rfl⟩
    rw [gather, if_neg hp, hset, gather_append_of_seen hothers]

/-- Rules are gathered again from their own elements, if no polarity has two exact rules and no rule
is without an element. Class names that a rule holds already may follow. This is the half of the
round trip through text that is about the order of rules, the other half being the spelling of each
element. -/
theorem gather_flatMap_elements {seen : List Polarity} {rules : List Rule} {tail : List Element}
    (hne : ∀ r ∈ rules, r.elements ≠ []) (hnodup : (exactPolarities rules).Nodup)
    (hseen : ∀ p ∈ seen, p ∉ exactPolarities rules) (htail : ∀ e ∈ tail, Held seen rules e) :
    gather seen (rules.flatMap elements ++ tail) = rules := by
  -- The induction is on the rules. An exact rule that was gathered joins the ones seen.
  induction rules generalizing seen with
  | nil =>
    have hskip := gather_append_of_seen (fun e he => held_nil_iff.1 (htail e he)) []
    rw [List.append_nil] at hskip
    exact hskip
  | cons r rules ih =>
    have hne' : ∀ x ∈ rules, x.elements ≠ [] := fun x hx => hne x (List.mem_cons_of_mem _ hx)
    cases r with
    | limit metric max =>
      have htail' : ∀ e ∈ tail, Held seen rules e := fun e he => (htail e he).tail (by simp)
      exact congrArg (Rule.limit metric max :: ·) (ih hne' hnodup hseen htail')
    | wildcard p scope text =>
      have htail' : ∀ e ∈ tail, Held seen rules e := fun e he => (htail e he).tail (by simp)
      exact congrArg (Rule.wildcard p scope text :: ·) (ih hne' hnodup hseen htail')
    | exact p names =>
      obtain ⟨hp, hnodup'⟩ := List.nodup_cons.1 hnodup
      have hpseen : p ∉ seen := fun h => hseen p h List.mem_cons_self
      have hseen' : ∀ q ∈ p :: seen, q ∉ exactPolarities rules := by
        intro q hq
        rcases List.mem_cons.1 hq with rfl | hq
        · exact hp
        · exact fun h => hseen q hq (List.mem_cons_of_mem _ h)
      have hmem := exact_mem_append_iff hp hpseen htail
      rw [List.flatMap_cons, List.append_assoc] at hmem ⊢
      rw [gather_elements_append (hne _ List.mem_cons_self) hpseen hmem,
        ih hne' hnodup' hseen' fun e he => (htail e he).seen]

end Rule

end ClassFilter
