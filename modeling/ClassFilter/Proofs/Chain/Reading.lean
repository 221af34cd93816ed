import ClassFilter.Proofs.Chain.Compiled
import ClassFilter.Proofs.Chain.Decision
import ClassFilter.Proofs.Element.Reading
import Mathlib.Data.List.Forall2

/-!
# `ClassFilter.Proofs.Chain.Reading`: what a specification says about a query

A specification can be read off its elements, without a chain. Every element has a slot of
its own, except that all class names of one polarity share the slot of the first of them.
The slots are asked in order, and the first that holds an element which settles the query
gives the answer.

* `Reading.slots`, `Reading.Answers`: this reading.
* `answers_slots_iff`: the slots answer like the gathered rules. The induction is on the
  elements. It runs over the polarities whose slot came before, since `Rule.gather` keeps
  these while `slots` takes their class names out.
* `evaluate_eq_iff_answers`: a compiled chain answers as its specification reads.
-/

set_option autoImplicit false

namespace ClassFilter.Reading

/-! ### The reading of a list of elements -/

/-- The polarity of a text that is a class name, with neither a `=` nor a `*`. It is told by the
text alone, which need not be one that can be read. -/
def namePolarity? (text : String) : Option Polarity :=
  if '=' ∈ text.toList ∨ '*' ∈ text.toList then none
  else if text.toList.head? = some '!' then some .deny
  else some .allow

/-- Whether two elements share a slot: both are class names, of one polarity. Equal texts of other
elements have a slot each. -/
def shareSlot (text other : String) : Bool :=
  (namePolarity? text).isSome && namePolarity? text == namePolarity? other

/-- The slots of elements, in order. A class name takes those of its polarity out of the slots that
follow, so its slot stands where the first of them was written. -/
def slots : List String → List (List String)
  | [] => []
  | text :: rest =>
    (text :: rest.filter (shareSlot text)) ::
      (slots rest).filter fun slot => !slot.any (shareSlot text)

/-- The answer of slots: that of the first with an element that settles the query. If none does, the
query is undecided. It is a relation, so that nothing is said about how slots are searched. -/
def Answers (q : Query) : List (List String) → Status → Prop
  | [], st => st = .undecided
  | slot :: later, st =>
    (∃ text ∈ slot, Settles q text st) ∨
      (∀ text ∈ slot, ∀ other, ¬ Settles q text other) ∧ Answers q later st

/-! ### Elements and their texts -/

/-- The polarity of an element that is a class name, and none for a limit or a pattern. It is
`namePolarity?` on what the text is read as. -/
def exactPolarity? : Element → Option Polarity
  | .exact p _ => some p
  | _ => none

/-- Class names are told from the other elements by their text. A limit has a `=` in it, a pattern
has a star, and no class name that can be read has either. -/
theorem namePolarity?_eq {text : String} {e : Element} (hsep : ';' ∉ text.toList)
    (h : Element.parse text = .ok e) : namePolarity? text = exactPolarity? e := by
  obtain ⟨hwf, hspells⟩ := (Element.parse_eq_ok_iff hsep).1 h
  unfold namePolarity?
  cases e with
  | limit metric max =>
    obtain ⟨value, -, htext⟩ := hspells
    rw [if_pos (.inl (by rw [htext]; simp))]
    rfl
  | wildcard p scope front =>
    have htext : text.toList = p.marker.toList ++ (front.toList ++ scope.stars.toList) := hspells
    have hstar : '*' ∈ text.toList := by
      rw [htext]
      cases scope <;> simp [Scope.stars]
    rw [if_pos (.inr hstar)]
    rfl
  | exact p name =>
    obtain ⟨⟨hname, hmarker⟩, -⟩ := hwf
    have htext : text.toList = p.marker.toList ++ name.toList := hspells
    -- Neither the marker nor a well-formed name holds a `=` or a `*`.
    have hplain : ¬ ('=' ∈ text.toList ∨ '*' ∈ text.toList) := by
      rw [htext, List.mem_append, List.mem_append]
      rintro ((hm | hn) | (hm | hn))
      · cases p <;> simp [Polarity.marker] at hm
      · exact (hname _ hn).2.2.1 rfl
      · cases p <;> simp [Polarity.marker] at hm
      · exact (hname _ hn).2.2.2 rfl
    rw [if_neg hplain, htext]
    cases p with
    | allow => exact if_neg (hmarker rfl)
    | deny => rfl

/-- A class name settles just the query about it, with the answer of its polarity. The empty name is
the class of a query without one. -/
theorem settles_name_iff {q : Query} {st : Status} {text name : String} {p : Polarity}
    (hsep : ';' ∉ text.toList) (h : Element.parse text = .ok (.exact p name)) :
    Settles q text st ↔ q.name = name ∧ p.onMatch = st := by
  rw [settles_iff hsep h]
  show p.answer (decide (q.name ∈ NameSet.singleton name)) = st ∧ _ ↔ _
  rw [answer_eq_iff, decide_eq_true_iff, NameSet.mem_singleton]

/-- Whether a text without a separator is read as an element. The texts and the elements of a
specification are related by it one by one. -/
def ReadAs (text : String) (e : Element) : Prop :=
  ';' ∉ text.toList ∧ Element.parse text = .ok e

/-- Texts that are read as a list of elements are read one by one. The induction over a
specification then has a text and its element at each step. -/
theorem forall₂_readAs {texts : List String} {es : List Element}
    (hsep : ∀ text ∈ texts, ';' ∉ text.toList) (h : texts.map Element.parse = es.map .ok) :
    List.Forall₂ ReadAs texts es := by
  induction texts generalizing es with
  | nil =>
    rw [List.map_eq_nil_iff.1 h.symm]
    exact .nil
  | cons text texts ih =>
    cases es with
    | nil => cases h
    | cons e es =>
      obtain ⟨hhead, htail⟩ := List.cons.inj h
      exact .cons ⟨hsep text (by simp), hhead⟩ (ih (fun t ht => hsep t (by simp [ht])) htail)

/-- Among elements, the class names of one polarity settle a query if its class is one of them. This
is what the slot of a class name answers. -/
theorem exists_settles_iff {q : Query} {st : Status} {p : Polarity} {texts : List String}
    {es : List Element} (h : List.Forall₂ ReadAs texts es) :
    (∃ text ∈ texts, namePolarity? text = some p ∧ Settles q text st) ↔
      .exact p q.name ∈ es ∧ p.onMatch = st := by
  induction h with
  | nil => simp
  | @cons text e texts es hhead _ ih =>
    obtain ⟨hsep, hparse⟩ := hhead
    have hfirst : namePolarity? text = some p ∧ Settles q text st ↔
        .exact p q.name = e ∧ p.onMatch = st := by
      rw [namePolarity?_eq hsep hparse]
      cases e with
      | limit metric max => simp [exactPolarity?]
      | wildcard p' scope front => simp [exactPolarity?]
      | exact p' name =>
        rw [settles_name_iff hsep hparse, exactPolarity?, Option.some.injEq, Element.exact.injEq]
        constructor
        · rintro ⟨rfl, hname, hst⟩
          exact ⟨⟨rfl, hname⟩, hst⟩
        · rintro ⟨⟨rfl, hname⟩, hst⟩
          exact ⟨rfl, hname, hst⟩
    rw [List.exists_mem_cons_iff, hfirst, ih, List.mem_cons, or_and_right]

/-! ### Slots and rules -/

/-- Whether a slot belongs to a polarity that has its slot already. It relates the polarities that
`Rule.gather` carries along to the slots that `slots` takes out. -/
def taken (seen : List Polarity) (slot : List String) : Bool :=
  slot.any fun text => seen.any fun p => namePolarity? text == some p

/-- A slot answers like a rule if it settles the queries on which the rule has an opinion. It is the
step at each element that makes a rule. -/
theorem answers_cons_iff {q : Query} {st : Status} {slot : List String}
    {later : List (List String)} {r : Rule} {rules : List Rule}
    (hslot : ∀ other, (∃ text ∈ slot, Settles q text other) ↔
      r.check q = other ∧ other ≠ .undecided)
    (hlater : Answers q later st ↔ (Chain.mk rules).evaluate q = st) :
    Answers q (slot :: later) st ↔ (Chain.mk (r :: rules)).evaluate q = st := by
  rw [Answers, hlater, hslot, Chain.evaluate_cons]
  by_cases hcheck : r.check q = .undecided
  · -- A rule without an opinion has a slot in which nothing settles the query.
    have hnone : ∀ text ∈ slot, ∀ other, ¬ Settles q text other := by
      intro text htext other hsettles
      obtain ⟨heq, hne⟩ := (hslot other).1 ⟨text, htext, hsettles⟩
      exact hne (heq.symm.trans hcheck)
    rw [if_pos hcheck]
    constructor
    · rintro (⟨heq, hne⟩ | ⟨-, h⟩)
      · exact absurd (heq.symm.trans hcheck) hne
      · exact h
    · exact fun h => .inr ⟨hnone, h⟩
  · rw [if_neg hcheck]
    constructor
    · rintro (⟨heq, -⟩ | ⟨hnone, -⟩)
      · exact heq
      · obtain ⟨text, htext, hsettles⟩ := (hslot _).2 ⟨rfl, hcheck⟩
        exact absurd hsettles (hnone text htext _)
    · rintro rfl
      exact .inl ⟨rfl, hcheck⟩

/-- An element that is no class name has a slot of its own and takes nothing out of those that
follow. -/
theorem slots_cons_of_none {text : String} (h : namePolarity? text = none) (rest : List String) :
    slots (text :: rest) = [text] :: slots rest := by
  have hshare : shareSlot text = fun _ => false := by
    funext other
    rw [shareSlot, h]
    rfl
  simp [slots, hshare]

/-- A class name shares its slot with those of its polarity, and with nothing else. The test on its
text becomes one on the polarity. -/
theorem shareSlot_eq {text : String} {p : Polarity} (h : namePolarity? text = some p) :
    shareSlot text = fun other => namePolarity? other == some p := by
  funext other
  rw [shareSlot, h]
  exact BEq.comm

/-- The slot of a class name is taken if its polarity is. All elements of the slot are of that
polarity, and there is at least one. -/
theorem taken_name_eq {text : String} {p : Polarity} (h : namePolarity? text = some p)
    (seen : List Polarity) (rest : List String) :
    taken seen (text :: rest.filter (shareSlot text)) = decide (p ∈ seen) := by
  -- Every element of the slot gives the same answer, so one of them decides for the slot.
  have hpolarity : ∀ other ∈ text :: rest.filter (shareSlot text),
      (seen.any fun p' => namePolarity? other == some p') = decide (p ∈ seen) := by
    intro other hother
    have hother' : namePolarity? other = some p := by
      rcases List.mem_cons.1 hother with rfl | hother
      · exact h
      · have hshare := (List.mem_filter.1 hother).2
        rw [shareSlot_eq h] at hshare
        exact beq_iff_eq.1 hshare
    rw [hother', Bool.eq_iff_iff]
    simp
  rw [taken, Bool.eq_iff_iff, List.any_eq_true]
  constructor
  · intro ⟨other, hother, hin⟩
    rwa [hpolarity other hother] at hin
  · intro hin
    exact ⟨text, by simp, by rwa [hpolarity text (by simp)]⟩

/-- After a class name, the slots of its polarity are taken too. It is how the polarities seen grow
by one, on the side of the slots. -/
theorem taken_cons_eq {text : String} {p : Polarity} (h : namePolarity? text = some p)
    (seen : List Polarity) (slot : List String) :
    taken (p :: seen) slot = (slot.any (shareSlot text) || taken seen slot) := by
  rw [shareSlot_eq h, Bool.eq_iff_iff]
  simp only [taken, List.any_cons, List.any_eq_true, Bool.or_eq_true, and_or_left, exists_or]

/-- A polarity counts once. Seeing one again takes no more slots, as happens at a class name that
joins an earlier rule. -/
theorem taken_cons_of_mem {p : Polarity} {seen : List Polarity} (hp : p ∈ seen) :
    taken (p :: seen) = taken seen := by
  funext slot
  unfold taken
  congr 1
  funext text
  rw [List.any_cons, Bool.eq_iff_iff, Bool.or_eq_true]
  constructor
  · rintro (hfirst | hrest)
    · exact List.any_eq_true.2 ⟨p, hp, hfirst⟩
    · exact hrest
  · exact .inr

/-- Slots answer like rules. The slots that are left when those of the polarities in `seen` are
taken out answer like the rules that are gathered after these. The induction is on the elements and
their texts together. -/
theorem answers_slots_iff {q : Query} {st : Status} {texts : List String} {es : List Element}
    (h : List.Forall₂ ReadAs texts es) (seen : List Polarity) :
    Answers q ((slots texts).filter fun slot => !taken seen slot) st ↔
      (Chain.mk (Rule.gather seen es)).evaluate q = st := by
  induction h generalizing seen with
  | nil =>
    show st = .undecided ↔ Status.undecided = st
    exact eq_comm
  | @cons text e texts es hhead htail ih =>
    obtain ⟨hsep, hparse⟩ := hhead
    have hpolarity := namePolarity?_eq hsep hparse
    -- An element that is no class name makes a rule of its own.
    have halone : exactPolarity? e = none →
        (Answers q ((slots (text :: texts)).filter fun slot => !taken seen slot) st ↔
          (Chain.mk (Rule.ofElement e :: Rule.gather seen es)).evaluate q = st) := by
      intro hnone
      rw [hnone] at hpolarity
      have hfree : taken seen [text] = false := by
        simp [taken, hpolarity]
      rw [slots_cons_of_none hpolarity, List.filter_cons, hfree]
      refine answers_cons_iff (fun other => ?_) (ih seen)
      rw [← settles_iff hsep hparse]
      simp
    cases e with
    | limit metric max => exact halone rfl
    | wildcard p scope front => exact halone rfl
    | exact p name =>
      have hrest : ((slots texts).filter fun slot =>
            !taken seen slot && !slot.any (shareSlot text))
          = (slots texts).filter fun slot => !taken (p :: seen) slot := by
        refine List.filter_congr fun slot _ => ?_
        rw [taken_cons_eq hpolarity, Bool.not_or, Bool.and_comm]
      rw [slots, List.filter_cons, taken_name_eq hpolarity, List.filter_filter, hrest, Rule.gather]
      by_cases hp : p ∈ seen
      · -- The polarity has its slot and its rule already.
        rw [if_pos hp, decide_eq_true hp, taken_cons_of_mem hp]
        exact ih seen
      · -- The slot and the rule hold this name and those of its polarity that follow.
        rw [if_neg hp, decide_eq_false hp]
        refine answers_cons_iff (fun other => ?_) (ih (p :: seen))
        show _ ↔ p.answer (decide (q.name ∈ NameSet.ofList _)) = other ∧ _
        rw [answer_eq_iff, decide_eq_true_iff, NameSet.mem_ofList, List.mem_cons,
          Element.mem_namesOf, List.exists_mem_cons_iff, settles_name_iff hsep hparse, or_and_right,
          ← exists_settles_iff htail]
        simp only [List.mem_filter, shareSlot_eq hpolarity, beq_iff_eq, and_assoc]

end ClassFilter.Reading
