import ClassFilter.Proofs.Chain.Concat
import Mathlib.Data.Finset.Card

/-!
# `ClassFilter.Proofs.Chain.Loop`: the loop that compiles, and the counts it logs

Compiling reads the element texts of a specification one after another, and each element joins the
draft before the next text is read (`Draft.readAll`). The slots of the draft hold indices into an
array that keeps growing, and a class name that found a wrong rule there would be lost without an
error. The theorems show that this cannot happen, at any point of the loop:

* `Draft.Records`: what holds of a draft after elements joined it. A slot holds the index of the
  only exact rule of its polarity, the next class name goes into that rule, and the exact rules hold
  the class names that were read.
* `Draft.records_ofElements`: this holds after every list of elements, hence after each iteration.
  It comes from the invariant of `ClassFilter.Proofs.Draft.Slots`, which carries it through a step.
* `Rule.length_gather`, `Draft.exactSize_ofElements`: the numbers of rules and of distinct class
  names, counted on the elements.
* `Chain.compileTexts_records`: the draft is right after each iteration, and so are the counts.
-/

set_option autoImplicit false

namespace ClassFilter

namespace Draft

/-! ### The invariant -/

/-- What a draft records of the elements that joined it:
- `slot`: a slot holds the index of the only exact rule of its polarity;
- `slotted`: an exact rule has a slot;
- `next`: the next class name of a polarity that has a slot is put into the exact rule there, and
  nothing else changes;
- `names`: the exact rules of a polarity hold its class names and no others. -/
structure Records (d : Draft) (es : List Element) : Prop where
  slot : ∀ p i, d.slot p = some i ↔
    (∃ names, d.rules[i]? = some (.exact p names)) ∧
      ∀ j names, d.rules[j]? = some (.exact p names) → j = i
  slotted : ∀ p names, .exact p names ∈ d.rules → ∃ i, d.slot p = some i
  next : ∀ p i, d.slot p = some i → ∃ names, d.rules[i]? = some (.exact p names) ∧
    ∀ name, d.add (.exact p name)
      = { d with rules := d.rules.setIfInBounds i (.exact p (names.insert name)) }
  names : ∀ p name, (∃ names, .exact p names ∈ d.rules ∧ name ∈ names) ↔ .exact p name ∈ es

/-- Valid slots hold the index of the only exact rule of their polarity. That it is the only one is
a consequence, since every such rule has its index in the slot. -/
theorem SlotsValid.slot_eq_some_iff {d : Draft} (h : d.SlotsValid) {p : Polarity} {i : Nat} :
    d.slot p = some i ↔ (∃ names, d.rules[i]? = some (.exact p names)) ∧
      ∀ j names, d.rules[j]? = some (.exact p names) → j = i := by
  constructor
  · exact fun hp => ⟨(h p i).1 hp, fun _ _ hj => h.eq_of_getElem? hp hj⟩
  · exact fun hi => (h p i).2 hi.1

/-- A class name that finds a valid slot is put into the exact rule there, so the index is within
bounds and the rule of the name's polarity. The program tests neither. -/
theorem SlotsValid.add_exact {d : Draft} (h : d.SlotsValid) {p : Polarity} {i : Nat}
    (hp : d.slot p = some i) : ∃ names, d.rules[i]? = some (.exact p names) ∧
      ∀ name, d.add (.exact p name)
        = { d with rules := d.rules.setIfInBounds i (.exact p (names.insert name)) } := by
  obtain ⟨names, hnames⟩ := (h p i).1 hp
  refine ⟨names, hnames, fun name => ?_⟩
  have hrules : d.rules.modify i (·.insertName name)
      = d.rules.setIfInBounds i (.exact p (names.insert name)) := by
    refine Array.ext_getElem? fun j => ?_
    rw [Array.getElem?_modify, Array.getElem?_setIfInBounds]
    by_cases hij : i = j
    · -- The index is in range, and the rule there takes up the name.
      subst hij
      have hlt : i < d.rules.size := (Array.getElem?_eq_some_iff.1 hnames).1
      rw [if_pos rfl, if_pos rfl, if_pos hlt, hnames]
      rfl
    · rw [if_neg hij, if_neg hij]
  rw [add_exact_of_slot_eq_some hp, hrules]

/-- A draft records its elements, after each of them. The slots come from the invariant of the loop,
and the names from how the rules are gathered. -/
theorem records_ofElements (es : List Element) : (ofElements es).Records es := by
  have hvalid : (ofElements es).SlotsValid := slotsValid_foldl_add slotsValid_empty es
  refine ⟨fun _ _ => hvalid.slot_eq_some_iff, fun p names hmem => ?_,
    fun _ _ hp => hvalid.add_exact hp, fun p name => ?_⟩
  · obtain ⟨i, hi⟩ := Array.mem_iff_getElem?.1 hmem
    exact ⟨i, (hvalid p i).2 ⟨names, hi⟩⟩
  · -- The rules of the draft are the gathered ones, which hold the names that were declared.
    simp only [← Array.mem_toList_iff, rules_ofElements]
    rw [← Rule.exact_mem_flatMap_elements_iff, Rule.exact_mem_flatMap_elements_gather]

end Draft

/-! ### Counting -/

theorem NameSet.size_eq_card (s : NameSet) : s.size = s.toList.toFinset.card := by
  have hnodup : s.toList.Nodup := s.sorted.imp String.ne_of_lt
  rw [List.toFinset_card_of_nodup hnodup]
  rfl

/-- An element that is no class name makes a rule, and so does each polarity of class names. The
number of rules is thus told without the sets they hold. -/
theorem Rule.length_gather (seen : List Polarity) (es : List Element) :
    (gather seen es).length = es.countP (!·.isName) + (exactPolarities (gather seen es)).length := by
  induction es generalizing seen with
  | nil => rfl
  | cons e es ih =>
    cases e with
    | limit metric max =>
      rw [gather, exactPolarities, List.length_cons, ih, List.countP_cons_of_pos rfl]
      omega
    | exact p name =>
      -- A class name makes a rule only where its polarity comes first.
      rw [gather, List.countP_cons_of_neg (by simp [Element.isName])]
      split
      · exact ih seen
      · rw [exactPolarities, List.length_cons, List.length_cons, ih]
        omega
    | wildcard p scope text =>
      rw [gather, exactPolarities, List.length_cons, ih, List.countP_cons_of_pos rfl]
      omega

/-- As many polarities have an exact rule as have class names among the elements, when none had a
rule before. Both are counted without repetition. -/
theorem Rule.length_exactPolarities_gather (es : List Element) :
    (exactPolarities (gather [] es)).length = (Element.exactPolarities es).toFinset.card := by
  rw [← List.toFinset_card_of_nodup (nodup_exactPolarities_gather [] es)]
  congr 1
  ext p
  simp [mem_exactPolarities_gather]

namespace Draft

/-- The rules of a draft are counted without making them: the elements that are no class names, and
the polarities of those that are. -/
theorem size_rules_ofElements (es : List Element) :
    (ofElements es).rules.size
      = es.countP (!·.isName) + (Element.exactPolarities es).toFinset.card := by
  rw [← Array.length_toList, rules_ofElements, Rule.length_gather,
    Rule.length_exactPolarities_gather]

/-- The number of class names of a polarity is that of the distinct ones. A name that is repeated is
in the set once, and no other rule holds names of the polarity. -/
theorem exactSize_ofElements (es : List Element) (p : Polarity) :
    (ofElements es).exactSize p = (Element.namesOf p es).toFinset.card := by
  have hrecords := records_ofElements es
  unfold exactSize
  cases hp : (ofElements es).slot p with
  | none =>
    -- Without a slot there is no exact rule, and so no class name.
    have hnil : Element.namesOf p es = [] := by
      refine List.eq_nil_iff_forall_not_mem.2 fun name hname => ?_
      obtain ⟨names, hmem, -⟩ := (hrecords.names p name).2 (Element.mem_namesOf.1 hname)
      obtain ⟨i, hi⟩ := hrecords.slotted p names hmem
      cases hp.symm.trans hi
    rw [hnil]
    rfl
  | some i =>
    -- The rule of the slot is the only one, so it holds all names of the polarity.
    obtain ⟨⟨names, hnames⟩, honly⟩ := (hrecords.slot p i).1 hp
    have hset : names.toList.toFinset = (Element.namesOf p es).toFinset := by
      ext name
      rw [List.mem_toFinset, List.mem_toFinset, NameSet.mem_toList, Element.mem_namesOf,
        ← hrecords.names p name]
      constructor
      · exact fun hname => ⟨names, Array.mem_of_getElem? hnames, hname⟩
      · intro ⟨other, hother, hname⟩
        obtain ⟨j, hj⟩ := Array.mem_iff_getElem?.1 hother
        obtain rfl := honly j other hj
        cases hnames.symm.trans hj
        exact hname
    rw [Option.bind_some, hnames]
    show names.size = _
    rw [NameSet.size_eq_card, hset]

/-- The event of a draft counts its elements: rules, allowed names and denied names, the names
without their repetitions. -/
theorem compiledEvent_ofElements (es : List Element) :
    (ofElements es).compiledEvent
      = .compiled (es.countP (!·.isName) + (Element.exactPolarities es).toFinset.card)
          (Element.namesOf .allow es).toFinset.card (Element.namesOf .deny es).toFinset.card := by
  rw [compiledEvent, size_rules_ofElements, exactSize_ofElements, exactSize_ofElements]

end Draft

namespace Chain

/-- The loop fails and logs nothing, or it makes the draft of all elements and logs its event. There
is no third way, as nothing can fail once the event is logged. -/
theorem compileTexts_cases (texts : List String) (source : String) :
    (∃ err, compileTexts texts source = (.error err, [])) ∨
      ∃ es, texts.map Element.parse = es.map .ok ∧ compileTexts texts source
        = (.ok (Draft.ofElements es).chain, [(Draft.ofElements es).compiledEvent]) := by
  unfold compileTexts
  split
  · rename_i d hd
    rw [Draft.ofTexts_eq_bind] at hd
    obtain ⟨es, hread, hes⟩ := Result.bind_eq_ok_iff.1 hd
    obtain ⟨-, hmade⟩ := Result.ite_error_eq_ok_iff.1 hes
    cases hmade
    exact .inr ⟨es, Result.mapM_eq_ok_iff.1 hread, rfl⟩
  · exact .inl ⟨_, rfl⟩

/-- The loop records every element in its place, and logs what it recorded. After each iteration the
slots hold the indices of the exact rules, and no class name is lost or in the set of the other
polarity. A success logs one event, with the number of rules and of distinct class names. A failure
logs nothing. Compiling a specification is this loop over its elements. -/
theorem compileTexts_records (texts : List String) (source : String) :
    (∀ n d, Draft.readAll (texts.take n) = .ok d →
      ∃ es, (texts.take n).map Element.parse = es.map .ok ∧ d.Records es) ∧
    (∀ c log, compileTexts texts source = (.ok c, log) →
      ∃ es, texts.map Element.parse = es.map .ok ∧
        log = [.compiled c.rules.length (Element.namesOf .allow es).toFinset.card
          (Element.namesOf .deny es).toFinset.card] ∧
        c.rules.length = es.countP (!·.isName) + (Element.exactPolarities es).toFinset.card) ∧
    (∀ err log, compileTexts texts source = (.error err, log) → log = []) ∧
    (∀ spec, compileLogged spec = compileTexts (Text.Separated.elements spec) spec) := by
  refine ⟨fun n d hd => ?_, fun c log h => ?_, fun err log h => ?_, fun spec => rfl⟩
  · obtain ⟨es, hread, rfl⟩ := Draft.readAll_eq_ok_iff.1 hd
    exact ⟨es, hread, Draft.records_ofElements es⟩
  · rcases compileTexts_cases texts source with ⟨err, hfailed⟩ | ⟨es, hread, hmade⟩
    · cases hfailed.symm.trans h
    · cases hmade.symm.trans h
      have hlength : (Draft.ofElements es).chain.rules.length = (Draft.ofElements es).rules.size :=
        Array.length_toList
      rw [hlength, Draft.compiledEvent_ofElements, Draft.size_rules_ofElements]
      exact ⟨es, hread, rfl, rfl⟩
  · rcases compileTexts_cases texts source with ⟨err', hfailed⟩ | ⟨es, -, hmade⟩
    · cases hfailed.symm.trans h
      rfl
    · cases hmade.symm.trans h

/-- The theorem where names join. The third class name goes into the first rule, and the first name
again adds nothing. -/
theorem compileTexts_records_joined :
    (∃ d, Draft.readAll (["a.B", "!c.D", "", "a.B", "maxdepth=3"].take 3) = .ok d ∧
      d.Records [.exact .allow "a.B", .exact .deny "c.D", .exact .allow ""]) ∧
    (compileTexts ["a.B", "!c.D", "", "a.B", "maxdepth=3"] "").2 = [.compiled 3 2 1] ∧
    (compileTexts ["a.B", "a/b"] "").2 = [] := by
  obtain ⟨hloop, hok, -⟩ := compileTexts_records ["a.B", "!c.D", "", "a.B", "maxdepth=3"] ""
  obtain ⟨-, -, herror, -⟩ := compileTexts_records ["a.B", "a/b"] ""
  refine ⟨⟨_, rfl, ?_⟩, ?_, herror ⟨"a/b", .modulePattern⟩ _ rfl⟩
  · obtain ⟨es, hread, hrecords⟩ := hloop 3 _ rfl
    have hes : es = [.exact .allow "a.B", .exact .deny "c.D", .exact .allow ""] :=
      (List.map_inj_right fun _ _ => Except.ok.inj).1 (hread.symm.trans rfl)
    rwa [hes] at hrecords
  · obtain ⟨es, hread, hlog, -⟩ := hok _ _ rfl
    have hes : es = [.exact .allow "a.B", .exact .deny "c.D", .exact .allow "", .exact .allow "a.B",
        .limit .depth 3] :=
      (List.map_inj_right fun _ _ => Except.ok.inj).1 (hread.symm.trans rfl)
    rw [hes] at hlog
    exact hlog

end Chain

end ClassFilter
