import ClassFilter.Proofs.Element.Grammar
import ClassFilter.Proofs.Payload.Sound
import Mathlib.Data.List.Induction

/-!
# `ClassFilter.Proofs.Payload.Blame`: which fault a payload is refused for

Several things can be wrong with one payload, and the judgement names one of them. This file says
what each fault is about without the judgement, ranks the faults, and proves that the first one is
named:

* `Entry.Spoiled`, `Entry.FaultAt`: what is wrong with an entry on its own, and with the entry at
  an index of a list. `Fault.Applies` adds the faults of the payload as a whole. Nothing is assumed
  about the faults that come before, so that several may apply.
* `Fault.rank`: which of them counts. The faults of entries are ranked by index first.
* `Entry.check_eq_error_iff`, `Entry.checkEntry_eq_error_iff`: an entry on its own, and after the
  entries before it.
* `Entry.checkAll_of_take`: the judgement of a list at an index, where those before it pass.
* `Fault.applies_of_validate`, `Fault.validate_of_first`: the fault that is named applies, and one
  that applies is named if none before it does.
* `Payload.validate_eq_error_iff`: so a payload is refused for its first fault.
* `Payload.Admissible`, `Payload.admissible_iff`: the conditions that no fault applies, without an
  order and without a flag.
-/

set_option autoImplicit false

namespace ClassFilter

/-! ### The faults -/

namespace Entry

/-- The texts of an entry: its class names, or what stands before its stars. They are all that the
search for reserved characters looks at. -/
def texts : Entry → List String
  | .limit _ _ => []
  | .exact _ names => names
  | .wildcard _ _ text => [text]

/-- Whether a text is free of the three characters that a payload is searched for. A `=` is not
among them, though the language reserves it too. -/
def Plain (text : String) : Prop :=
  '*' ∉ text.toList ∧ ';' ∉ text.toList ∧ '/' ∉ text.toList

/-- Whether a text has two bytes and a dot at its end. The dot alone has one byte, so it names no
package. -/
def NamesPackage (text : String) : Prop :=
  2 ≤ text.utf8ByteSize ∧ ∃ front, text = front ++ "."

/-- What is wrong with an entry on its own. The index is for the fault to name. Of several texts
that are not plain the first is named, and only a plain text is asked for a package. -/
inductive Spoiled (index : Nat) : Entry → Fault → Prop
  | noNames {p : Polarity} : Spoiled index (.exact p []) (.emptyExactSet index)
  | reserved {e : Entry} {text : String} {before after : List String}
    (h : e.texts = before ++ text :: after) (hbefore : ∀ x ∈ before, Plain x)
    (htext : ¬ Plain text) : Spoiled index e (.reservedCharacter index text)
  | unnamed {p : Polarity} {scope : Scope} {text : String} (hscope : scope ≠ .stem)
    (htext : Plain text) (h : ¬ NamesPackage text) :
    Spoiled index (.wildcard p scope text) (.unnamedPackage index text)

/-- What is wrong with the entry at an index. It is what is wrong with it on its own, or an exact
entry of the same polarity comes before it (`second`). -/
inductive FaultAt (es : List Entry) (index : Nat) : Fault → Prop
  | second {p : Polarity} {names names' : List String} {j : Nat}
    (h : es[index]? = some (.exact p names)) (hlt : j < index)
    (hbefore : es[j]? = some (.exact p names')) : FaultAt es index (.secondExactSet index)
  | content {e : Entry} {f : Fault} (h : es[index]? = some e) (hbad : e.Spoiled index f) :
    FaultAt es index f

end Entry

/-- Whether the last entry allows the empty name alone while no exact entry denies. The text of its
chain would end in the empty element and be compiled without it. -/
def Payload.Unanchored (p : Payload) : Prop :=
  p.entries.getLast? = some (.exact .allow [""]) ∧ ∀ names, .exact .deny names ∉ p.entries

namespace Fault

/-- What a fault says about a payload, without the judgement. The faults of entries carry an index,
and the others are about the payload as a whole. -/
inductive Applies (p : Payload) : Fault → Prop
  | count (h : p.ruleCount.toNat ≠ p.entries.length) :
    Applies p (.countMismatch p.ruleCount p.entries.length)
  | noRules (h : p.entries = []) : Applies p .noRules
  | entry {index : Nat} {f : Fault} (h : Entry.FaultAt p.entries index f) : Applies p f
  | last (h : p.Unanchored) : Applies p (.finalEmptyName (p.entries.length - 1))

/-- The place of a fault in the order in which they count: the count, the presence of an entry, the
entries by index, and the last entry. A second exact entry counts before what it holds. -/
@[simp]
def rank : Fault → Nat
  | countMismatch _ _ => 0
  | noRules => 1
  | secondExactSet index => 3 * index + 2
  | emptyExactSet index | reservedCharacter index _ | unnamedPackage index _ => 3 * index + 3
  | finalEmptyName index => 3 * index + 4

/-- Whether a fault applies to a payload, and none that comes before it does. It is said by the
ranks, over all faults at once. -/
def IsFirst (p : Payload) (f : Fault) : Prop :=
  f.Applies p ∧ ∀ other : Fault, other.Applies p → f.rank ≤ other.rank

theorem IsFirst.not_applies {p : Payload} {f other : Fault} (h : f.IsFirst p)
    (hlt : other.rank < f.rank) : ¬ other.Applies p := by
  intro hother
  have hle := h.2 other hother
  omega

/-- If a fault applies, there is a first, because ranks are natural numbers. It may be another than
the given one. -/
theorem exists_isFirst {p : Payload} {f : Fault} (h : f.Applies p) :
    ∃ first : Fault, first.IsFirst p :=
  Result.exists_least rank h

end Fault

/-! ### An entry on its own -/

namespace Entry

theorem checkText_eq_error_iff {index : Nat} {text : String} {f : Fault} :
    checkText index text = .error f ↔ ¬ Plain text ∧ f = .reservedCharacter index text := by
  rw [checkText, Plain, ← hasReserved_eq_false_iff]
  cases hasReserved text <;> simp [eq_comm]

/-- A text passes the search just if it is plain. The index is only for the fault to name and does
not matter here. -/
theorem exists_checkText_eq_ok_iff (index : Nat) {text : String} :
    (∃ u, checkText index text = .ok u) ↔ Plain text := by
  rw [Plain, ← hasReserved_eq_false_iff, ← checkText_eq_ok_iff]
  exact ⟨fun ⟨_, h⟩ => h, fun h => ⟨_, h⟩⟩

theorem namesPackage_eq_true_iff {text : String} :
    namesPackage text = true ↔ NamesPackage text := by
  rw [namesPackage, Bool.and_eq_true, decide_eq_true_iff, ClassName.endsWithDot_iff]
  rfl

/-- An exact entry has no names, or a first one that is not plain. These are the two things its
judgement tests, in this order. -/
theorem spoiled_exact_iff {index : Nat} {p : Polarity} {names : List String} {f : Fault} :
    Spoiled index (.exact p names) f ↔
      (names = [] ∧ f = .emptyExactSet index) ∨
      ∃ before text after, names = before ++ text :: after ∧ (∀ x ∈ before, Plain x) ∧
        ¬ Plain text ∧ f = .reservedCharacter index text := by
  constructor
  · intro h
    cases h with
    | noNames => exact .inl ⟨rfl, rfl⟩
    | reserved h hbefore htext => exact .inr ⟨_, _, _, h, hbefore, htext, rfl⟩
  · rintro (⟨rfl, rfl⟩ | ⟨before, text, after, h, hbefore, htext, rfl⟩)
    · exact .noNames
    · exact .reserved h hbefore htext

/-- The text of a pattern is not plain, or it names no package where it should. A stem is excluded
from the second test. -/
theorem spoiled_wildcard_iff {index : Nat} {p : Polarity} {scope : Scope} {text : String}
    {f : Fault} :
    Spoiled index (.wildcard p scope text) f ↔
      (¬ Plain text ∧ f = .reservedCharacter index text) ∨
      (Plain text ∧ scope ≠ .stem ∧ ¬ NamesPackage text ∧ f = .unnamedPackage index text) := by
  constructor
  · intro h
    cases h with
    | @reserved _ bad before after h hbefore htext =>
      -- There is one text, so it is the one that is not plain.
      obtain ⟨-, heq⟩ | ⟨-, heq⟩ := List.append_eq_singleton_iff.1 h.symm
      · obtain rfl : bad = text := List.head_eq_of_cons_eq heq
        exact .inl ⟨htext, rfl⟩
      · cases heq
    | unnamed hscope htext h => exact .inr ⟨htext, hscope, h, rfl⟩
  · rintro (⟨htext, rfl⟩ | ⟨htext, hscope, h, rfl⟩)
    · exact @Spoiled.reserved index _ text [] [] rfl (List.forall_mem_nil _) htext
    · exact .unnamed hscope htext h

/-- An entry fails on its own for what is wrong with it. At most one fault is wrong with an entry in
this sense, as the cases of `Spoiled` exclude each other. -/
theorem check_eq_error_iff {index : Nat} {e : Entry} {f : Fault} :
    e.check index = .error f ↔ e.Spoiled index f := by
  cases e with
  | limit metric max =>
    refine iff_of_false (fun h => nomatch h) fun h => ?_
    cases h with
    | reserved h => exact absurd h (by simp [texts])
  | exact p names =>
    rw [spoiled_exact_iff]
    cases names with
    | nil =>
      show Except.error (Fault.emptyExactSet index) = .error f ↔ _
      simp [eq_comm]
    | cons name names =>
      show (name :: names).forM (checkText index) = .error f ↔ _
      rw [Result.forM_eq_error_iff, or_iff_right (by simp)]
      simp only [checkText_eq_error_iff, exists_checkText_eq_ok_iff]
  | wildcard p scope text =>
    rw [spoiled_wildcard_iff]
    by_cases hscope : scope = .stem
    · rw [hscope]
      show checkText index text = .error f ↔ _
      rw [checkText_eq_error_iff]
      simp
    · rw [check_wildcard hscope, Result.bind_eq_error_iff, checkText_eq_error_iff,
        ← namesPackage_eq_true_iff, ← exists_checkText_eq_ok_iff index]
      refine or_congr_right ?_
      cases namesPackage text <;> simp [hscope, eq_comm]

/-- An entry that nothing is wrong with is sound. It links the faults to the conditions under which
an entry passes. -/
theorem forall_not_spoiled_iff {index : Nat} {e : Entry} :
    (∀ f, ¬ e.Spoiled index f) ↔ e.Sound := by
  have hok : e.check index = .ok () ↔ e.Sound := check_eq_ok_iff
  rw [← hok]
  simp only [← check_eq_error_iff]
  cases e.check index <;> simp

/-- What a sound entry is, whatever its kind: no set without names, no text that is not plain, and
no package that is not named. -/
theorem sound_iff {e : Entry} :
    e.Sound ↔ (∀ p, e ≠ .exact p []) ∧ (∀ text ∈ e.texts, Plain text) ∧
      ∀ p scope text, e = .wildcard p scope text → scope ≠ .stem → NamesPackage text := by
  have hplain : ∀ text, hasReserved text = false ↔ Plain text := fun _ => hasReserved_eq_false_iff
  cases e with
  | limit metric max => simp [Sound, texts]
  | exact p names => simp [Sound, texts, hplain]
  | wildcard p scope text =>
    cases scope <;> simp [Sound, texts, hplain, namesPackage_eq_true_iff]

/-! ### A list of entries -/

theorem exactPolarity?_eq_some_iff {p : Polarity} {e : Entry} :
    e.exactPolarity? = some p ↔ ∃ names, e = .exact p names := by
  cases e <;> simp [exactPolarity?, eq_comm]

theorem mem_exactPolarities {p : Polarity} {es : List Entry} :
    p ∈ exactPolarities es ↔ ∃ names, .exact p names ∈ es := by
  rw [exactPolarities, List.mem_filterMap]
  constructor
  · rintro ⟨e, he, hp⟩
    obtain ⟨names, rfl⟩ := exactPolarity?_eq_some_iff.1 hp
    exact ⟨names, he⟩
  · rintro ⟨names, hnames⟩
    exact ⟨_, hnames, rfl⟩

/-- The entries of two lists are judged one list after the other. The second goes on with the
polarities that the first has seen, and with the next index. -/
theorem checkAll_append (index : Nat) (seen : List Polarity) (es more : List Entry) :
    checkAll index seen (es ++ more)
      = checkAll index seen es >>= fun seen' => checkAll (index + es.length) seen' more := by
  induction es generalizing index seen with
  | nil => rfl
  | cons e es ih =>
    rw [List.cons_append, checkAll, checkAll, ih, List.length_cons, Nat.add_comm es.length,
      ← Nat.add_assoc]
    cases e.checkSlot index seen with
    | error f => rfl
    | ok u => cases e.check index <;> rfl

/-- The slot of an entry is taken if its polarity was seen, which is a fault only of exact
entries. -/
theorem checkSlot_eq_error_iff {index : Nat} {seen : List Polarity} {e : Entry} {f : Fault} :
    e.checkSlot index seen = .error f ↔
      ∃ p, e.exactPolarity? = some p ∧ p ∈ seen ∧ f = .secondExactSet index := by
  unfold checkSlot
  split
  · rename_i p hp
    by_cases hmem : p ∈ seen <;> simp [hp, hmem, eq_comm]
  · rename_i hnone
    simp [hnone]

theorem getElem?_take_eq_some_iff {es : List Entry} {k i : Nat} {e : Entry} :
    (es.take k)[i]? = some e ↔ i < k ∧ es[i]? = some e := by
  rw [List.getElem?_take]
  simp

/-- The faults of the entries before an index are faults of the whole list, at an index below it.
The exact entry that comes before stays where it is. -/
theorem FaultAt.of_take {es : List Entry} {k index : Nat} {f : Fault}
    (h : FaultAt (es.take k) index f) : index < k ∧ FaultAt es index f := by
  cases h with
  | second h hlt hbefore =>
    obtain ⟨hk, h⟩ := getElem?_take_eq_some_iff.1 h
    exact ⟨hk, .second h hlt (getElem?_take_eq_some_iff.1 hbefore).2⟩
  | content h hbad =>
    obtain ⟨hk, h⟩ := getElem?_take_eq_some_iff.1 h
    exact ⟨hk, .content h hbad⟩

/-- The slot of an entry is taken if that is a fault of it. The polarities seen are those of the
entries before it, so the test is the same as the search for an earlier exact entry. -/
theorem checkSlot_take_eq_error_iff {es : List Entry} {index : Nat} {e : Entry} {f : Fault}
    (h : es[index]? = some e) :
    e.checkSlot index (exactPolarities (es.take index)).reverse = .error f ↔
      f = .secondExactSet index ∧ FaultAt es index f := by
  rw [checkSlot_eq_error_iff]
  constructor
  · rintro ⟨p, hp, hmem, rfl⟩
    obtain ⟨names, rfl⟩ := exactPolarity?_eq_some_iff.1 hp
    obtain ⟨names', hnames'⟩ := mem_exactPolarities.1 (List.mem_reverse.1 hmem)
    obtain ⟨j, hj⟩ := List.mem_iff_getElem?.1 hnames'
    obtain ⟨hlt, hbefore⟩ := getElem?_take_eq_some_iff.1 hj
    exact ⟨rfl, .second h hlt hbefore⟩
  · rintro ⟨rfl, hfault⟩
    cases hfault with
    | @second p names names' j hget hlt hbefore =>
      refine ⟨p, exactPolarity?_eq_some_iff.2 ⟨names, Option.some.inj (h.symm.trans hget)⟩, ?_, rfl⟩
      rw [List.mem_reverse, mem_exactPolarities]
      exact ⟨names', List.mem_iff_getElem?.2 ⟨j, getElem?_take_eq_some_iff.2 ⟨hlt, hbefore⟩⟩⟩
    | content hget hbad => cases hbad

/-- What is wrong with an entry on its own has one place in the order, whichever fault it is. An
entry has no two of them, so this needs no finer order. -/
theorem Spoiled.rank_eq {index : Nat} {e : Entry} {f : Fault} (h : e.Spoiled index f) :
    f.rank = 3 * index + 3 := by
  cases h <;> rfl

/-- The faults of one entry have their place among those of the others: an earlier index ranks
before a later one, and two faults of one index stand side by side. -/
theorem FaultAt.rank_bounds {es : List Entry} {index : Nat} {f : Fault} (h : FaultAt es index f) :
    index < es.length ∧ 3 * index + 2 ≤ f.rank ∧ f.rank ≤ 3 * index + 3 := by
  cases h with
  | second h _ _ =>
    exact ⟨(List.getElem?_eq_some_iff.1 h).1, by simp, by simp⟩
  | content h hbad =>
    rw [hbad.rank_eq]
    exact ⟨(List.getElem?_eq_some_iff.1 h).1, Nat.le_succ _, Nat.le_refl _⟩

/-- The entry at an index is judged for the first of its own faults. A second exact set is reported
even if a name in it is reserved. -/
theorem checkEntry_eq_error_iff {es : List Entry} {index : Nat} {e : Entry} {f : Fault}
    (h : es[index]? = some e) :
    (e.checkSlot index (exactPolarities (es.take index)).reverse >>= fun _ => e.check index)
        = .error f ↔
      FaultAt es index f ∧ ∀ other, FaultAt es index other → f.rank ≤ other.rank := by
  have hslot := fun f => checkSlot_take_eq_error_iff (f := f) h
  rw [Result.bind_eq_error_iff, hslot, check_eq_error_iff]
  constructor
  · rintro (⟨rfl, hfault⟩ | ⟨u, hok, hbad⟩)
    · exact ⟨hfault, fun other hother => hother.rank_bounds.2.1⟩
    · refine ⟨.content h hbad, fun other hother => ?_⟩
      cases hother with
      | second hget hlt hbefore =>
        cases hok.symm.trans ((hslot _).2 ⟨rfl, .second hget hlt hbefore⟩)
      | content _ hbad' => rw [hbad.rank_eq, hbad'.rank_eq]
  · rintro ⟨hfault, hfirst⟩
    cases hfault with
    | second hget hlt hbefore => exact .inl ⟨rfl, .second hget hlt hbefore⟩
    | @content e' _ hget hbad =>
      obtain rfl : e = e' := Option.some.inj (h.symm.trans hget)
      -- A second exact set has the lower rank, so it cannot be there if this fault is the first.
      cases hs : e.checkSlot index (exactPolarities (es.take index)).reverse with
      | ok u => exact .inr ⟨u, rfl, hbad⟩
      | error other =>
        obtain ⟨rfl, hother⟩ := (hslot other).1 hs
        have hle := hfirst _ hother
        rw [hbad.rank_eq, Fault.rank] at hle
        omega

/-- Where the entries before an index pass, the one at the index is judged next, and those after it
last. It cuts a judgement into the three parts. -/
theorem checkAll_of_take {es : List Entry} {index : Nat} {e : Entry} {seen : List Polarity}
    (h : es[index]? = some e) (hseen : checkAll 0 [] (es.take index) = .ok seen) :
    checkAll 0 [] es
      = (e.checkSlot index (exactPolarities (es.take index)).reverse >>= fun _ => e.check index)
        >>= fun _ => checkAll (index + 1) (e.exactPolarity?.toList ++ seen) (es.drop (index + 1)) := by
  obtain ⟨hindex, rfl⟩ := List.getElem?_eq_some_iff.1 h
  have hcut : es = es.take index ++ es[index] :: es.drop (index + 1) := by
    rw [List.getElem_cons_drop, List.take_append_drop]
  have hstep : checkAll 0 [] es = checkAll index seen (es[index] :: es.drop (index + 1)) := by
    conv_lhs => rw [hcut, checkAll_append, hseen, List.length_take_of_le hindex.le, Nat.zero_add]
    rfl
  obtain ⟨-, -, -, rfl⟩ := checkAll_eq_ok_iff.1 hseen
  rw [hstep, checkAll, List.append_nil, bind_assoc]

/-- Entries that fail have a fault, the one they fail for. Either the entries before the last fail
already, or the last one does, judged after them. -/
theorem exists_faultAt_of_checkAll {es : List Entry} {f : Fault} (h : checkAll 0 [] es = .error f) :
    ∃ index, FaultAt es index f := by
  -- The induction is on the list from its end, since the entries before the last come first.
  induction es using List.reverseRecOn with
  | nil => cases h
  | append_singleton es e ih =>
    have htake : (es ++ [e]).take es.length = es := List.take_left
    cases hes : checkAll 0 [] es with
    | error other =>
      rw [checkAll_append, hes] at h
      cases h
      obtain ⟨index, hfault⟩ := ih hes
      exact ⟨index, (FaultAt.of_take (htake.symm ▸ hfault)).2⟩
    | ok seen =>
      have hlast : (es ++ [e])[es.length]? = some e := List.getElem?_concat_length
      rw [checkAll_of_take hlast (htake.symm ▸ hes), Result.bind_eq_error_iff] at h
      rcases h with hentry | ⟨u, -, hnil⟩
      · exact ⟨es.length, ((checkEntry_eq_error_iff hlast).1 hentry).1⟩
      · -- Nothing follows the last entry.
        rw [List.drop_eq_nil_of_le (by simp)] at hnil
        cases hnil

/-- Entries fail for a fault of theirs, if none comes before it. The entries before it pass, as a
failure among them would be a fault of lower rank. -/
theorem checkAll_of_first {es : List Entry} {index : Nat} {f : Fault} (h : FaultAt es index f)
    (hfirst : ∀ i other, FaultAt es i other → f.rank ≤ other.rank) :
    checkAll 0 [] es = .error f := by
  obtain ⟨hindex, hlow, -⟩ := h.rank_bounds
  have hget : es[index]? = some es[index] := List.getElem?_eq_getElem hindex
  cases hbefore : checkAll 0 [] (es.take index) with
  | ok seen =>
    rw [checkAll_of_take hget hbefore, (checkEntry_eq_error_iff hget).2 ⟨h, hfirst index⟩]
    rfl
  | error other =>
    -- A fault of an entry before it would come before.
    obtain ⟨i, hother⟩ := exists_faultAt_of_checkAll hbefore
    obtain ⟨hi, hother⟩ := hother.of_take
    have hle := hfirst i other hother
    have hhigh := hother.rank_bounds.2.2
    omega

end Entry

/-! ### A payload -/

namespace Payload

theorem endsInEmptyName_iff {p : Payload} :
    p.endsInEmptyName = true ↔ p.entries.getLast? = some (.exact .allow [""]) := by
  unfold endsInEmptyName
  split
  · rename_i names h
    simp [h]
  · rename_i hnone
    exact iff_of_false Bool.false_ne_true (hnone _)

/-- The last test, after all entries passed. It asks for the polarities that were seen, and these
are the polarities of the exact entries. -/
theorem endsInEmptyName_and_iff {p : Payload} {seen : List Polarity}
    (h : Entry.checkAll 0 [] p.entries = .ok seen) :
    (p.endsInEmptyName && !seen.contains .deny) = true ↔ p.Unanchored := by
  obtain ⟨-, -, -, rfl⟩ := Entry.checkAll_eq_ok_iff.1 h
  have hdeny : Polarity.deny ∈ Entry.exactPolarities p.entries ↔
      ∃ names, .exact .deny names ∈ p.entries := Entry.mem_exactPolarities
  rw [Bool.and_eq_true_iff, endsInEmptyName_iff]
  simp [Unanchored, hdeny]

end Payload

namespace Fault

/-- The fault that is named applies. It is found along the four tests, of which the third is the
judgement of the entries. -/
theorem applies_of_validate {p : Payload} {f : Fault} (h : p.validate = .error f) :
    f.Applies p := by
  rw [Payload.validate_eq] at h
  split at h
  · rename_i hcount
    cases h
    exact .count hcount
  split at h
  · rename_i hempty
    cases h
    exact .noRules (List.isEmpty_iff.1 hempty)
  rcases Result.bind_eq_error_iff.1 h with hall | ⟨seen, hall, hlast⟩
  · obtain ⟨index, hfault⟩ := Entry.exists_faultAt_of_checkAll hall
    exact .entry hfault
  · split at hlast
    · rename_i hend
      cases hlast
      exact .last ((Payload.endsInEmptyName_and_iff hall).1 hend)
    · cases hlast

/-- The first fault is named. For each kind of fault the tests before it pass, since what they would
report has a lower rank. -/
theorem validate_of_first {p : Payload} {f : Fault} (h : f.IsFirst p) : p.validate = .error f := by
  have hcount : 0 < f.rank → ¬ p.ruleCount.toNat ≠ p.entries.length := fun hr hne =>
    h.not_applies (show Fault.rank (.countMismatch p.ruleCount p.entries.length) < _ from hr)
      (.count hne)
  have hsome : 1 < f.rank → ¬ p.entries.isEmpty = true := fun hr hnil =>
    h.not_applies (show Fault.noRules.rank < _ from hr) (.noRules (List.isEmpty_iff.1 hnil))
  rw [Payload.validate_eq]
  cases h.1 with
  | count hne => exact if_pos hne
  | noRules hnil => rw [if_neg (hcount Nat.one_pos), if_pos (List.isEmpty_iff.2 hnil)]
  | @entry index _ hfault =>
    have hrank := hfault.rank_bounds.2.1
    rw [if_neg (hcount (by omega)), if_neg (hsome (by omega)),
      Entry.checkAll_of_first hfault fun i other hother => h.2 other (.entry hother)]
    rfl
  | last hlast =>
    obtain ⟨seen, hseen⟩ : ∃ seen, Entry.checkAll 0 [] p.entries = .ok seen := by
      cases hall : Entry.checkAll 0 [] p.entries with
      | ok seen => exact ⟨seen, rfl⟩
      | error other =>
        -- The index of a fault is at most the last one, whose own faults come before.
        obtain ⟨index, hother⟩ := Entry.exists_faultAt_of_checkAll hall
        have hle := h.2 other (.entry hother)
        have hbounds := hother.rank_bounds
        rw [rank] at hle
        omega
    rw [if_neg (hcount (by simp)), if_neg (hsome (by simp)), hseen]
    exact if_pos ((Payload.endsInEmptyName_and_iff hseen).2 hlast)

end Fault

namespace Payload

/-- A payload is refused for its first fault, and only if it has one. So the error is determined by
what is wrong and not by how it is searched for. -/
theorem validate_eq_error_iff {p : Payload} {f : Fault} : p.validate = .error f ↔ f.IsFirst p := by
  refine ⟨fun h => ?_, Fault.validate_of_first⟩
  obtain ⟨first, hfirst⟩ := Fault.exists_isFirst (Fault.applies_of_validate h)
  obtain rfl : first = f := Except.error.inj ((Fault.validate_of_first hfirst).symm.trans h)
  exact hfirst

/-- What a payload needs for a chain, without an order:
- `counted`: the writer counted the entries right;
- `nonempty`: there is an entry;
- `oneExact`: two exact entries of one polarity are at one index;
- `named`: an exact entry names a class;
- `plain`: no text holds a character that is reserved;
- `packages`: what is no stem names a package;
- `anchored`: an exact deny entry goes with a last entry that allows the empty name alone. -/
structure Admissible (p : Payload) : Prop where
  counted : p.ruleCount.toNat = p.entries.length
  nonempty : p.entries ≠ []
  oneExact : ∀ (polarity : Polarity) (i j : Nat) (names names' : List String),
    p.entries[i]? = some (.exact polarity names) → p.entries[j]? = some (.exact polarity names') →
      i = j
  named : ∀ polarity, .exact polarity [] ∉ p.entries
  plain : ∀ e ∈ p.entries, ∀ text ∈ e.texts, Entry.Plain text
  packages : ∀ polarity scope text, .wildcard polarity scope text ∈ p.entries → scope ≠ .stem →
    Entry.NamesPackage text
  anchored : ¬ p.Unanchored

/-- A payload is admissible if no fault applies to it. Each condition is the absence of one kind of
fault, at all indices. -/
theorem admissible_iff {p : Payload} : p.Admissible ↔ ∀ f : Fault, ¬ f.Applies p := by
  constructor
  · intro h f happlies
    cases happlies with
    | count hne => exact hne h.counted
    | noRules hnil => exact h.nonempty hnil
    | entry hfault =>
      cases hfault with
      | second hget hlt hbefore => exact hlt.ne (h.oneExact _ _ _ _ _ hbefore hget)
      | @content e _ hget hbad =>
        have hmem : e ∈ p.entries := List.mem_of_getElem? hget
        refine Entry.forall_not_spoiled_iff.2 (Entry.sound_iff.2 ⟨?_, h.plain e hmem, ?_⟩) f hbad
        · rintro polarity rfl
          exact h.named polarity hmem
        · rintro polarity scope text rfl
          exact h.packages polarity scope text hmem
    | last hlast => exact h.anchored hlast
  · intro h
    have hsound : ∀ e ∈ p.entries, e.Sound := by
      intro e he
      obtain ⟨index, hget⟩ := List.mem_iff_getElem?.1 he
      exact Entry.forall_not_spoiled_iff.1 fun f hbad => h f (.entry (.content hget hbad))
    refine ⟨by_contra fun hne => h _ (.count hne), fun hnil => h _ (.noRules hnil), ?_, ?_, ?_, ?_,
      fun hlast => h _ (.last hlast)⟩
    -- Of two exact sets of one polarity the later is at fault, whichever index is named first.
    · intro polarity i j names names' hi hj
      rcases Nat.lt_trichotomy i j with hlt | rfl | hlt
      · exact absurd (.entry (.second hj hlt hi)) (h _)
      · rfl
      · exact absurd (.entry (.second hi hlt hj)) (h _)
    · exact fun polarity hmem => (Entry.sound_iff.1 (hsound _ hmem)).1 polarity rfl
    · exact fun e he => (Entry.sound_iff.1 (hsound e he)).2.1
    · exact fun polarity scope text hmem =>
        (Entry.sound_iff.1 (hsound _ hmem)).2.2 polarity scope text rfl

/-- A payload passes if it is admissible. One that does not has a fault, hence a first one, and is
refused for it. -/
theorem validate_eq_ok_iff_admissible {p : Payload} : p.validate = .ok () ↔ p.Admissible := by
  rw [admissible_iff]
  constructor
  · intro h f happlies
    obtain ⟨first, hfirst⟩ := Fault.exists_isFirst happlies
    rw [Fault.validate_of_first hfirst] at h
    cases h
  · intro h
    cases hv : p.validate with
    | ok u => rfl
    | error f => exact absurd (Fault.applies_of_validate hv) (h f)

end Payload

end ClassFilter
