import ClassFilter.Draft
import ClassFilter.Proofs.Rule.Gather

/-!
# `ClassFilter.Proofs.Draft.Slots`: the slots of a draft

A draft is a fold with state. It keeps the index of the exact rule of each polarity, and
a class name that comes later changes the rule at that index. The theorems show that the
indices stay right, and that the rules are those of `Rule.gather`, which has no state.

* `Draft.SlotsValid` is the invariant of the fold: a slot holds `i` exactly when the rule
  at `i` is the exact rule of the polarity. `slotsValid_add` and `slotsValid_foldl_add`
  carry it through a step and a run.
* `SlotsValid.map_extend_modify`: a class name may join its rule at once or at the end.
* `rules_foldl_add`: from a draft that meets the invariant, a run extends the exact rules
  there are and appends the gathered rules of the rest.
* `rules_ofElements`: so the rules of a list of elements are the gathered ones.
-/

set_option autoImplicit false

namespace ClassFilter.Draft

/-- A slot holds the index of the exact rule of its polarity, if there is one, and is empty
otherwise. The loop relies on this when it inserts a class name at the index of the slot without
looking at the rule there. -/
def SlotsValid (d : Draft) : Prop :=
  ∀ p i, d.slot p = some i ↔ ∃ names, d.rules[i]? = some (.exact p names)

@[simp] theorem rules_push (d : Draft) (r : Rule) : (d.push r).rules = d.rules.push r := rfl

@[simp] theorem slot_push (d : Draft) (r : Rule) (p : Polarity) : (d.push r).slot p = d.slot p := by
  cases p <;> rfl

@[simp] theorem rules_setSlot (d : Draft) (p : Polarity) (i : Nat) :
    (d.setSlot p i).rules = d.rules := by
  cases p <;> rfl

theorem slot_setSlot (d : Draft) (p q : Polarity) (i : Nat) :
    (d.setSlot p i).slot q = if q = p then some i else d.slot q := by
  cases p <;> cases q <;> rfl

/-- An exact rule of a polarity stands only at the index of its slot. The slot of the polarity
determines the rule, so two indices of such rules are equal. -/
theorem SlotsValid.eq_of_getElem? {d : Draft} (h : d.SlotsValid) {p : Polarity} {i j : Nat}
    {names : NameSet} (hi : d.slot p = some i) (hj : d.rules[j]? = some (.exact p names)) :
    j = i := by
  have hslot := (h p j).2 ⟨names, hj⟩
  rw [hi] at hslot
  exact (Option.some.inj hslot).symm

/-- Without a slot there is no exact rule of the polarity. It covers the branch of the loop that
pushes a new rule, where a rule that stood already would be a second one. -/
theorem SlotsValid.not_mem_rules {d : Draft} (h : d.SlotsValid) {p : Polarity}
    (hp : d.slot p = none) (names : NameSet) : .exact p names ∉ d.rules := by
  intro hmem
  obtain ⟨i, hi⟩ := Array.mem_iff_getElem?.1 hmem
  have hslot := (h p i).2 ⟨names, hi⟩
  rw [hp] at hslot
  cases hslot

theorem slotsValid_empty : empty.SlotsValid := by
  intro p i
  cases p <;> simp [empty, slot]

/-- A rule that is not exact leaves the slots valid. It is the step of the loop at a limit or a
pattern, where the new index belongs to no slot. -/
theorem SlotsValid.push {d : Draft} (h : d.SlotsValid) {r : Rule}
    (hr : ∀ p names, r ≠ .exact p names) : (d.push r).SlotsValid := by
  intro p i
  rw [slot_push, h p i, rules_push, Array.getElem?_push]
  by_cases hi : i = d.rules.size
  · have hnone : d.rules[i]? = none := Array.getElem?_eq_none (by omega)
    simp [hi, hr]
  · simp [hi]

/-- A class name leaves the slots valid, whether it makes a rule or joins one. In the first case the
slot takes the new index, in the second the rule there stays exact and of its polarity. -/
theorem SlotsValid.addName {d : Draft} (h : d.SlotsValid) (p : Polarity) (name : String) :
    (d.addName p name).SlotsValid := by
  intro q i
  unfold Draft.addName
  split
  · rename_i k hk
    show d.slot q = some i ↔ ∃ names, (d.rules.modify k (·.insertName name))[i]? = _
    -- An exact rule with one more name is an exact rule of the same polarity.
    rw [h q i, Array.getElem?_modify]
    by_cases hik : k = i
    · subst hik
      obtain ⟨names, hnames⟩ := (h p k).1 hk
      simp [hnames, Rule.insertName]
    · simp [hik]
  · rename_i hnone
    rw [slot_setSlot, rules_setSlot, slot_push, rules_push, Array.getElem?_push]
    by_cases hqp : q = p
    · subst hqp
      by_cases hi : i = d.rules.size
      · -- The slot that is set is that of the rule that is pushed.
        simp [hi]
      · -- The new rule is the only one of its polarity.
        have hother : ∀ names, d.rules[i]? ≠ some (.exact q names) := by
          intro names hget
          exact h.not_mem_rules hnone names (Array.mem_of_getElem? hget)
        simp [hi, hother, eq_comm]
    · by_cases hi : i = d.rules.size
      · have hout : d.rules[i]? = none := Array.getElem?_eq_none (by omega)
        rw [if_neg hqp, h q i, hout]
        simp [hi, Ne.symm hqp]
      · rw [if_neg hqp, h q i]
        simp [hi]

/-- One element leaves the slots valid. This is the step of the invariant, with one case for each
constructor of an element. -/
theorem slotsValid_add {d : Draft} (h : d.SlotsValid) (e : Element) : (d.add e).SlotsValid := by
  cases e with
  | limit metric max => exact h.push (by simp [Rule.ofElement])
  | exact p name => exact h.addName p name
  | wildcard p scope text => exact h.push (by simp [Rule.ofElement])

/-- A run over elements leaves the slots valid, by induction with the step `slotsValid_add`. From
the empty draft on, the slots are valid after every prefix. -/
theorem slotsValid_foldl_add {d : Draft} (h : d.SlotsValid) (es : List Element) :
    (es.foldl add d).SlotsValid := by
  induction es generalizing d with
  | nil => exact h
  | cons e es ih => exact ih (slotsValid_add h e)

/-! ### The rules of a run -/

/-- The first class name of a polarity makes a rule with this one name and takes the slot. The index
is the number of rules before the push, that of the new rule. -/
theorem add_exact_of_slot_eq_none {d : Draft} {p : Polarity} (h : d.slot p = none)
    (name : String) :
    d.add (.exact p name) = (d.push (.exact p (.singleton name))).setSlot p d.rules.size := by
  show d.addName p name = _
  rw [addName, h]

/-- A later class name of a polarity joins the rule of the slot, and neither the other rules nor the
slots change. A name that is in the set already leaves the rule as it is. -/
theorem add_exact_of_slot_eq_some {d : Draft} {p : Polarity} {i : Nat} (h : d.slot p = some i)
    (name : String) :
    d.add (.exact p name) = { d with rules := d.rules.modify i (·.insertName name) } := by
  show d.addName p name = _
  rw [addName, h]

/-- Without a slot, no rule of the draft takes up a class name. The name is therefore left to the
rule it makes, which is where `gather` counts it. -/
theorem SlotsValid.map_extend_of_none {d : Draft} (h : d.SlotsValid) {p : Polarity}
    (hp : d.slot p = none) (name : String) (es : List Element) :
    d.rules.toList.map (Rule.extend (.exact p name :: es))
      = d.rules.toList.map (Rule.extend es) := by
  refine List.map_congr_left fun r hr => Rule.extend_exact_cons (fun names heq => ?_) name es
  rw [heq] at hr
  exact h.not_mem_rules hp names (Array.mem_toList_iff.1 hr)

/-- A class name may be inserted at the slot or taken up later, together with the names that follow.
Only the rule at the slot differs between the two, and there `Rule.extend_insertName` applies. -/
theorem SlotsValid.map_extend_modify {d : Draft} (h : d.SlotsValid) {p : Polarity} {i : Nat}
    (hp : d.slot p = some i) (name : String) (es : List Element) :
    (d.rules.modify i (·.insertName name)).toList.map (Rule.extend es)
      = d.rules.toList.map (Rule.extend (.exact p name :: es)) := by
  refine List.ext_getElem? fun j => ?_
  rw [List.getElem?_map, List.getElem?_map, Array.getElem?_toList, Array.getElem?_toList,
    Array.getElem?_modify]
  by_cases hij : i = j
  · subst hij
    obtain ⟨names, hnames⟩ := (h p i).1 hp
    rw [if_pos rfl, hnames, Option.map_some, Option.map_some, Option.map_some,
      Rule.extend_insertName]
  · rw [if_neg hij]
    cases hj : d.rules[j]? with
    | none => rfl
    | some r =>
      -- The rule at another index is not the exact rule of the polarity.
      have hother : ∀ names, r ≠ .exact p names := by
        intro names heq
        rw [heq] at hj
        exact hij (h.eq_of_getElem? hp hj).symm
      rw [Option.map_some, Option.map_some, Rule.extend_exact_cons hother name es]

/-- What a run adds to a draft. The exact rules there are take up the names of their polarity, and
the rules of the other elements follow. The induction is on the elements, for all drafts with valid
slots. Its three cases at a class name are those of the loop, and `gather` needs only to know which
slots are taken. -/
theorem rules_foldl_add {d : Draft} (hd : d.SlotsValid) {seen : List Polarity}
    (hseen : ∀ p, p ∈ seen ↔ d.slot p ≠ none) (es : List Element) :
    (es.foldl add d).rules.toList = d.rules.toList.map (Rule.extend es) ++ Rule.gather seen es := by
  -- The slots that are taken are the polarities that `Rule.gather` has seen.
  induction es generalizing d seen with
  | nil =>
    rw [List.foldl_nil, Rule.gather, List.append_nil, List.map_congr_left fun r _ => r.extend_nil,
      List.map_id']
  | cons e es ih =>
    rw [List.foldl_cons]
    cases e with
    | limit metric max =>
      show (es.foldl add (d.push (.limit metric max))).rules.toList = _
      rw [ih (hd.push (by simp)) (by simpa using hseen), rules_push, Array.toList_push,
        List.map_append, List.append_assoc]
      rfl
    | wildcard p scope text =>
      show (es.foldl add (d.push (.wildcard p scope text))).rules.toList = _
      rw [ih (hd.push (by simp)) (by simpa using hseen), rules_push, Array.toList_push,
        List.map_append, List.append_assoc]
      rfl
    | exact p name =>
      have hvalid : (d.add (.exact p name)).SlotsValid := slotsValid_add hd _
      cases hslot : d.slot p with
      | none =>
        have hnot : p ∉ seen := fun hp => (hseen p).1 hp hslot
        have hseen' : ∀ q, q ∈ p :: seen ↔ (d.add (.exact p name)).slot q ≠ none := by
          intro q
          rw [add_exact_of_slot_eq_none hslot, slot_setSlot, slot_push, List.mem_cons]
          by_cases hq : q = p
          · simp [hq]
          · simp [hq, hseen q]
        rw [ih hvalid hseen', add_exact_of_slot_eq_none hslot, rules_setSlot, rules_push,
          Array.toList_push, List.map_append, List.map_singleton, Rule.extend_singleton,
          hd.map_extend_of_none hslot, Rule.gather, if_neg hnot, List.append_assoc,
          List.singleton_append]
      | some i =>
        have hin : p ∈ seen := (hseen p).2 (by rw [hslot]; simp)
        have hseen' : ∀ q, q ∈ seen ↔ (d.add (.exact p name)).slot q ≠ none := by
          intro q
          rw [hseen q, add_exact_of_slot_eq_some hslot]
          cases q <;> rfl
        rw [ih hvalid hseen', add_exact_of_slot_eq_some hslot, hd.map_extend_modify hslot,
          Rule.gather, if_pos hin]

/-- The rules of a list of elements, read from the empty draft, are those that `gather` lists with
no polarity seen. From here on nothing needs to be known about the loop. -/
theorem rules_ofElements (es : List Element) :
    (ofElements es).rules.toList = Rule.gather [] es := by
  have hseen : ∀ p, p ∈ ([] : List Polarity) ↔ empty.slot p ≠ none := by
    intro p
    cases p <;> simp [empty, slot]
  rw [ofElements, rules_foldl_add slotsValid_empty hseen es]
  rfl

end ClassFilter.Draft
