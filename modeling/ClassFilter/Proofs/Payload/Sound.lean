import ClassFilter.Payload.Fault
import ClassFilter.Proofs.Result

/-!
# `ClassFilter.Proofs.Payload.Sound`: which payloads a chain is taken from

`Payload.validate` judges a payload test by test and stops at the first fault. `Sound`
states the conditions without an order, and the theorems say that they are the ones that
are tested:

* `Entry.check_eq_ok_iff`: an entry on its own.
* `Entry.checkAll_eq_ok_iff`: a list of entries, given the polarities that have their
  exact entry already. The induction is on the list and carries these along.
* `Payload.validate_eq_ok_iff`, `Payload.toChain_eq_ok_iff`: a payload. `Payload.validate_eq` has
  the tests in their order.
-/

set_option autoImplicit false

namespace ClassFilter

namespace Entry

/-- The polarities of the exact entries, in their order. The judgement carries them along in
reverse, the last one first. -/
def exactPolarities (es : List Entry) : List Polarity :=
  es.filterMap exactPolarity?

/-- A text is searched for three characters. That none is found says that none of them stands in
it. -/
theorem hasReserved_eq_false_iff {text : String} :
    hasReserved text = false ↔ '*' ∉ text.toList ∧ ';' ∉ text.toList ∧ '/' ∉ text.toList := by
  rw [hasReserved, List.any_eq_false]
  constructor
  · intro h
    refine ⟨fun hc => ?_, fun hc => ?_, fun hc => ?_⟩
    · simpa using h _ hc
    · simpa using h _ hc
    · simpa using h _ hc
  · intro ⟨hstar, hsep, hslash⟩ c hc
    have hne : c ≠ '*' ∧ c ≠ ';' ∧ c ≠ '/' :=
      ⟨fun h => hstar (h ▸ hc), fun h => hsep (h ▸ hc), fun h => hslash (h ▸ hc)⟩
    simpa [and_assoc] using hne

/-- The conditions on an entry on its own. A limit has none, and of a stem only the characters are
asked. -/
def Sound : Entry → Prop
  | .limit _ _ => True
  | .exact _ names => names ≠ [] ∧ ∀ name ∈ names, hasReserved name = false
  | .wildcard _ .stem text => hasReserved text = false
  | .wildcard _ _ text => hasReserved text = false ∧ namesPackage text = true

theorem checkText_eq_ok_iff {index : Nat} {text : String} :
    checkText index text = .ok () ↔ hasReserved text = false := by
  rw [checkText, Result.ite_error_eq_ok_iff]
  simp

/-- A package and a hierarchy are judged in the same way: first the characters, then the name. The
two branches of the program are taken together by it. -/
theorem check_wildcard {index : Nat} {p : Polarity} {scope : Scope} {text : String}
    (h : scope ≠ .stem) :
    check index (.wildcard p scope text) = checkText index text >>= fun _ =>
      if namesPackage text then .ok () else .error (.unnamedPackage index text) := by
  cases scope with
  | package => rfl
  | hierarchy => rfl
  | stem => exact absurd rfl h

/-- An entry passes on its own exactly when it is sound. The index is for faults only, so it does
not matter. -/
theorem check_eq_ok_iff {index : Nat} {e : Entry} : e.check index = .ok () ↔ e.Sound := by
  cases e with
  | limit metric max => simp [check, Sound]
  | exact p names =>
    cases names with
    | nil => simp [check, Sound]
    | cons name names =>
      show (name :: names).forM (checkText index) = .ok () ↔ _
      rw [Result.forM_eq_ok_iff]
      simp only [checkText_eq_ok_iff]
      exact ⟨fun h => ⟨List.cons_ne_nil _ _, h⟩, fun h => h.2⟩
  | wildcard p scope text =>
    by_cases hscope : scope = .stem
    · rw [hscope]
      exact checkText_eq_ok_iff
    · have hsound : Sound (.wildcard p scope text) ↔
          hasReserved text = false ∧ namesPackage text = true := by
        cases scope <;> simp_all [Sound]
      rw [check_wildcard hscope, Result.bind_unit_eq_ok_iff, checkText_eq_ok_iff, hsound]
      simp

/-- A polarity may have one exact entry only. Entries of other kinds pass this test whatever was
seen. -/
theorem checkSlot_eq_ok_iff {index : Nat} {seen : List Polarity} {e : Entry} :
    e.checkSlot index seen = .ok () ↔ ∀ p, e.exactPolarity? = some p → p ∉ seen := by
  unfold checkSlot
  split
  · rename_i p hp
    rw [Result.ite_error_eq_ok_iff]
    simp [hp]
  · rename_i hnone
    simp [hnone]

/-- Entries pass exactly when each is sound and no polarity has a second exact entry, in the list or
before it. The result lists the polarities that have one, for the last test of the payload. -/
theorem checkAll_eq_ok_iff {index : Nat} {seen result : List Polarity} {es : List Entry} :
    checkAll index seen es = .ok result ↔
      (∀ e ∈ es, e.Sound) ∧ (exactPolarities es).Nodup ∧ (∀ p ∈ exactPolarities es, p ∉ seen) ∧
        result = (exactPolarities es).reverse ++ seen := by
  -- The index is for the error only, and the polarities seen grow by those of each entry.
  induction es generalizing index seen with
  | nil =>
    rw [checkAll, Except.ok.injEq]
    simp [exactPolarities, eq_comm]
  | cons e es ih =>
    rw [checkAll, Result.bind_unit_eq_ok_iff, Result.bind_unit_eq_ok_iff, checkSlot_eq_ok_iff,
      check_eq_ok_iff, ih, List.forall_mem_cons]
    cases hp : e.exactPolarity? with
    | none =>
      have hes : exactPolarities (e :: es) = exactPolarities es := List.filterMap_cons_none hp
      rw [hes]
      simp [and_assoc]
    | some p =>
      have hes : exactPolarities (e :: es) = p :: exactPolarities es := List.filterMap_cons_some hp
      rw [hes, List.nodup_cons, List.forall_mem_cons]
      -- A polarity that was seen now is not seen again.
      have hseen : (∀ p' ∈ exactPolarities es, p' ∉ p :: seen) ↔
          p ∉ exactPolarities es ∧ ∀ p' ∈ exactPolarities es, p' ∉ seen := by
        constructor
        · intro h
          exact ⟨fun hmem => h p hmem List.mem_cons_self,
            fun p' hp' hmem => h p' hp' (List.mem_cons_of_mem _ hmem)⟩
        · intro ⟨hfirst, hrest⟩ p' hp' hmem
          rcases List.mem_cons.1 hmem with rfl | hmem
          · exact hfirst hp'
          · exact hrest p' hp' hmem
      have hresult : (exactPolarities es).reverse ++ ((some p).toList ++ seen)
          = (p :: exactPolarities es).reverse ++ seen := by
        simp
      have hslot : (∀ p', some p = some p' → p' ∉ seen) ↔ p ∉ seen := by
        simp
      rw [hslot, hresult]
      show _ ∧ _ ∧ _ ∧ _ ∧ (∀ p' ∈ exactPolarities es, p' ∉ p :: seen) ∧ _ ↔ _
      rw [hseen]
      constructor
      · intro ⟨hp', he, hsound, hnodup, ⟨hfirst, hrest⟩, heq⟩
        exact ⟨⟨he, hsound⟩, ⟨hfirst, hnodup⟩, ⟨hp', hrest⟩, heq⟩
      · intro ⟨⟨he, hsound⟩, ⟨hfirst, hnodup⟩, ⟨hp', hrest⟩, heq⟩
        exact ⟨hp', he, hsound, hnodup, ⟨hfirst, hrest⟩, heq⟩

end Entry

namespace Payload

/-- The conditions on a payload that a chain is taken from:
- `counted`: the writer counted the entries right;
- `nonempty`: there is an entry;
- `entries`: each entry passes on its own;
- `nodup`: each polarity has at most one exact entry;
- `anchored`: an exact deny entry goes with a last entry that allows the empty name alone. -/
structure Sound (p : Payload) : Prop where
  counted : p.ruleCount.toNat = p.entries.length
  nonempty : p.entries ≠ []
  entries : ∀ e ∈ p.entries, e.Sound
  nodup : (Entry.exactPolarities p.entries).Nodup
  anchored : p.endsInEmptyName = true → .deny ∈ Entry.exactPolarities p.entries

/-- The tests in their order: the count, the presence of an entry, the entries, the last. Success
and failure are both read off this equation. -/
theorem validate_eq (p : Payload) :
    p.validate =
      if p.ruleCount.toNat ≠ p.entries.length then
        .error (.countMismatch p.ruleCount p.entries.length)
      else if p.entries.isEmpty then .error .noRules
      else Entry.checkAll 0 [] p.entries >>= fun seen =>
        if p.endsInEmptyName && !seen.contains .deny then
          .error (.finalEmptyName (p.entries.length - 1))
        else .ok () := rfl

/-- A payload passes exactly when it is sound. The conditions are those of the four tests, and their
order is gone. -/
theorem validate_eq_ok_iff {p : Payload} : p.validate = .ok () ↔ p.Sound := by
  rw [validate_eq, Result.ite_error_eq_ok_iff, Result.ite_error_eq_ok_iff, Result.bind_eq_ok_iff]
  constructor
  · intro ⟨hcount, hne, seen, hall, hlast⟩
    obtain ⟨hentries, hnodup, -, rfl⟩ := Entry.checkAll_eq_ok_iff.1 hall
    obtain ⟨hanchored, -⟩ := Result.ite_error_eq_ok_iff.1 hlast
    refine ⟨Decidable.not_not.1 hcount, by simpa using hne, hentries, hnodup, fun hend => ?_⟩
    simpa [hend] using hanchored
  · intro ⟨hcount, hne, hentries, hnodup, hanchored⟩
    refine ⟨not_not_intro hcount, by simpa using hne, _,
      Entry.checkAll_eq_ok_iff.2 ⟨hentries, hnodup, by simp, rfl⟩, ?_⟩
    refine Result.ite_error_eq_ok_iff.2 ⟨?_, rfl⟩
    simpa using hanchored

/-- A chain is taken from sound payloads, and it is the chain of their entries. Of others a fault is
reported and no chain is made. -/
theorem toChain_eq_ok_iff {p : Payload} {c : Chain} :
    p.toChain = .ok c ↔ p.Sound ∧ p.chain = c := by
  rw [toChain, Result.bind_unit_eq_ok_iff, validate_eq_ok_iff]
  refine and_congr_right fun _ => ?_
  show Except.ok p.chain = .ok c ↔ _
  rw [Except.ok.injEq]

theorem toChain_eq_error_iff {p : Payload} {f : Fault} :
    p.toChain = .error f ↔ p.validate = .error f := by
  rw [toChain, Result.bind_eq_error_iff]
  exact or_iff_left fun ⟨_, _, h⟩ => nomatch h

end Payload

end ClassFilter
