import ClassFilter.Proofs.Chain.Text
import ClassFilter.Proofs.Payload.Sound

/-!
# `ClassFilter.Proofs.Payload.Spelling`: stored rules and the language

Two judgements are passed on a rule. A payload that is stored must be `Payload.Sound`,
and a chain that has a specification must be `Chain.WellFormed`. The first asks for less:

* `Chain.Spellable` lists what is missing. A bound fits a signed word, no text holds a
  `=`, no text to allow begins with a `!`, no denied name is empty, a stem does not end in
  a dot, and the set of the empty name does not end a chain without an exact deny rule.
* `Entry.wellFormed_rule_iff`, `Payload.wellFormed_chain_iff`: what passes the first
  judgement passes the second exactly when nothing of this is missing.
* `Entry.sound_ofRule`, `Payload.sound_ofChain`: what passes the second judgement passes
  the first when it is stored.
-/

set_option autoImplicit false

namespace ClassFilter

/-! ### Texts -/

/-- A payload is not searched for `=`, which is reserved too. So a loaded text may hold one, and its
rule has no spelling then. -/
theorem unreserved_iff {text : String} :
    Unreserved text ↔ Entry.hasReserved text = false ∧ '=' ∉ text.toList := by
  rw [unreserved_iff_not_mem, Entry.hasReserved_eq_false_iff]
  constructor
  · intro ⟨hsep, hslash, hequals, hstar⟩
    exact ⟨⟨hstar, hsep, hslash⟩, hequals⟩
  · intro ⟨⟨hstar, hsep, hslash⟩, hequals⟩
    exact ⟨hsep, hslash, hequals, hstar⟩

/-- Both judgements ask the same of the text of a package. The one counts bytes, and the other
excludes the dot alone. -/
theorem namesPackage_iff {text : String} :
    Entry.namesPackage text = true ↔ ClassName.endsWithDot text.toList = true ∧ text ≠ "." := by
  rw [Entry.namesPackage, Bool.and_eq_true, decide_eq_true_iff, and_comm]
  refine and_congr_right fun hdot => ?_
  obtain ⟨pkg, rfl⟩ := ClassName.endsWithDot_iff.1 hdot
  -- The dot is one byte, so what counts is whether anything stands before it.
  have hsize : (pkg ++ ".").utf8ByteSize = pkg.utf8ByteSize + 1 := by
    rw [String.utf8ByteSize_append]
    rfl
  have hempty : pkg ++ "." = "." ↔ pkg = "" := by
    constructor
    · intro h
      exact (String.append_left_inj ".").1 (h.trans String.empty_append.symm)
    · rintro rfl
      rfl
  rw [hsize, Ne, hempty, ← String.utf8ByteSize_eq_zero_iff]
  omega

/-! ### Rules -/

/-- What a stored rule needs besides, so that its elements have a text. It lists only what the
judgement of payloads does not ask. -/
def Rule.Spellable : Rule → Prop
  | .limit _ max => max.toNat < 2 ^ 63
  | .exact p names => ∀ name ∈ names, '=' ∉ name.toList ∧
      (p = .allow → name.toList.head? ≠ some '!') ∧ (p = .deny → name ≠ "")
  | .wildcard p scope text => '=' ∉ text.toList ∧
      (p = .allow → text.toList.head? ≠ some '!') ∧
      (scope = .stem → ClassName.endsWithDot text.toList = false)

namespace Entry

/-- A sound entry stands for a well-formed rule exactly when the rule is spellable. There is one
case for each kind of entry, and in each the two lists of conditions are compared. -/
theorem wellFormed_rule_iff {e : Entry} (h : e.Sound) : e.rule.WellFormed ↔ e.rule.Spellable := by
  cases e with
  | limit metric max => exact Rule.wellFormed_limit_iff
  | exact p names =>
    obtain ⟨hne, hreserved⟩ := h
    have hlist : (NameSet.ofList names).toList ≠ [] := by
      obtain ⟨name, hname⟩ := List.exists_mem_of_ne_nil names hne
      exact List.ne_nil_of_mem (NameSet.mem_toList.2 (NameSet.mem_ofList.2 hname))
    show (Rule.exact p (.ofList names)).WellFormed ↔ _
    rw [Rule.wellFormed_exact_iff]
    -- Only the `=` and what the polarity demands are left to ask.
    refine (and_iff_right hlist).trans (forall₂_congr fun name hname => ?_)
    rw [Element.WellFormed, Polarity.Admits, unreserved_iff]
    have hplain := hreserved name (NameSet.mem_ofList.1 hname)
    simp only [hplain, true_and, and_assoc]
  | wildcard p scope text =>
    -- The dot at the end of a package or hierarchy was checked, that of a stem was not.
    have hfits : hasReserved text = false ∧
        (scope.Fits text ↔ scope = .stem → ClassName.endsWithDot text.toList = false) := by
      cases scope with
      | package =>
        obtain ⟨hreserved, hpackage⟩ := h
        exact ⟨hreserved, iff_of_true (namesPackage_iff.1 hpackage) (by simp)⟩
      | hierarchy =>
        obtain ⟨hreserved, hpackage⟩ := h
        exact ⟨hreserved, iff_of_true (namesPackage_iff.1 hpackage) (by simp)⟩
      | stem => exact ⟨h, by simp [Scope.Fits]⟩
    show (Rule.wildcard p scope text).WellFormed ↔ _
    rw [Rule.wellFormed_wildcard_iff, Element.WellFormed, Polarity.Admits, unreserved_iff,
      hfits.2, rule, Rule.Spellable]
    simp only [hfits.1, true_and, and_assoc]

/-- A rule that is stored and read again is the same. A set is stored as its list, and the set of
this list is the same set. -/
@[simp] theorem rule_ofRule (r : Rule) : (ofRule r).rule = r := by
  cases r with
  | limit metric max => rfl
  | exact p names =>
    have hset : NameSet.ofList names.toList = names := by
      ext name
      rw [NameSet.mem_ofList, NameSet.mem_toList]
    rw [ofRule, rule, hset]
  | wildcard p scope text => rfl

/-- A well-formed rule is sound when it is stored. What the language asks of its elements contains
what is asked of the entry. -/
theorem sound_ofRule {r : Rule} (h : r.WellFormed) : (ofRule r).Sound := by
  cases r with
  | limit metric max => trivial
  | exact p names =>
    obtain ⟨hne, hnames⟩ := Rule.wellFormed_exact_iff.1 h
    exact ⟨hne, fun name hname => (unreserved_iff.1 (hnames name hname).1.1).1⟩
  | wildcard p scope text =>
    obtain ⟨⟨htext, -⟩, hfits⟩ := Rule.wellFormed_wildcard_iff.1 h
    have hreserved := (unreserved_iff.1 htext).1
    cases scope with
    | package => exact ⟨hreserved, namesPackage_iff.2 hfits⟩
    | hierarchy => exact ⟨hreserved, namesPackage_iff.2 hfits⟩
    | stem => exact hreserved

/-- Entries and their rules have the same exact polarities, in the same order, so the condition on
them is the same in both judgements. -/
theorem exactPolarities_map_rule (es : List Entry) :
    Rule.exactPolarities (es.map rule) = exactPolarities es := by
  induction es with
  | nil => rfl
  | cons e es ih =>
    cases e with
    | limit metric max => exact ih
    | exact p names => exact congrArg (p :: ·) ih
    | wildcard p scope text => exact ih

end Entry

/-! ### Chains -/

/-- What a stored chain needs besides, so that it has a specification. Every rule is spellable, and
a chain that ends in the empty name has an exact deny rule (`anchored`). -/
structure Chain.Spellable (c : Chain) : Prop where
  rules : ∀ r ∈ c.rules, r.Spellable
  anchored : c.endsInEmptyName = true → .deny ∈ Rule.exactPolarities c.rules

namespace Payload

/-- A sound payload carries a well-formed chain exactly when the chain is spellable. The condition
on the last rule is in both, since a payload passes it by its list of names and a chain by its
set. -/
theorem wellFormed_chain_iff {p : Payload} (h : p.Sound) :
    p.chain.WellFormed ↔ p.chain.Spellable := by
  have hrules : (∀ r ∈ p.chain.rules, r.WellFormed) ↔ ∀ r ∈ p.chain.rules, r.Spellable := by
    refine forall₂_congr fun r hr => ?_
    obtain ⟨e, he, rfl⟩ := List.mem_map.1 hr
    exact Entry.wellFormed_rule_iff (h.entries e he)
  constructor
  · intro hwf
    exact ⟨hrules.1 hwf.rules, hwf.anchored⟩
  · intro hspell
    refine ⟨?_, hrules.2 hspell.rules, ?_, hspell.anchored⟩
    · exact fun hnil => h.nonempty (List.map_eq_nil_iff.1 hnil)
    · show (Rule.exactPolarities (p.entries.map Entry.rule)).Nodup
      rw [Entry.exactPolarities_map_rule]
      exact h.nodup

@[simp] theorem chain_ofChain (c : Chain) (source : Option String) :
    (ofChain c source).chain = c := by
  show Chain.mk ((c.rules.map Entry.ofRule).map Entry.rule) = c
  rw [List.map_map, show Entry.rule ∘ Entry.ofRule = id from funext Entry.rule_ofRule, List.map_id]

/-- A chain and its payload end in the empty name together, because a set of one name is stored as a
list of one name. -/
theorem endsInEmptyName_ofChain (c : Chain) (source : Option String) :
    (ofChain c source).endsInEmptyName = c.endsInEmptyName := by
  unfold endsInEmptyName Chain.endsInEmptyName
  rw [show (ofChain c source).entries = c.rules.map Entry.ofRule from rfl, List.getLast?_map]
  cases c.rules.getLast? with
  | none => rfl
  | some r =>
    cases r with
    | limit metric max => rfl
    | wildcard p scope text => rfl
    | exact p names => cases p <;> rfl

/-- A well-formed chain is sound when it is stored, if its rules can be counted in 64 bits.
Otherwise the count in the payload would be wrong. -/
theorem sound_ofChain {c : Chain} (h : c.WellFormed) (hsize : c.size < 2 ^ 64)
    (source : Option String) : (ofChain c source).Sound := by
  have hpolarities : Entry.exactPolarities (ofChain c source).entries
      = Rule.exactPolarities c.rules := by
    rw [← Entry.exactPolarities_map_rule]
    exact congrArg (Rule.exactPolarities ·.rules) (chain_ofChain c source)
  refine ⟨?_, ?_, ?_, ?_, ?_⟩
  · -- The count is stored as a word, which has room for it.
    show (UInt64.ofNat c.size).toNat = (c.rules.map Entry.ofRule).length
    rw [UInt64.toNat_ofNat', Nat.mod_eq_of_lt hsize, List.length_map]
    rfl
  · exact fun hnil => h.nonempty (List.map_eq_nil_iff.1 hnil)
  · intro e he
    obtain ⟨r, hr, rfl⟩ := List.mem_map.1 he
    exact Entry.sound_ofRule (h.rules r hr)
  · rw [hpolarities]
    exact h.nodup
  · rw [endsInEmptyName_ofChain, hpolarities]
    exact h.anchored

end Payload

end ClassFilter
