import ClassFilter.Proofs.Chain.Compiled
import ClassFilter.Proofs.Element.Production

/-!
# `ClassFilter.Proofs.Chain.Single`: specifications of one element

A text that is not empty and holds no separator is the only element of the specification it
is. Compiling it does no more than reading it:

* `Chain.compile_single`: the chain is the rule of what the text is read as.
* `Chain.compile_iff_existsUnique_production`: so such a text compiles exactly when it has a
  production, which is the only one then, and the chain is the rule of the production.
-/

set_option autoImplicit false

namespace ClassFilter

/-- A text without a separator is the only element, unless it is empty. The empty text would be an
empty element at the end, which is dropped. -/
theorem Text.Separated.elements_single {text : String} (hne : text ≠ "") (hsep : ';' ∉ text.toList) :
    elements text = [text] := by
  have hjoin : join [text] = text := by simp [join]
  have helements : elements (join [text]) = [text] :=
    elements_join (List.forall_mem_singleton.2 hsep) (by simpa using hne)
  rwa [hjoin] at helements

/-- An element makes one rule when it stands alone. For a class name it is the set of this name. -/
theorem Rule.gather_single (e : Element) : gather [] [e] = [ofElement e] := by
  cases e <;> rfl

namespace Chain

/-- A single element compiles to its rule, and an error is that of reading it. So facts about
reading an element are facts about specifications of one element. -/
theorem compile_single {text : String} (hne : text ≠ "") (hsep : ';' ∉ text.toList) :
    compile text = (Element.parse text).map fun e => ⟨[.ofElement e]⟩ := by
  have helements := Text.Separated.elements_single hne hsep
  cases hparse : Element.parse text with
  | ok e =>
    refine compile_eq_ok_iff.2 ⟨[e], by simp, ?_, (Rule.gather_single e).symm⟩
    rw [helements, List.map_singleton, hparse]
    rfl
  | error err =>
    exact compile_eq_error_iff.2 (.inr ⟨[], text, [], helements, List.forall_mem_nil _, hparse⟩)

/-- The grammar is accepted exactly and read in one way. A text without a separator compiles exactly
when it has one production and no more, and then to the rule of that production. No text at all has
two. -/
theorem compile_iff_existsUnique_production {text : String} (hne : text ≠ "")
    (hsep : ';' ∉ text.toList) :
    ((∃ c, compile text = .ok c) ↔ ∃! r : Element.Production, r.text = text) ∧
    (∀ r : Element.Production, r.text = text → compile text = .ok ⟨[.ofElement r.element]⟩) ∧
    ∀ r r' : Element.Production, r.text = r'.text → r = r' := by
  have hcompile : ∀ r : Element.Production, r.text = text →
      compile text = .ok ⟨[.ofElement r.element]⟩ := by
    intro r hr
    have hparse := r.parse_text
    rw [hr] at hparse
    rw [compile_single hne hsep, hparse]
    rfl
  refine ⟨⟨?_, ?_⟩, hcompile, fun r r' h => Element.Production.text_injective h⟩
  · intro ⟨c, hc⟩
    rw [compile_single hne hsep, Result.map_eq_ok_iff] at hc
    obtain ⟨e, hparse, -⟩ := hc
    obtain ⟨r, hr, -⟩ := Element.exists_production_of_parse hne hparse
    exact ⟨r, hr, fun r' hr' => Element.Production.text_injective (hr'.trans hr.symm)⟩
  · intro ⟨r, hr, _⟩
    exact ⟨_, hcompile r hr⟩

/-- A bound with a plus sign has one production, and so has a denied hierarchy whose package
begins with a second `!`. -/
theorem compile_iff_existsUnique_production_signed :
    (∃! r : Element.Production, r.text = "maxdepth=+7") ∧
      compile "maxdepth=+7" = .ok ⟨[.limit .depth 7]⟩ ∧
    (∃! r : Element.Production, r.text = "!!a.**") ∧
      compile "!!a.**" = .ok ⟨[.wildcard .deny .hierarchy "!a."]⟩ := by
  have hseven : Text.Decimal.Natural "+7".toList (7 : UInt64).toNat :=
    .plus ⟨'7', [], rfl, by decide, List.forall_mem_nil _⟩
  have hpackage : Polarity.deny.Precedes "!a." := ⟨by decide, by decide, by decide, nofun⟩
  obtain ⟨hlimit, hlimit', -⟩ :=
    compile_iff_existsUnique_production (show "maxdepth=+7" ≠ "" by decide) (by decide)
  obtain ⟨hclass, hclass', -⟩ :=
    compile_iff_existsUnique_production (show "!!a.**" ≠ "" by decide) (by decide)
  have hdepth := hlimit' (.limit .depth "+7" 7 hseven (by decide)) rfl
  have hdeny := hclass' (.wildcard .deny .hierarchy "!a." hpackage ⟨rfl, by decide⟩) rfl
  exact ⟨hlimit.1 ⟨_, hdepth⟩, hdepth, hclass.1 ⟨_, hdeny⟩, hdeny⟩

end Chain

end ClassFilter
