import ClassFilter.Proofs.Blob.RoundTrip

/-!
# `ClassFilter.Proofs.Blob.Language`: loaded chains and the language

A blob is judged when it is loaded, but not by everything that the language demands. So a
loaded chain need not have a specification.

* `Chain.compile_iff_of_ofBlob`: it has one exactly when it is spellable, and then its
  text is one.
* `Chain.ofBlob_marked`: a blob that allows the package `!x`, which no specification does.
  Its text denies the package `x`.
-/

set_option autoImplicit false

namespace ClassFilter

/-- A blob whose only entry allows the class name `a.B`. This is a rule that the grammar has too. -/
def Blob.ofOneName : List UInt8 :=
  [0x55, 0x4D, 0x46, 0x4C, 0x01, 0x00, 0x01, 0x00, 0x00, 0x00, 0x00, 0x00, 0x0A, 0x00, 0x00, 0x00,
    0x54, 0x96, 0x02, 0x99, 0x08, 0xC2, 0xC2, 0xE5, 0xD3, 0x0D, 0x27, 0xF1, 0xDC, 0x96, 0xEE, 0x44,
    0x01, 0x00, 0x01, 0x01, 0x00, 0x01, 0x03, 0x61, 0x2E, 0x42]

/-- A blob whose only entry allows the package `!x` and everything below it. In a specification the
mark at the front would be taken for that of a denial. -/
def Blob.ofMarkedHierarchy : List UInt8 :=
  [0x55, 0x4D, 0x46, 0x4C, 0x01, 0x00, 0x01, 0x00, 0x00, 0x00, 0x00, 0x00, 0x09, 0x00, 0x00, 0x00,
    0xBE, 0x86, 0xBF, 0x43, 0x1F, 0xC3, 0xB0, 0x4D, 0xB0, 0xFA, 0x88, 0x54, 0x97, 0xE5, 0x4C, 0x2C,
    0x01, 0x00, 0x01, 0x03, 0x00, 0x03, 0x21, 0x78, 0x2E]

namespace Chain

/-- A loaded chain has a specification exactly when it is spellable. It is compiled from its text in
that case, and in no other, so the text need not be searched for another one. -/
theorem compile_iff_of_ofBlob {bytes : List UInt8} {c : Chain} (h : ofBlob bytes = .ok c) :
    ((∃ spec, compile spec = .ok c) ↔ c.Spellable) ∧ (compile c.text = .ok c ↔ c.Spellable) := by
  obtain ⟨p, -, hsound, rfl⟩ := ofBlob_eq_ok_iff.1 h
  rw [exists_compile_eq_ok_iff, compile_text_eq_ok_iff]
  exact ⟨Payload.wellFormed_chain_iff hsound, Payload.wellFormed_chain_iff hsound⟩

/-- The theorem at a class name, which is spellable, so the chain of its blob is compiled from its
own text. -/
theorem compile_iff_of_ofBlob_name :
    ofBlob Blob.ofOneName = .ok ⟨[.exact .allow (.singleton "a.B")]⟩ ∧
      Spellable ⟨[.exact .allow (.singleton "a.B")]⟩ ∧
      compile (text ⟨[.exact .allow (.singleton "a.B")]⟩)
        = .ok ⟨[.exact .allow (.singleton "a.B")]⟩ := by
  have h : ofBlob Blob.ofOneName = .ok ⟨[.exact .allow (.singleton "a.B")]⟩ := by
    decide +kernel
  have hspell : Spellable ⟨[.exact .allow (.singleton "a.B")]⟩ := by
    refine ⟨fun r hr => ?_, fun hend => ?_⟩
    · obtain rfl := List.mem_singleton.1 hr
      intro name hname
      obtain rfl := NameSet.mem_singleton.1 hname
      decide
    · exact absurd hend (by decide)
  exact ⟨h, hspell, (compile_iff_of_ofBlob h).2.2 hspell⟩

/-- This blob is loaded, because loading does not look for a marker at the front of a text. No
specification compiles to its chain: the text of the chain reads as a denial of the package `x`. -/
theorem ofBlob_marked :
    ∃ c, ofBlob Blob.ofMarkedHierarchy = .ok c ∧ (¬ ∃ spec, compile spec = .ok c) ∧
      compile c.text = .ok ⟨[.wildcard .deny .hierarchy "x."]⟩ := by
  have hload : ofBlob Blob.ofMarkedHierarchy = .ok ⟨[.wildcard .allow .hierarchy "!x."]⟩ := by
    decide +kernel
  refine ⟨_, hload, ?_, by decide⟩
  rw [exists_compile_eq_ok_iff]
  intro hwf
  -- A well-formed text to allow does not begin with the marker of a denied one.
  obtain ⟨⟨-, hmarker⟩, -⟩ := Rule.wellFormed_wildcard_iff.1 (hwf.rules _ (List.mem_singleton.2 rfl))
  exact hmarker rfl rfl

end Chain

end ClassFilter
