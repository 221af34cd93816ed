import ClassFilter.Proofs.Blob.RoundTrip

/-!
# `ClassFilter.Proofs.Blob.Freshness`: a stored chain is that of the current specification

A blob can record the hash of the specification that its chain was compiled from. A caller who
holds a text compares it with the record, and compiles the text only if they differ. The comparison
does not look at the chain, and nothing in the blob says that the recorded specification compiles to
it. That it does is a matter of how the blob was made.

* `Blob.matchesSource_of_toBlob`: the comparison gives whether the hash of the text is the one that
  was recorded, and never an error.
* `Chain.matchesSource_never_stale`: if a chain is stored with its own specification, then a text
  that matches compiles to the chain that is loaded. The exception is another text with the same
  hash, which is named and not assumed away.
-/

set_option autoImplicit false

namespace ClassFilter

/-- The comparison is with the recorded hash, and a blob that was stored here never makes it fail.
Without a record there is no match, whatever the text is. -/
theorem Blob.matchesSource_of_toBlob {c : Chain} {source : Option String} {bytes : List UInt8}
    (h : c.toBlob source = .ok bytes) (text : String) :
    matchesSource bytes text
      = .ok (decide (source.map (fun recorded => Blake3.hash (Text.Utf8.encode recorded))
        = some (Blake3.hash (Text.Utf8.encode text)))) := by
  rw [matchesSource, Chain.readPayload_toBlob h]
  show Except.ok (source.map Payload.digestOf == some (Payload.digestOf text)) = _
  rw [beq_eq_decide]
  rfl

namespace Chain

open Blob (matchesSource)

/-- A match is never stale. A compiled chain is stored with its specification. A text matches
exactly when its hash is that of the specification. Then it compiles to the chain that is loaded,
unless it is another text with the same hash. No text matches a chain that is stored without a
specification, and what matches does not depend on the chain. -/
theorem matchesSource_never_stale {spec : String} {c : Chain} (h : compile spec = .ok c)
    (hlength : (Payload.ofChain c (some spec)).write.length < 2 ^ 32) (text : String) :
    (∃ bytes, c.toBlob (some spec) = .ok bytes ∧
      matchesSource bytes text
        = .ok (decide (Blake3.hash (Text.Utf8.encode spec) = Blake3.hash (Text.Utf8.encode text))) ∧
      (matchesSource bytes text = .ok true →
        (compile text = .ok c ∧ ofBlob bytes = .ok c) ∨
          text ≠ spec ∧
            Blake3.hash (Text.Utf8.encode text) = Blake3.hash (Text.Utf8.encode spec))) ∧
    (∀ d stored, toBlob d none = .ok stored → matchesSource stored text = .ok false) ∧
    ∀ d d' source stored stored', toBlob d source = .ok stored →
      toBlob d' source = .ok stored' → matchesSource stored text = matchesSource stored' text := by
  have hblob := toBlob_eq_ok_iff.2 ⟨hlength, rfl⟩
  have hmatch := Blob.matchesSource_of_toBlob hblob text
  simp only [Option.map_some, Option.some.injEq] at hmatch
  refine ⟨⟨_, hblob, hmatch, fun hhit => ?_⟩, fun d stored hstored => ?_,
    fun d d' source stored stored' hstored hstored' => ?_⟩
  · -- The hashes agree, so the texts do, or there are two of one hash.
    rw [hmatch, Except.ok.injEq, decide_eq_true_iff] at hhit
    by_cases htext : text = spec
    · have hload := ofBlob_header_append (wellFormed_of_compile h) (some spec) hlength []
      rw [List.append_nil] at hload
      exact .inl ⟨htext ▸ h, hload⟩
    · exact .inr ⟨htext, hhit.symm⟩
  · rw [Blob.matchesSource_of_toBlob hstored]
    rfl
  · rw [Blob.matchesSource_of_toBlob hstored, Blob.matchesSource_of_toBlob hstored']

/-- A limit and a denied class. Their own text matches, a text with another bound does not, and
nothing matches without a record. A limit alone, stored with the same text, matches it as well. -/
theorem matchesSource_never_stale_limit :
    compile "maxdepth=3;!a.B" = .ok ⟨[.limit .depth 3, .exact .deny (.ofList ["a.B"])]⟩ ∧
      ∃ bytes other unrecorded,
        toBlob ⟨[.limit .depth 3, .exact .deny (.ofList ["a.B"])]⟩ (some "maxdepth=3;!a.B")
          = .ok bytes ∧
        toBlob ⟨[.limit .depth 3]⟩ (some "maxdepth=3;!a.B") = .ok other ∧
        toBlob ⟨[.limit .depth 3]⟩ none = .ok unrecorded ∧
        matchesSource bytes "maxdepth=3;!a.B" = .ok true ∧
        ofBlob bytes = .ok ⟨[.limit .depth 3, .exact .deny (.ofList ["a.B"])]⟩ ∧
        matchesSource bytes "maxdepth=4;!a.B" = .ok false ∧
        matchesSource other "maxdepth=3;!a.B" = .ok true ∧
        matchesSource unrecorded "maxdepth=3;!a.B" = .ok false := by
  have h : compile "maxdepth=3;!a.B"
      = .ok ⟨[.limit .depth 3, .exact .deny (.ofList ["a.B"])]⟩ := by
    decide
  have hlength : (Payload.ofChain ⟨[.limit .depth 3, .exact .deny (.ofList ["a.B"])]⟩
      (some "maxdepth=3;!a.B")).write.length < 2 ^ 32 := by
    decide +kernel
  have hdiffer : Blake3.hash (Text.Utf8.encode "maxdepth=3;!a.B")
      ≠ Blake3.hash (Text.Utf8.encode "maxdepth=4;!a.B") := by
    decide +kernel
  obtain ⟨⟨bytes, hblob, hmatch, hfresh⟩, hnone, hchain⟩ :=
    matchesSource_never_stale h hlength "maxdepth=3;!a.B"
  obtain ⟨⟨bytes', hblob', hmatch', -⟩, -, -⟩ :=
    matchesSource_never_stale h hlength "maxdepth=4;!a.B"
  obtain rfl : bytes' = bytes := Except.ok.inj (hblob'.symm.trans hblob)
  rw [decide_eq_true rfl] at hmatch
  rw [decide_eq_false hdiffer] at hmatch'
  obtain ⟨other, hother⟩ :
      ∃ other, toBlob ⟨[.limit .depth 3]⟩ (some "maxdepth=3;!a.B") = .ok other :=
    ⟨_, toBlob_eq_ok_iff.2 ⟨by decide +kernel, rfl⟩⟩
  obtain ⟨unrecorded, hunrecorded⟩ :
      ∃ unrecorded, toBlob ⟨[.limit .depth 3]⟩ none = .ok unrecorded :=
    ⟨_, toBlob_eq_ok_iff.2 ⟨by decide, rfl⟩⟩
  have hload := (hfresh hmatch).resolve_right fun hcollision => hcollision.1 rfl
  exact ⟨h, bytes', other, unrecorded, hblob, hother, hunrecorded, hmatch, hload.2, hmatch',
    (hchain _ _ _ _ _ hother hblob).trans hmatch, hnone _ _ hunrecorded⟩

end Chain

end ClassFilter
