import ClassFilter.Proofs.Blob.Header
import ClassFilter.Proofs.Payload.RoundTrip
import ClassFilter.Proofs.Payload.Spelling

/-!
# `ClassFilter.Proofs.Blob.RoundTrip`: a chain is loaded back from its blob

A chain goes through three stages on its way to a blob and back: it is stored as a
payload, the payload is written, and a header is put before it. Each stage has its own
round trip, and they are put together here:

* `Chain.toBlob_eq_ok_iff`: a chain has a blob if its payload is below 4 GiB.
* `Chain.readPayload_of_toBlob`: the payload that was stored is read from the blob.
* `Chain.ofBlob_eq_ok_iff`: what is loaded is the chain of a sound payload.
* `Chain.ofBlob_header_append`: a well-formed chain is loaded back, whatever follows its
  blob.
* `Chain.exists_ofBlob_toBlob`: so every compiled chain is.
-/

set_option autoImplicit false

namespace ClassFilter

/-- The rules of a chain can be counted in as many bits as the bytes of its payload, since each
entry has a byte. The count that a payload holds is therefore never too large for its field. -/
theorem Payload.size_lt_of_length_write {c : Chain} {source : Option String} {bound : Nat}
    (h : (Payload.ofChain c source).write.length < bound) : c.size < bound := by
  have hcount : (Payload.ofChain c source).entries.length = c.size := List.length_map _
  have hentries : (Payload.ofChain c source).entries.length
      ≤ ((Payload.ofChain c source).entries.flatMap Entry.write).length :=
    Wire.Reads.length_le_length_flatMap fun e _ => e.write_ne_nil
  -- The entries are a part of the payload, and each has a byte.
  simp only [Payload.write, Wire.Writer.list, List.length_append] at h
  omega

namespace Chain

/-- A chain has a blob if the header can announce the length of its payload, and the blob is then
the header and the payload. It is the only condition, as the chain is not judged when it is
stored. -/
theorem toBlob_eq_ok_iff {c : Chain} {source : Option String} {bytes : List UInt8} :
    c.toBlob source = .ok bytes ↔
      (Payload.ofChain c source).write.length < 2 ^ 32 ∧
        Blob.header (Payload.ofChain c source).write ++ (Payload.ofChain c source).write
          = bytes := by
  rw [toBlob, Blob.wrap]
  by_cases h : (Payload.ofChain c source).write.length < 0x100000000
  · rw [if_pos h, Except.ok.injEq]
    exact (and_iff_right h).symm
  · rw [if_neg h]
    constructor
    · intro hbytes
      cases hbytes
    · intro ⟨hlength, _⟩
      exact absurd hlength h

/-- The payload that was stored is read from the blob, whatever follows it. It needs nothing of the
chain but that it has a blob. -/
theorem readPayload_of_toBlob {c : Chain} {source : Option String} {bytes : List UInt8}
    (h : c.toBlob source = .ok bytes) (rest : List UInt8) :
    Blob.readPayload (bytes ++ rest) = .ok (Payload.ofChain c source) := by
  obtain ⟨hlength, rfl⟩ := toBlob_eq_ok_iff.1 h
  have hdecode := Payload.decode_write (Nat.lt_trans hlength (by omega)) []
  rw [List.append_nil] at hdecode
  rw [List.append_assoc]
  exact Blob.readPayload_eq_ok_iff.2 ⟨_, Blob.unwrap_header_append hlength rest, hdecode⟩

/-- The payload that was stored is read from the blob itself, the case that nothing follows. -/
theorem readPayload_toBlob {c : Chain} {source : Option String} {bytes : List UInt8}
    (h : c.toBlob source = .ok bytes) :
    Blob.readPayload bytes = .ok (Payload.ofChain c source) := by
  have hread := readPayload_of_toBlob h []
  rwa [List.append_nil] at hread

/-- What is loaded from a blob is the chain of a sound payload. It joins the reader of bytes with
the judgement, which are looked at separately from here on. -/
theorem ofBlob_eq_ok_iff {bytes : List UInt8} {c : Chain} :
    ofBlob bytes = .ok c ↔
      ∃ p, Blob.readPayload bytes = .ok p ∧ p.Sound ∧ p.chain = c := by
  rw [ofBlob, Result.bind_eq_ok_iff]
  simp only [Result.mapError_eq_ok_iff, Payload.toChain_eq_ok_iff]

/-- A well-formed chain is loaded back, whatever follows its blob. Being well-formed is what makes
its payload sound, in particular for a last rule of the empty name. -/
theorem ofBlob_header_append {c : Chain} (h : c.WellFormed) (source : Option String)
    (hlength : (Payload.ofChain c source).write.length < 2 ^ 32) (rest : List UInt8) :
    ofBlob (Blob.header (Payload.ofChain c source).write ++
      ((Payload.ofChain c source).write ++ rest)) = .ok c := by
  have hsize : c.size < 2 ^ 64 :=
    Nat.lt_trans (Payload.size_lt_of_length_write hlength) (by omega)
  have hread := readPayload_of_toBlob (toBlob_eq_ok_iff.2 ⟨hlength, rfl⟩) rest
  rw [List.append_assoc] at hread
  exact ofBlob_eq_ok_iff.2 ⟨_, hread, Payload.sound_ofChain h hsize source,
    Payload.chain_ofChain c source⟩

/-- Every compiled chain whose payload is below 4 GiB has a blob, and is loaded from it. The source
may be any text or none, as it is recorded and not compiled. -/
theorem exists_ofBlob_toBlob {spec : String} {c : Chain} (h : compile spec = .ok c)
    (source : Option String) (hlength : (Payload.ofChain c source).write.length < 2 ^ 32) :
    ∃ bytes, c.toBlob source = .ok bytes ∧ ofBlob bytes = .ok c := by
  have hload := ofBlob_header_append (wellFormed_of_compile h) source hlength []
  rw [List.append_nil] at hload
  exact ⟨_, toBlob_eq_ok_iff.2 ⟨hlength, rfl⟩, hload⟩

/-- The theorem at a limit, a denied package and the empty name, with the hash of their
specification. -/
theorem exists_ofBlob_toBlob_limit :
    compile "maxdepth=300;;!a.*;b.C" = .ok ⟨[.limit .depth 300, .exact .allow (.ofList ["", "b.C"]),
        .wildcard .deny .package "a."]⟩ ∧
      ∃ bytes, Chain.toBlob ⟨[.limit .depth 300, .exact .allow (.ofList ["", "b.C"]),
          .wildcard .deny .package "a."]⟩ (some "maxdepth=300;;!a.*;b.C") = .ok bytes ∧
        ofBlob bytes = .ok ⟨[.limit .depth 300, .exact .allow (.ofList ["", "b.C"]),
          .wildcard .deny .package "a."]⟩ := by
  have h : compile "maxdepth=300;;!a.*;b.C" = .ok ⟨[.limit .depth 300,
      .exact .allow (.ofList ["", "b.C"]), .wildcard .deny .package "a."]⟩ := by
    decide
  exact ⟨h, exists_ofBlob_toBlob h (some "maxdepth=300;;!a.*;b.C") (by decide +kernel)⟩

end Chain

end ClassFilter
