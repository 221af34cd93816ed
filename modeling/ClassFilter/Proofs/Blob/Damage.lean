import ClassFilter.Proofs.Blob.RoundTrip

/-!
# `ClassFilter.Proofs.Blob.Damage`: a damaged blob is not taken for another chain

A blob is cut short, or some of its bytes are changed. Two of the fields in the header notice
this. The length says how many bytes must follow, and the checksum says which.

* `Blob.refused_of_unwrap`: an error of the header is the error of both readers, of the one that
  loads the chain and of the one that compares the source.
* `Blob.refused_take`: a blob that is cut short is refused, and the error counts what is left.
* `Blob.eq_or_collision_of_unwrap`: two blobs with one checksum vouch for the same payload, or for
  two payloads whose hashes begin alike. Nothing is assumed about the hash, so a collision is a
  conclusion here and not excluded beforehand.
* `Chain.toBlob_detects_damage`: the blob of a chain is refused when it is cut short. If its
  checksum is kept and all else is changed at will, then no other chain is loaded without such a
  collision.
-/

set_option autoImplicit false

namespace ClassFilter

namespace Blob

/-! ### Refusal by both readers -/

/-- Whether bytes are refused for this reason by both readers, by the one that loads the chain and
by the one that compares the source, whatever that source is. -/
def Refused (bytes : List UInt8) (e : BlobError) : Prop :=
  Chain.ofBlob bytes = .error e ∧ ∀ source, matchesSource bytes source = .error e

/-- A payload that cannot be read is refused by both readers. They begin with the same reading and
pass its error on unchanged. -/
theorem refused_of_readPayload {bytes : List UInt8} {e : BlobError}
    (h : readPayload bytes = .error e) : Refused bytes e := by
  refine ⟨?_, fun source => ?_⟩
  · rw [Chain.ofBlob, h]
    rfl
  · rw [matchesSource, h]
    rfl

/-- Bytes that the header does not vouch for are refused by both readers. The decoder is not
reached, so the error is that of the header. -/
theorem refused_of_unwrap {bytes : List UInt8} {e : BlobError} (h : unwrap bytes = .error e) :
    Refused bytes e := by
  refine refused_of_readPayload ?_
  rw [readPayload, h]
  rfl

/-! ### Missing bytes -/

/-- Without a whole header nothing else is looked at. The error has the length of a header and the
number of bytes that are there. -/
theorem unwrap_of_length_lt {bytes : List UInt8} (h : bytes.length < headerLength) :
    unwrap bytes = .error (.truncated headerLength bytes.length) :=
  if_pos h

/-- A blob that is cut short is refused. The error tells the header from the payload: in the header
32 bytes are needed and k are present, behind it the payload is needed and what is left of it
present. -/
theorem refused_take {payload : List UInt8} (h : payload.length < 2 ^ 32) (k : Nat) :
    (k < headerLength →
      Refused ((header payload ++ payload).take k) (.truncated headerLength k)) ∧
    (headerLength ≤ k → k < headerLength + payload.length →
      Refused ((header payload ++ payload).take k)
        (.truncated payload.length (k - headerLength))) := by
  refine ⟨fun hk => ?_, fun hheader hk => ?_⟩
  · have hlength : ((header payload ++ payload).take k).length = k := by
      rw [List.length_take, List.length_append, length_header]
      omega
    have hunwrap := unwrap_of_length_lt (hlength.trans_lt hk)
    rw [hlength] at hunwrap
    exact refused_of_unwrap hunwrap
  · -- The header is whole, and fewer bytes follow than it announces.
    have hcut : (header payload ++ payload).take k
        = header payload ++ payload.take (k - headerLength) := by
      rw [List.take_append, length_header, List.take_of_length_le]
      rwa [length_header]
    have hlength : (payload.take (k - headerLength)).length = k - headerLength := by
      rw [List.length_take]
      omega
    have hunwrap := unwrap_header h (payload.take (k - headerLength))
    rw [hlength, if_pos (by omega), ← hcut] at hunwrap
    exact refused_of_unwrap hunwrap

/-! ### Changed bytes -/

/-- Two blobs with one checksum vouch for the same payload, or for two whose hashes collide. The
checksum is the front half of a hash, so the collision that is meant is one of 16 bytes. -/
theorem eq_or_collision_of_unwrap {bytes other payload payload' : List UInt8}
    (h : unwrap bytes = .ok payload) (h' : unwrap other = .ok payload')
    (hchecksum : slice other 16 32 = slice bytes 16 32) :
    payload' = payload ∨ payload' ≠ payload ∧ checksum payload' = checksum payload := by
  obtain ⟨-, -, -, -, hown, -⟩ := unwrap_eq_ok_iff.1 h
  obtain ⟨-, -, -, -, hown', -⟩ := unwrap_eq_ok_iff.1 h'
  by_cases heq : payload' = payload
  · exact .inl heq
  · exact .inr ⟨heq, by rw [hown', hown, hchecksum]⟩

end Blob

/-- The blob of the chain that denies the class name `a.B`, without a source. Its payload has ten
bytes. -/
def Blob.ofDeniedName : List UInt8 :=
  [0x55, 0x4D, 0x46, 0x4C, 0x01, 0x00, 0x01, 0x00, 0x00, 0x00, 0x00, 0x00, 0x0A, 0x00, 0x00, 0x00,
    0xDD, 0xC8, 0xD2, 0xB2, 0x20, 0x30, 0x4C, 0xD2, 0xE9, 0xBD, 0x27, 0xE9, 0x44, 0xBB, 0x65, 0x10,
    0x01, 0x00, 0x01, 0x01, 0x01, 0x01, 0x03, 0x61, 0x2E, 0x42]

namespace Chain

open Blob (Refused slice unwrap checksum headerLength)

/-- Damage to a blob is detected. A chain whose payload is below 4 GiB has a blob. Cut short, it is
refused, with the number of bytes that were needed and of those that were present. Any bytes with
its checksum give no chain but this one, or they vouch for another payload whose hash begins in the
same way. -/
theorem toBlob_detects_damage (c : Chain) (source : Option String)
    (hlength : (Payload.ofChain c source).write.length < 2 ^ 32) :
    ∃ bytes payload, c.toBlob source = .ok bytes ∧ unwrap bytes = .ok payload ∧
      bytes.length = headerLength + payload.length ∧
      (∀ k < headerLength, Refused (bytes.take k) (.truncated headerLength k)) ∧
      (∀ k, headerLength ≤ k → k < bytes.length →
        Refused (bytes.take k) (.truncated payload.length (k - headerLength))) ∧
      ∀ other c', slice other 16 32 = slice bytes 16 32 → ofBlob other = .ok c' →
        c' = c ∨ ∃ payload', unwrap other = .ok payload' ∧ payload' ≠ payload ∧
          (Blake3.hash payload').val.take 16 = (Blake3.hash payload).val.take 16 := by
  generalize hpayload : (Payload.ofChain c source).write = payload at hlength
  have hunwrap := Blob.unwrap_header_append hlength []
  rw [List.append_nil] at hunwrap
  have hblob : c.toBlob source = .ok (Blob.header payload ++ payload) := by
    rw [toBlob_eq_ok_iff, hpayload]
    exact ⟨hlength, rfl⟩
  have hsize : (Blob.header payload ++ payload).length = headerLength + payload.length := by
    rw [List.length_append, Blob.length_header]
  refine ⟨_, payload, hblob, hunwrap, hsize, fun k hk => (Blob.refused_take hlength k).1 hk,
    fun k hheader hk => (Blob.refused_take hlength k).2 hheader (hsize ▸ hk), ?_⟩
  intro other c' hchecksum hload
  obtain ⟨p, hread, -, rfl⟩ := ofBlob_eq_ok_iff.1 hload
  obtain ⟨payload', hunwrap', hdecode⟩ := Blob.readPayload_eq_ok_iff.1 hread
  rcases Blob.eq_or_collision_of_unwrap hunwrap hunwrap' hchecksum with rfl | ⟨hne, hcollide⟩
  · -- The decoder sees nothing but the payload, so it gives what was stored.
    obtain ⟨payload'', hagain, hdecode'⟩ := Blob.readPayload_eq_ok_iff.1 (readPayload_toBlob hblob)
    obtain rfl : payload'' = payload' := Except.ok.inj (hagain.symm.trans hunwrap)
    obtain rfl : p = Payload.ofChain c source := Except.ok.inj (hdecode.symm.trans hdecode')
    exact .inl (Payload.chain_ofChain c source)
  · exact .inr ⟨payload', hunwrap', hne, hcollide⟩

/-- The blob of a denied class, cut in the header, cut in the payload, and with other bytes in the
fields that are not read and one more at its end. -/
theorem toBlob_detects_damage_denied_name :
    (Payload.ofChain ⟨[.exact .deny (.singleton "a.B")]⟩ none).write.length < 2 ^ 32 ∧
      ∃ bytes payload, Chain.toBlob ⟨[.exact .deny (.singleton "a.B")]⟩ none = .ok bytes ∧
        unwrap bytes = .ok payload ∧ Refused (bytes.take 31) (.truncated 32 31) ∧
        Refused (bytes.take 41) (.truncated 10 9) ∧
        ∃ other c', other ≠ bytes ∧ slice other 16 32 = slice bytes 16 32 ∧ ofBlob other = .ok c' ∧
          (c' = ⟨[.exact .deny (.singleton "a.B")]⟩ ∨ ∃ payload', unwrap other = .ok payload' ∧
            payload' ≠ payload ∧
              (Blake3.hash payload').val.take 16 = (Blake3.hash payload).val.take 16) := by
  have hlength :
      (Payload.ofChain ⟨[.exact .deny (.singleton "a.B")]⟩ none).write.length < 2 ^ 32 := by
    decide
  obtain ⟨bytes, payload, hblob, hunwrap, hsize, hheader, hbody, hchanged⟩ :=
    toBlob_detects_damage ⟨[.exact .deny (.singleton "a.B")]⟩ none hlength
  obtain rfl : bytes = Blob.ofDeniedName := by
    refine Except.ok.inj (hblob.symm.trans ?_)
    decide +kernel
  have hten : payload.length = 10 := by
    simp only [Blob.ofDeniedName, List.length_cons, List.length_nil, headerLength] at hsize
    omega
  have hother : ofBlob (Blob.ofDeniedName.take 6 ++ List.replicate 6 0xEE ++
      Blob.ofDeniedName.drop 12 ++ [0x07]) = .ok ⟨[.exact .deny (.singleton "a.B")]⟩ := by
    decide +kernel
  refine ⟨hlength, _, payload, hblob, hunwrap, hheader 31 (by decide), ?_, _, _, ?_, ?_, hother,
    hchanged _ _ rfl hother⟩
  · rw [← hten]
    exact hbody 41 (by decide) (by decide)
  · decide
  · rfl

end Chain

end ClassFilter
