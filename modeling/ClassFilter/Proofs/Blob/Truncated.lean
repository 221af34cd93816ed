import ClassFilter.Proofs.Blob.Damage
import ClassFilter.Proofs.Payload.Delimited

/-!
# `ClassFilter.Proofs.Blob.Truncated`: a shorter payload is no payload

The checksum of a blob can be computed again by anyone, so it does not keep a payload from being cut
short. The payload does: it tells where it ends.

* `Blob.refused_header_append`: bytes that are no payload are refused even behind a header of their
  own.
* `Payload.decode_self_delimiting`: what the bytes of a payload, a part of them and more than them
  are decoded to.
* `Payload.decode_renamed`: the one answer that depends on bytes behind it.
-/

set_option autoImplicit false

namespace ClassFilter

/-- Bytes that are no payload are refused behind a header of their own. The header vouches for them,
so the error is that of the decoder, for both readers. -/
theorem Blob.refused_header_append {payload : List UInt8} {e : Wire.DecodeError}
    (hlength : payload.length < 2 ^ 32) (h : Payload.decode payload = .error e)
    (rest : List UInt8) : Refused (header payload ++ (payload ++ rest)) (.payload e) := by
  refine refused_of_readPayload ?_
  rw [readPayload, unwrap_header_append hlength]
  show (Payload.decode payload).mapError BlobError.payload = _
  rw [h]
  rfl

namespace Payload

open Blob (Refused header)

/-- A payload tells where it ends. Its bytes are decoded to it, whatever follows them. Given fewer
of them the decoder asks for more, and so a header that is made for fewer of them gives no chain.
The answer to any bytes is kept when more are added, unless it asks for more. The exception is a
word that is too wide: the error names it a tag as soon as eight bytes follow its first. -/
theorem decode_self_delimiting (p : Payload) (hlength : p.write.length < 2 ^ 64)
    (bytes : List UInt8) :
    (∀ rest, decode (p.write ++ rest) = .ok p) ∧
    (∀ k < p.write.length, ∃ additional,
      decode (p.write.take k) = .error (.unexpectedEnd additional) ∧
      (k < 2 ^ 32 → ∀ rest, Refused (header (p.write.take k) ++ (p.write.take k ++ rest))
        (.payload (.unexpectedEnd additional)))) ∧
    ((∀ additional, decode bytes ≠ .error (.unexpectedEnd additional)) →
      ((∀ rest, decode (bytes ++ rest) = decode bytes) ↔
        ∀ found, decode bytes ≠ .error (.numberTooWide .word found))) ∧
    ∀ found, decode bytes = .error (.numberTooWide .word found) →
      ∃ following < 8, ∀ rest, decode (bytes ++ rest) = .error (.numberTooWide
        (if following + rest.length < 8 then .word else .tag) found) := by
  refine ⟨decode_write hlength, fun k hk => ?_, decode_append_iff,
    fun found => decode_append_of_tooWide⟩
  obtain ⟨additional, hshort⟩ := exists_decode_take hlength hk
  refine ⟨additional, hshort, fun hfits rest => Blob.refused_header_append ?_ hshort rest⟩
  rwa [List.length_take_of_le (Nat.le_of_lt hk)]

/-- A denied class: all of its bytes with one more, and all but one of them behind a header. An
answer that is kept, and one that is not. -/
theorem decode_self_delimiting_denied_name :
    (Payload.mk 1 none [.exact .deny ["a.B"]]).write.length < 2 ^ 64 ∧
    decode [0x01, 0x00, 0x01, 0x01, 0x01, 0x01, 0x03, 0x61, 0x2E, 0x42, 0x07]
      = .ok ⟨1, none, [.exact .deny ["a.B"]]⟩ ∧
    (∃ additional, Refused (header [0x01, 0x00, 0x01, 0x01, 0x01, 0x01, 0x03, 0x61, 0x2E] ++
      [0x01, 0x00, 0x01, 0x01, 0x01, 0x01, 0x03, 0x61, 0x2E])
        (.payload (.unexpectedEnd additional))) ∧
    decode [0x01, 0x02, 0x07] = decode [0x01, 0x02] ∧
    decode [0xFE, 0, 0, 0, 0, 0, 0, 0, 0] = .error (.numberTooWide .tag .sixteenBytes) := by
  have h : (Payload.mk 1 none [.exact .deny ["a.B"]]).write.length < 2 ^ 64 := by decide
  obtain ⟨hmore, hless, hkept, -⟩ := decode_self_delimiting _ h [0x01, 0x02]
  obtain ⟨-, -, -, hwide⟩ := decode_self_delimiting _ h [0xFE]
  obtain ⟨additional, -, hrefused⟩ := hless 9 (by decide)
  obtain ⟨following, -, hname⟩ := hwide .sixteenBytes rfl
  have height := hname [0, 0, 0, 0, 0, 0, 0, 0]
  rw [if_neg (by simp)] at height
  exact ⟨h, hmore [0x07], ⟨additional, hrefused (by decide) []⟩,
    (hkept fun _ h => nomatch h).2 (fun _ h => nomatch h) [0x07], height⟩

/-- The answer to a word of sixteen bytes does not ask for more, and is another one when eight bytes
are added. -/
theorem decode_renamed :
    (∀ additional, decode [0xFE] ≠ .error (.unexpectedEnd additional)) ∧
      decode ([0xFE] ++ [0, 0, 0, 0, 0, 0, 0, 0]) ≠ decode [0xFE] :=
  ⟨(fun _ h => nomatch h), by decide⟩

end Payload

end ClassFilter
