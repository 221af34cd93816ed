import ClassFilter.Blob
import ClassFilter.Proofs.LittleEndian
import ClassFilter.Proofs.Result

/-!
# `ClassFilter.Proofs.Blob.Header`: a payload is unwrapped from behind its header

The header has fields of fixed width, and each check of `Blob.unwrap` looks at one of
them:

* `slice_append`: a field is found at its place.
* `length_header`: a header has 32 bytes.
* `unwrap_header`: which checks are left for the bytes that follow a header.
* `unwrap_header_append`: a payload that the header can announce passes every check, and
  what follows it does not matter.
* `unwrap_eq_ok_iff`: what all the checks together say about a payload that is unwrapped.
* `length_of_unwrap`: so it is no longer than the header can announce.
* `readPayload_eq_ok_iff`, `ofBlob_of_readPayload`: what follows once a payload is unwrapped.
-/

set_option autoImplicit false

namespace ClassFilter.Blob

/-! ### Fields -/

/-- The bytes between two offsets are the field that stands there, if the offsets are the lengths of
what is before it and of what ends with it. The fields of a header are read with it one by one. -/
theorem slice_append {front field rest : List UInt8} {start stop : Nat}
    (hstart : front.length = start) (hstop : start + field.length = stop) :
    slice (front ++ (field ++ rest)) start stop = field := by
  rw [slice, ← hstart, List.drop_left, ← hstop, hstart, Nat.add_sub_cancel_left, List.take_left]

theorem length_checksum (payload : List UInt8) : (checksum payload).length = 16 := by
  rw [checksum, List.length_take, (Blake3.hash payload).property]
  rfl

theorem length_header (payload : List UInt8) : (header payload).length = headerLength := by
  simp only [header, List.length_append, LittleEndian.length_bytes, length_checksum]
  rfl

/-- The four letters stand first, and they are the first thing `unwrap` compares in a whole
header. -/
theorem slice_header_magic (payload rest : List UInt8) :
    slice (header payload ++ rest) 0 4 = magic := rfl

/-- Behind the letters comes the version of the layout, two bytes with the least significant one
first. -/
theorem slice_header_layout (payload rest : List UInt8) :
    slice (header payload ++ rest) 4 6 = LittleEndian.bytes 2 layoutVersion := rfl

/-- The length of the payload stands behind two fields that are not read, at the offsets 12 to 16.
It is the length of this payload only below 4 GiB, hence the hypotheses further on. -/
theorem slice_header_length (payload rest : List UInt8) :
    slice (header payload ++ rest) 12 16 = LittleEndian.bytes 4 payload.length := rfl

/-- The checksum ends the header, at the offsets 16 to 32. It is that of the payload alone, so a
header is not protected by it. -/
theorem slice_header_checksum (payload rest : List UInt8) :
    slice (header payload ++ rest) 16 32 = checksum payload := by
  have hfront : (magic ++ LittleEndian.bytes 2 layoutVersion ++
      LittleEndian.bytes 2 writerVersion ++ LittleEndian.bytes 4 0 ++
        LittleEndian.bytes 4 payload.length).length = 16 := by
    simp only [List.length_append, LittleEndian.length_bytes]
    rfl
  rw [header, List.append_assoc]
  exact slice_append hfront (by rw [length_checksum])

/-! ### Unwrapping -/

/-- What a header makes of the bytes behind it. They must be as many as it announces, and the
checksum must be theirs. The letters and the layout cannot fail here, so both kinds of damage to the
body are told apart. -/
theorem unwrap_header {payload : List UInt8} (h : payload.length < 2 ^ 32) (body : List UInt8) :
    unwrap (header payload ++ body)
      = if body.length < payload.length then .error (.truncated payload.length body.length)
        else if checksum (body.take payload.length) ≠ checksum payload then .error .digestMismatch
        else .ok (body.take payload.length) := by
  have hlength : LittleEndian.value (LittleEndian.bytes 4 payload.length) = payload.length :=
    LittleEndian.value_bytes (by omega)
  have hlayout : LittleEndian.value (LittleEndian.bytes 2 layoutVersion) = layoutVersion := rfl
  have hlong : ¬ (header payload ++ body).length < headerLength := by
    rw [List.length_append, length_header]
    omega
  have hbody : (header payload ++ body).drop headerLength = body := by
    rw [← length_header payload, List.drop_left]
  -- The checks in their order: the size, the letters, the layout.
  rw [unwrap, if_neg hlong, slice_header_magic, if_neg (not_not_intro rfl), slice_header_layout,
    hlayout, slice_header_length, hlength, slice_header_checksum, hbody]
  show (if layoutVersion ≠ layoutVersion then _ else _) = _
  rw [if_neg (not_not_intro rfl)]

/-- A payload is unwrapped from behind its header, and what follows the payload is not looked at.
This is the header's part of the round trip. -/
theorem unwrap_header_append {payload : List UInt8} (h : payload.length < 2 ^ 32)
    (rest : List UInt8) : unwrap (header payload ++ (payload ++ rest)) = .ok payload := by
  have hpresent : ¬ (payload ++ rest).length < payload.length := by
    rw [List.length_append]
    omega
  rw [unwrap_header h, if_neg hpresent, List.take_left, if_neg (not_not_intro rfl)]

/-- What is unwrapped stands behind a whole header, which has the letters and the layout, announces
its length and holds its checksum. These are the five checks at once, with nothing said about their
order. -/
theorem unwrap_eq_ok_iff {bytes payload : List UInt8} :
    unwrap bytes = .ok payload ↔
      headerLength ≤ bytes.length ∧ slice bytes 0 4 = magic ∧
        LittleEndian.value (slice bytes 4 6) = layoutVersion ∧
        LittleEndian.value (slice bytes 12 16) ≤ (bytes.drop headerLength).length ∧
        checksum payload = slice bytes 16 32 ∧
        (bytes.drop headerLength).take (LittleEndian.value (slice bytes 12 16)) = payload := by
  unfold unwrap
  simp only [Result.ite_error_eq_ok_iff, Except.ok.injEq, Nat.not_lt, Decidable.not_not]
  refine and_congr_right fun _ => and_congr_right fun _ => and_congr_right fun _ =>
    and_congr_right fun _ => and_congr_left fun hpayload => ?_
  rw [hpayload]

/-- A payload that is unwrapped stands behind a header, which announces its length in four bytes. So
it is below 4 GiB, and no longer than the blob less its header. -/
theorem length_of_unwrap {bytes payload : List UInt8} (h : unwrap bytes = .ok payload) :
    headerLength + payload.length ≤ bytes.length ∧ payload.length < 2 ^ 32 := by
  obtain ⟨hlong, -, -, hpresent, -, rfl⟩ := unwrap_eq_ok_iff.1 h
  -- The length is a field of four bytes.
  have hannounced := LittleEndian.value_lt (slice bytes 12 16)
  have hfield : (slice bytes 12 16).length ≤ 4 := List.length_take_le 4 _
  have hbound : 256 ^ (slice bytes 12 16).length ≤ 256 ^ 4 :=
    Nat.pow_le_pow_right (by decide) hfield
  rw [List.length_drop] at hpresent
  rw [List.length_take, List.length_drop]
  omega

/-- A payload is read from a blob if it is unwrapped and decoded. What the decoder leaves of the
announced bytes is not asked about. -/
theorem readPayload_eq_ok_iff {bytes : List UInt8} {p : Payload} :
    readPayload bytes = .ok p ↔
      ∃ payload, unwrap bytes = .ok payload ∧ Payload.decode payload = .ok p := by
  rw [readPayload, Result.bind_eq_ok_iff]
  simp only [Result.mapError_eq_ok_iff]

/-- Loading a blob goes on with the payload that is read from it. All that can still go wrong is a
fault of the payload, and it is reported as such. -/
theorem ofBlob_of_readPayload {bytes : List UInt8} {p : Payload} (h : readPayload bytes = .ok p) :
    Chain.ofBlob bytes = p.toChain.mapError .invalid := by
  rw [Chain.ofBlob, h]
  rfl

end ClassFilter.Blob
