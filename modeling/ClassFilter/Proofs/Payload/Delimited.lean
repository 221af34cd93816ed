import ClassFilter.Proofs.Payload.RoundTrip
import ClassFilter.Proofs.Wire.Settled

/-!
# `ClassFilter.Proofs.Payload.Delimited`: a payload tells where it ends

No length is written before a payload, and the decoder stops where the last entry ends. So it gives
its answer as soon as it has the bytes for it:

* `Entry.settles_read`, `Payload.settles_read`: the fields are read from left to right.
* `Payload.exists_decode_take`: of a payload that is cut short, more bytes are asked for.
* `Payload.decode_append_of_tooWide`: what becomes of the error about a word that is too wide when
  bytes are added. Its name may change, and nothing else.
* `Payload.decode_append_iff`: all other answers are kept, unless they ask for more bytes.
-/

set_option autoImplicit false

namespace ClassFilter

open Wire (Oversize Settles)

namespace Entry

/-- A polarity and a text are settled, as both of their readers are. It is shared by the three kinds
of patterns. -/
theorem settles_readWildcard (scope : Scope) : Settles (readWildcard scope) :=
  Settles.bool.bind fun _ => Settles.text.bind fun _ => Settles.pure _

theorem settles_read : Settles read := by
  -- The tag selects the reader of the fields.
  refine (Settles.tag 5).bind fun tag => ?_
  split
  · exact (Settles.tag 4).bind fun metric => (Settles.number .word).bind fun max => Settles.pure _
  · exact Settles.bool.bind fun deny => (Settles.list Settles.text).bind fun names => Settles.pure _
  · exact settles_readWildcard .package
  · exact settles_readWildcard .hierarchy
  · exact settles_readWildcard .stem

end Entry

namespace Payload

/-- The answer about a payload is settled by its bytes. It is read from left to right, the count,
the hash and the entries, each by a reader whose answer is settled. -/
theorem settles_read : Settles read :=
  (Settles.number .word).bind fun _ =>
    (Settles.option (Settles.times Settles.byte 32)).bind fun _ =>
      (Settles.list Entry.settles_read).bind fun _ => Settles.pure _

theorem decode_eq (bytes : List UInt8) : decode bytes = (read bytes).map Prod.fst := rfl

/-- A payload that is cut short is not complete: the decoder asks for more bytes, wherever the cut
is. The bytes of a payload must be fewer than `2 ^ 64`, so that they are read back at all. -/
theorem exists_decode_take {p : Payload} (h : p.write.length < 2 ^ 64) {k : Nat}
    (hk : k < p.write.length) :
    ∃ additional, decode (p.write.take k) = .error (.unexpectedEnd additional) := by
  obtain ⟨additional, hread⟩ := settles_read.exists_unexpectedEnd (reads_write h) hk
  exact ⟨additional, by rw [decode_eq, hread]; rfl⟩

/-- The decoder asks for more, or gives an answer that is kept, or finds a word that is too wide.
The facts on added bytes are read off these three cases. -/
theorem decode_cases (bytes : List UInt8) :
    (∃ additional, decode bytes = .error (.unexpectedEnd additional)) ∨
    (∃ answer, (∀ found, answer ≠ .error (.numberTooWide .word found)) ∧
      ∀ rest, decode (bytes ++ rest) = answer) ∨
    ∃ found following, following < 8 ∧ ∀ rest, decode (bytes ++ rest)
      = .error (.numberTooWide (if following + rest.length < 8 then .word else .tag) found) := by
  cases settles_read bytes with
  | short additional h => exact .inl ⟨additional, by rw [decode_eq, h]; rfl⟩
  | value p taken left hbytes h =>
    refine .inr (.inl ⟨.ok p, (fun _ hok => nomatch hok), fun rest => ?_⟩)
    rw [decode_eq, hbytes, List.append_assoc, h]
    rfl
  | error e hname h =>
    refine .inr (.inl ⟨.error e, fun found he => hname found (Except.error.inj he), fun rest => ?_⟩)
    rw [decode_eq, h]
    rfl
  | tooWide found following hfollowing h =>
    exact .inr (.inr ⟨found, following, hfollowing, fun rest => by rw [decode_eq, h]; rfl⟩)

/-- A word that is too wide is named a tag once eight bytes follow its first. The error is kept in
all else, so what was announced is named alike. -/
theorem decode_append_of_tooWide {bytes : List UInt8} {found : Oversize}
    (h : decode bytes = .error (.numberTooWide .word found)) :
    ∃ following < 8, ∀ rest, decode (bytes ++ rest) = .error (.numberTooWide
      (if following + rest.length < 8 then .word else .tag) found) := by
  rcases decode_cases bytes with ⟨additional, hshort⟩ | ⟨answer, hname, hkept⟩ |
    ⟨found', following, hfollowing, hwide⟩
  · rw [h] at hshort
    cases hshort
  · have hself := hkept []
    rw [List.append_nil] at hself
    exact absurd (hself.symm.trans h) (hname found)
  · have hself := hwide []
    rw [List.append_nil, h, if_pos (by simpa using hfollowing)] at hself
    cases hself
    exact ⟨following, hfollowing, hwide⟩

/-- An answer is kept when bytes are added, unless it asks for more, or is that a word is too wide.
The first exception is a hypothesis, and the second is exact. -/
theorem decode_append_iff {bytes : List UInt8}
    (h : ∀ additional, decode bytes ≠ .error (.unexpectedEnd additional)) :
    (∀ rest, decode (bytes ++ rest) = decode bytes) ↔
      ∀ found, decode bytes ≠ .error (.numberTooWide .word found) := by
  constructor
  · intro hkept found hwide
    obtain ⟨following, -, hname⟩ := decode_append_of_tooWide hwide
    -- Eight more bytes change the name.
    have height := hname (List.replicate 8 0)
    rw [hkept, hwide, if_neg (by simp)] at height
    cases height
  · intro hname rest
    rcases decode_cases bytes with ⟨additional, hshort⟩ | ⟨answer, -, hkept⟩ |
      ⟨found, following, hfollowing, hwide⟩
    · exact absurd hshort (h additional)
    · have hself := hkept []
      rw [List.append_nil] at hself
      rw [hself, hkept]
    · have hself := hwide []
      rw [List.append_nil, if_pos (by simpa using hfollowing)] at hself
      exact absurd hself (hname found)

end Payload

end ClassFilter
