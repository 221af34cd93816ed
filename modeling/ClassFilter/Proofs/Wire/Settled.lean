import ClassFilter.Proofs.Result
import ClassFilter.Proofs.Wire.RoundTrip

/-!
# `ClassFilter.Proofs.Wire.Settled`: readers need no byte beyond their answer

A reader runs from left to right. `Settled r bytes` says that the answer of a reader is settled by
the bytes it was given: it asks for more, or it takes a value off their front whatever follows them,
or it fails in one way whatever follows them. `Settles r` says so of all bytes. There is one rule
for each way to build a reader, and one theorem for each kind of value.

One error looks further. A word that is too wide is named a word, but named a tag once eight bytes
follow its first. So this error is settled but for its name (`Settled.tooWide`).

* `Settles.bind`: the answer of a sequence is settled if those of its parts are.
* `Settles.exists_unexpectedEnd`: before a value is complete, the reader asks for more.
-/

set_option autoImplicit false

namespace ClassFilter.Wire

variable {α β : Type}

/-- The answer of a reader is settled by these bytes, unless it asks for more. It takes a value, or
fails in a way that more bytes do not change, or finds a word that is too wide with fewer than eight
bytes behind its first (`tooWide`), where the name in the error may still change. -/
inductive Settled (r : Reader α) (bytes : List UInt8) : Prop
  | short (additional : Nat) (h : r bytes = .error (.unexpectedEnd additional))
  | value (x : α) (taken rest : List UInt8) (hbytes : bytes = taken ++ rest) (h : Reads r taken x)
  | error (e : DecodeError) (hname : ∀ found, e ≠ .numberTooWide .word found)
    (h : ∀ rest, r (bytes ++ rest) = .error e)
  | tooWide (found : Oversize) (following : Nat) (hfollowing : following < 8)
    (h : ∀ rest, r (bytes ++ rest)
      = .error (.numberTooWide (if following + rest.length < 8 then .word else .tag) found))

/-- The answer of a reader is settled by all bytes. It is what a reader needs in order to be a part
of another one. -/
def Settles (r : Reader α) : Prop :=
  ∀ bytes, Settled r bytes

namespace Settles

/-! ### Rules for readers -/

theorem pure (x : α) : Settles (Pure.pure x : Reader α) := fun bytes =>
  .value x [] bytes rfl (Reads.pure x)

theorem throw {e : DecodeError} (hname : ∀ found, e ≠ .numberTooWide .word found) :
    Settles (throw e : Reader α) := fun _ =>
  .error e hname fun _ => rfl

/-- The answer of a sequence is settled if those of its parts are. The second reader sees what the
first one left, and bytes that are added come behind this. -/
theorem bind {r : Reader α} {f : α → Reader β} (h : Settles r) (hf : ∀ x, Settles (f x)) :
    Settles (r >>= f) := by
  intro bytes
  have hrun : ∀ {bs : List UInt8}, (r >>= f) bs = (r bs >>= fun p => f p.1 p.2) := rfl
  cases h bytes with
  | short additional h => exact .short additional (by rw [hrun, h]; rfl)
  | error e hname h => exact .error e hname fun rest => by rw [hrun, h]; rfl
  | tooWide found following hfollowing h =>
    exact .tooWide found following hfollowing fun rest => by rw [hrun, h]; rfl
  | value x taken rest hbytes h =>
    subst hbytes
    have hfirst : ∀ more, (r >>= f) (taken ++ rest ++ more) = f x (rest ++ more) := fun more => by
      rw [hrun, List.append_assoc, h]
      rfl
    cases hf x rest with
    | short additional hsecond =>
      refine .short additional ?_
      rw [hrun, h]
      exact hsecond
    | value y taken' rest' hrest hsecond =>
      subst hrest
      exact .value y (taken ++ taken') rest' (List.append_assoc _ _ _).symm (h.bind hsecond)
    | error e hname hsecond =>
      exact .error e hname fun more => (hfirst more).trans (hsecond more)
    | tooWide found following hfollowing hsecond =>
      exact .tooWide found following hfollowing fun more => (hfirst more).trans (hsecond more)

theorem map {r : Reader α} (h : Settles r) (f : α → β) : Settles (f <$> r) :=
  h.bind fun x => Settles.pure (f x)

/-- Before a value is complete, the reader asks for more. Any other answer would be kept when the
missing bytes are added, and then the value could not be read. -/
theorem exists_unexpectedEnd {r : Reader α} {bytes : List UInt8} {x : α} (h : Settles r)
    (hread : Reads r bytes x) {k : Nat} (hk : k < bytes.length) :
    ∃ additional, r (bytes.take k) = .error (.unexpectedEnd additional) := by
  -- The bytes that are missing turn every other answer into the value.
  have hwhole := hread []
  rw [List.append_nil, ← List.take_append_drop k bytes] at hwhole
  cases h (bytes.take k) with
  | short additional h => exact ⟨additional, h⟩
  | error e _ h =>
    rw [h] at hwhole
    cases hwhole
  | tooWide found following hfollowing h =>
    rw [h] at hwhole
    cases hwhole
  | value y taken rest htake h =>
    rw [htake, List.append_assoc, h, Except.ok.injEq, Prod.mk.injEq, List.append_eq_nil_iff,
      List.drop_eq_nil_iff] at hwhole
    omega

/-! ### Values of fixed length -/

theorem byte : Settles Reader.byte := by
  intro bytes
  cases bytes with
  | nil => exact .short 1 rfl
  | cons b rest => exact .value b [b] rest rfl (Reads.byte b)

theorem take (count : Nat) : Settles (Reader.take count) := by
  intro bytes
  by_cases hlong : (bytes.take count).length < count
  · exact .short _ (if_pos hlong)
  · have hcount : (bytes.take count).length = count := by
      rw [List.length_take] at hlong ⊢
      omega
    have hread := Reads.take (bytes.take count)
    rw [hcount] at hread
    exact .value _ _ _ (List.take_append_drop count bytes).symm hread

theorem fixed (width : Nat) : Settles (Reader.fixed width) :=
  (take width).map LittleEndian.value

theorem bool : Settles Reader.bool := by
  refine byte.bind fun b => ?_
  split
  · exact Settles.pure false
  split
  · exact Settles.pure true
  · exact Settles.throw (by simp)

/-! ### Numbers -/

theorem reported_word (following : Nat) :
    Reader.reported .word following = if following < 8 then .word else .tag := by
  rw [Reader.reported]
  by_cases h : following < 8
  · rw [if_pos h, if_neg fun hword => Nat.not_le_of_lt h hword.2]
  · rw [if_neg h, if_pos ⟨rfl, Nat.le_of_not_lt h⟩]

/-- A number that its kind has no room for. Only the name of a word depends on what follows, and not
beyond the eighth byte. -/
theorem numberTooWide (kind : NumberKind) (found : Oversize) :
    Settles (fun rest => .error (.numberTooWide (Reader.reported kind rest.length) found) :
      Reader α) := by
  intro bytes
  by_cases hword : kind = .word ∧ bytes.length < 8
  · obtain ⟨rfl, hfollowing⟩ := hword
    refine .tooWide found bytes.length hfollowing fun rest => ?_
    show Except.error (DecodeError.numberTooWide _ found) = _
    rw [reported_word, List.length_append]
  · -- The name is that of the kind, or that of a tag instead of a word.
    obtain ⟨name, hne, hreported⟩ : ∃ name, name ≠ NumberKind.word ∧
        ∀ rest : List UInt8, Reader.reported kind (bytes ++ rest).length = name := by
      by_cases hkind : kind = .word
      · refine ⟨.tag, by simp, fun rest => if_pos ⟨hkind, ?_⟩⟩
        have height : ¬ bytes.length < 8 := fun hlt => hword ⟨hkind, hlt⟩
        rw [List.length_append]
        omega
      · exact ⟨kind, hkind, fun rest => if_neg fun h => hkind h.1⟩
    refine .error (.numberTooWide name found) ?_ fun rest => ?_
    · rintro found' h
      cases h
      exact hne rfl
    · show Except.error (DecodeError.numberTooWide _ found) = _
      rw [hreported]

theorem number (kind : NumberKind) : Settles (Reader.number kind) := by
  refine byte.bind fun b => ?_
  split
  · exact Settles.pure _
  split
  · exact fixed 2
  split
  · exact fixed 4
  split
  · exact fixed 8
  · exact numberTooWide kind _

/-- One of several alternatives is settled. An unknown number is an error that does not depend on
what follows. -/
theorem tag (count : Nat) : Settles (Reader.tag count) := by
  refine (number .tag).bind fun n => ?_
  split
  · exact Settles.pure _
  · exact Settles.throw (by simp)

/-- A value that may be absent is settled if the value is. Its mark is one byte, of which two values
are known. -/
theorem option {r : Reader α} (h : Settles r) : Settles (Reader.option r) := by
  refine byte.bind fun b => ?_
  split
  · exact Settles.pure none
  split
  · exact h.map some
  · exact Settles.throw (by simp)

theorem text : Settles Reader.text := by
  refine (number .word).bind fun count => (take count).bind fun bytes => ?_
  split
  · exact Settles.pure _
  · exact Settles.throw (by simp)

/-! ### Lists -/

/-- Values that are read one after another are settled, by induction on their number. Nothing is
assumed about how many bytes one of them takes. -/
theorem times {r : Reader α} (h : Settles r) (count : Nat) : Settles (Reader.times r count) := by
  induction count with
  | zero => exact Settles.pure _
  | succ count ih => exact h.bind fun x => ih.bind fun xs => Settles.pure _

theorem list {r : Reader α} (h : Settles r) : Settles (Reader.list r) :=
  (number .length).bind fun count => (times h count).map Subtype.val

end Settles

end ClassFilter.Wire
