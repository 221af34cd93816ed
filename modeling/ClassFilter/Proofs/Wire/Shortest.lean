import ClassFilter.Proofs.LittleEndian
import ClassFilter.Proofs.Result
import ClassFilter.Proofs.Text.Utf8
import ClassFilter.Wire.Reader
import ClassFilter.Wire.Writer

/-!
# `ClassFilter.Proofs.Wire.Shortest`: writers need the fewest bytes

A number may be read from more bytes than it needs. `Spends r size` says that a reader
takes a value from no fewer bytes than `size` gives for it. With the length that a writer
needs for `size`, it says that nothing is read from fewer bytes than are written.

There is one rule for each way to build a reader, and one theorem for each kind of value.
The rule for a sequence, `Spends.bind`, subtracts what the first reader spent. So the
theorems need no bound on the numbers in the bytes.
-/

set_option autoImplicit false

namespace ClassFilter.Wire

variable {α β : Type}

/-- The reader takes a value from no fewer bytes than its size. Bytes that are left over are not
counted, and nothing is said where the reader fails. -/
def Spends (r : Reader α) (size : α → Nat) : Prop :=
  ∀ bytes x rest, r bytes = .ok (x, rest) → size x + rest.length ≤ bytes.length

/-! ### The length of a number -/

/-- A number that fits the bytes behind a marker needs no more than these and the marker. The writer
takes the narrowest width, so it may need fewer. -/
theorem Writer.length_number_le {n width : Nat} (hwidth : width = 2 ∨ width = 4 ∨ width = 8)
    (hn : n < 256 ^ width) : (Writer.number n).length ≤ width + 1 := by
  unfold Writer.number
  rcases hwidth with rfl | rfl | rfl
  · split
    · simp
    rw [if_pos (by omega)]
    simp
  · split
    · simp
    split
    · simp
    rw [if_pos (by omega)]
    simp
  · split
    · simp
    split
    · simp
    split <;> simp

/-- A smaller number needs no more bytes. It is used where the length of a list or text shrinks. -/
theorem Writer.length_number_mono {m n : Nat} (h : m ≤ n) :
    (Writer.number m).length ≤ (Writer.number n).length := by
  unfold Writer.number
  grind [LittleEndian.length_bytes]

namespace Spends

/-! ### Rules for readers -/

/-- Nothing is spent on a value that has no size. A reader that ends with a value has no byte left
to account for. -/
theorem pure {size : α → Nat} {x : α} (h : size x = 0) : Spends (Pure.pure x) size := by
  intro bytes y rest hrun
  cases hrun
  omega

/-- What is left of the size after the first reader is spent by the second. The subtraction is cut
off at zero, so a first reader may spend more than is asked. -/
theorem bind {r : Reader α} {f : α → Reader β} {size : α → Nat} {total : β → Nat}
    (h : Spends r size) (hf : ∀ x, Spends (f x) fun y => total y - size x) :
    Spends (r >>= f) total := by
  intro bytes y rest hrun
  obtain ⟨⟨x, mid⟩, hfirst, hsecond⟩ := Result.bind_eq_ok_iff.1 hrun
  have hspent := h bytes x mid hfirst
  have hmore : total y - size x + rest.length ≤ mid.length := hf x mid y rest hsecond
  omega

theorem map {r : Reader α} {f : α → β} {size : β → Nat} (h : Spends r fun x => size (f x)) :
    Spends (f <$> r) size := by
  intro bytes y rest hrun
  obtain ⟨⟨x, mid⟩, hfirst, hsecond⟩ := Result.bind_eq_ok_iff.1 hrun
  cases hsecond
  exact h bytes x rest hfirst

/-- A reader that takes no value spends whatever is asked, since there is no value to ask it for. -/
theorem throw (e : DecodeError) (size : α → Nat) : Spends (throw e : Reader α) size := by
  intro bytes x rest hrun
  cases hrun

/-- A size may be estimated from below. Lists and options need it, where the size that is known is
larger than the one asked for. -/
theorem mono {r : Reader α} {size size' : α → Nat} (h : Spends r size) (hle : ∀ x, size' x ≤ size x) :
    Spends r size' := by
  intro bytes x rest hrun
  have hspent := h bytes x rest hrun
  have hsize := hle x
  omega

/-! ### Values of fixed length -/

theorem byte : Spends Reader.byte fun _ => 1 := by
  intro bytes b rest hrun
  cases bytes with
  | nil => cases hrun
  | cons c bytes =>
    cases hrun
    exact Nat.le_of_eq (Nat.add_comm 1 rest.length)

/-- So many bytes are spent, and the next reader has them all. Their number may be used for the
size, and it is known to be right. -/
theorem take_bind {count : Nat} {f : List UInt8 → Reader β} {total : β → Nat}
    (hf : ∀ bs, bs.length = count → Spends (f bs) fun y => total y - count) :
    Spends (Reader.take count >>= f) total := by
  intro bytes y rest hrun
  obtain ⟨⟨bs, mid⟩, hfirst, hsecond⟩ := Result.bind_eq_ok_iff.1 hrun
  obtain ⟨hlong, hok⟩ := Result.ite_error_eq_ok_iff.1 hfirst
  cases hok
  have hcount : (bytes.take count).length = count := by
    rw [List.length_take] at hlong ⊢
    omega
  have hmore : total y - count + rest.length ≤ (bytes.drop count).length :=
    hf _ hcount _ y rest hsecond
  rw [List.length_take] at hcount
  rw [List.length_drop] at hmore
  omega

/-- A number of fixed width is below the bound of the width. So the size that is asked need be no
more than the width for such numbers only. -/
theorem fixed {width : Nat} {size : Nat → Nat} (h : ∀ n, n < 256 ^ width → size n ≤ width) :
    Spends (Reader.fixed width) size := by
  refine take_bind fun bs hbs => Spends.pure ?_
  have hlt := LittleEndian.value_lt bs
  rw [hbs] at hlt
  have hsize := h _ hlt
  omega

theorem bool : Spends Reader.bool fun b => (Writer.bool b).length := by
  refine byte.bind fun b => ?_
  split
  · exact Spends.pure rfl
  split
  · exact Spends.pure rfl
  · exact Spends.throw _ _

/-! ### Numbers -/

/-- What follows a marker is wide enough for the number, so a number that is written wide is never
shorter than the writer makes it. -/
theorem marked {width : Nat} (hwidth : width = 2 ∨ width = 4 ∨ width = 8) :
    Spends (Reader.fixed width) fun n => (Writer.number n).length - 1 := by
  refine fixed fun n hn => ?_
  have hlength := Writer.length_number_le hwidth hn
  omega

theorem number (kind : NumberKind) :
    Spends (Reader.number kind) fun n => (Writer.number n).length := by
  refine byte.bind fun b => ?_
  split
  · rename_i hb
    have hone : b.toNat ≤ 250 := UInt8.le_iff_toNat_le.1 hb
    refine Spends.pure ?_
    rw [Writer.number, if_pos hone]
    rfl
  split
  · exact marked (.inl rfl)
  split
  · exact marked (.inr (.inl rfl))
  split
  · exact marked (.inr (.inr rfl))
  · -- A number that its kind has no room for is not read.
    intro bytes n rest hrun
    cases hrun

/-- One of several alternatives is read from no fewer bytes than its number needs. Unknown numbers
give no value. -/
theorem tag (count : Nat) : Spends (Reader.tag count) fun n => (Writer.number n.val).length := by
  refine (number .tag).bind fun n => ?_
  split
  · exact Spends.pure (Nat.sub_self _)
  · exact Spends.throw _ _

/-- A value that may be absent spends its mark, and what the value needs if there is one. -/
theorem option {r : Reader α} {w : α → List UInt8} (h : Spends r fun a => (w a).length) :
    Spends (Reader.option r) fun x => (Writer.option w x).length := by
  refine byte.bind fun b => ?_
  split
  · exact Spends.pure rfl
  split
  · refine Spends.map (h.mono fun a => ?_)
    rw [Writer.option, List.length_cons]
    omega
  · exact Spends.throw _ _

theorem text : Spends Reader.text fun s => (Writer.text s).length := by
  refine (number .word).bind fun count => take_bind fun bs hbs => ?_
  split
  · -- The text needs no more bytes than it was read from, and so does its length.
    rename_i s hs
    have hbytes := Text.Utf8.length_encode_le_of_decode hs
    have hcount := Writer.length_number_mono hbytes
    refine Spends.pure ?_
    rw [Writer.text, List.length_append]
    rw [hbs] at hbytes hcount
    omega
  · exact Spends.throw _ _

/-! ### Lists -/

/-- Values that are read one after another spend what each of them needs, by induction on their
number. -/
theorem times {r : Reader α} {w : α → List UInt8} (h : Spends r fun x => (w x).length) (count : Nat) :
    Spends (Reader.times r count) fun xs => (xs.val.flatMap w).length := by
  induction count with
  | zero => exact Spends.pure rfl
  | succ count ih =>
    refine h.bind fun x => ih.bind fun xs => Spends.pure ?_
    rw [List.flatMap_cons, List.length_append]
    omega

/-- So many bytes are spent on as many. A hash, for one, takes its 32 bytes. -/
theorem bytes (count : Nat) : Spends (Reader.times Reader.byte count) fun xs => xs.val.length := by
  have htimes := times (w := fun b => [b]) byte count
  simpa only [List.flatMap_singleton'] using htimes

theorem list {r : Reader α} {w : α → List UInt8} (h : Spends r fun x => (w x).length) :
    Spends (Reader.list r) fun xs => (Writer.list w xs).length := by
  refine (number .length).bind fun count => Spends.map ((times h count).mono fun xs => ?_)
  rw [Writer.list, List.length_append, xs.property]
  omega

end Spends

end ClassFilter.Wire
