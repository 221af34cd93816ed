import ClassFilter.Proofs.LittleEndian
import ClassFilter.Proofs.Text.Utf8
import ClassFilter.Wire.Reader
import ClassFilter.Wire.Writer

/-!
# `ClassFilter.Proofs.Wire.RoundTrip`: readers take what writers wrote

`Reads r bytes x` says that a reader takes a value off the front of its bytes, whatever
follows them. So it can be used inside every larger reader. There is one rule for each
way to build a reader (`Reads.pure`, `Reads.bind`, `Reads.map`), and one theorem for each
kind of value.

Numbers have 64 bits at most, and a text or a list is written with its length. The
theorems about these assume that the bytes which were written are fewer than `2 ^ 64`,
which bounds every length inside.
-/

set_option autoImplicit false

namespace ClassFilter.Wire

variable {α β : Type}

/-- The reader takes the value off these bytes, whatever follows them. What follows is left over
unchanged, so it can be read by the next reader. -/
def Reads (r : Reader α) (bytes : List UInt8) (x : α) : Prop :=
  ∀ rest, r (bytes ++ rest) = .ok (x, rest)

namespace Reads

/-! ### Rules for readers -/

theorem pure (x : α) : Reads (Pure.pure x) [] x := fun _ => rfl

/-- What the second reader takes follows what the first one took. This rule puts the fields of an
entry together. -/
theorem bind {r : Reader α} {f : α → Reader β} {bytes more : List UInt8} {x : α} {y : β}
    (h : Reads r bytes x) (hf : Reads (f x) more y) : Reads (r >>= f) (bytes ++ more) y := by
  intro rest
  show (r (bytes ++ more ++ rest) >>= fun p => f p.1 p.2) = _
  rw [List.append_assoc, h]
  exact hf rest

theorem map {r : Reader α} {bytes : List UInt8} {x : α} (h : Reads r bytes x) (f : α → β) :
    Reads (f <$> r) bytes (f x) := by
  intro rest
  show (r (bytes ++ rest) >>= fun p => Except.ok (f p.1, p.2)) = _
  rw [h]
  rfl

/-- A reader may take nothing and go on. This is the rule for a test on what was read, such as that
a tag is known. -/
theorem bind_nil {r : Reader α} {f : α → Reader β} {bytes : List UInt8} {x : α} {y : β}
    (h : Reads r bytes x) (hf : Reads (f x) [] y) : Reads (r >>= f) bytes y := by
  have hbind := h.bind hf
  rwa [List.append_nil] at hbind

/-! ### Values of fixed length -/

theorem byte (b : UInt8) : Reads Reader.byte [b] b := fun _ => rfl

theorem take (bytes : List UInt8) : Reads (Reader.take bytes.length) bytes bytes := by
  intro rest
  show (if _ then _ else _) = _
  rw [List.take_left, List.drop_left, if_neg (Nat.lt_irrefl _)]

/-- A number that fits the width is read back from as many bytes. It is the only place where the
order of bytes matters. -/
theorem fixed {width n : Nat} (h : n < 256 ^ width) :
    Reads (Reader.fixed width) (LittleEndian.bytes width n) n := by
  have htake := Reads.take (LittleEndian.bytes width n)
  rw [LittleEndian.length_bytes] at htake
  have hmap := htake.map LittleEndian.value
  rwa [LittleEndian.value_bytes h] at hmap

theorem bool (b : Bool) : Reads Reader.bool (Writer.bool b) b := by
  cases b <;> exact (Reads.byte _).bind_nil (Reads.pure _)

/-! ### Numbers -/

/-- A number that is written behind a marker byte is read back, if the marker tells the reader its
width. -/
theorem marked {kind : NumberKind} {marker : UInt8} {width n : Nat} (hn : n < 256 ^ width)
    (hmarker : ∀ bytes, Reader.number kind (marker :: bytes) = Reader.fixed width bytes) :
    Reads (Reader.number kind) (marker :: LittleEndian.bytes width n) n := by
  intro rest
  show Reader.number kind (marker :: (LittleEndian.bytes width n ++ rest)) = _
  rw [hmarker]
  exact Reads.fixed hn rest

/-- A number that its kind has room for is read back. Tags have 32 bits and words 64, so the bound
of a tag is an extra hypothesis. -/
theorem number {kind : NumberKind} {n : Nat} (hn : n < 2 ^ 64) (htag : kind = .tag → n < 2 ^ 32) :
    Reads (Reader.number kind) (Writer.number n) n := by
  unfold Writer.number
  by_cases hone : n ≤ 250
  · -- The byte is the number, and not a marker.
    rw [if_pos hone]
    have hb : (UInt8.ofNat n).toNat = n := Text.Utf8.toNat_ofNat_of_lt (by omega)
    refine (Reads.byte _).bind_nil fun rest => ?_
    have hle : UInt8.ofNat n ≤ 250 := by
      rw [UInt8.le_iff_toNat_le, hb]
      exact hone
    rw [if_pos hle, hb]
    rfl
  by_cases htwo : n < 0x10000
  · rw [if_neg hone, if_pos htwo]
    exact marked (by omega) fun _ => rfl
  by_cases hfour : n < 0x100000000
  · rw [if_neg hone, if_neg htwo, if_pos hfour]
    exact marked (by omega) fun _ => rfl
  · rw [if_neg hone, if_neg htwo, if_neg hfour]
    -- A tag has no room for a number this large, so it is none.
    refine marked (by omega) fun bytes => ?_
    cases kind with
    | tag => exact absurd (htag rfl) hfour
    | word => rfl
    | length => rfl

/-- One of several alternatives is read back from its number, which is below their count and thus
known to the reader. -/
theorem tag {count : Nat} (n : Fin count) (h : n.val < 2 ^ 32) :
    Reads (Reader.tag count) (Writer.number n.val) n := by
  refine (Reads.number (by omega) fun _ => h).bind_nil ?_
  rw [dif_pos n.isLt]
  exact Reads.pure n

/-- A 64-bit word is read back, whatever it is. No bound is asked for, as the type has it. -/
theorem word (n : UInt64) : Reads (Reader.number .word) (Writer.number n.toNat) n.toNat :=
  Reads.number n.toNat_lt fun h => by cases h

/-- A value that may be absent is read back from its mark, and from its bytes if there is one. -/
theorem option {r : Reader α} {w : α → List UInt8} {x : Option α}
    (h : ∀ a, x = some a → Reads r (w a) a) : Reads (Reader.option r) (Writer.option w x) x := by
  cases x with
  | none => exact (Reads.byte 0).bind_nil (Reads.pure none)
  | some a => exact (Reads.byte 1).bind ((h a rfl).map some)

/-- A text whose bytes can be counted is read back: its length, then the bytes, which are decoded to
it. -/
theorem text {s : String} (h : (Writer.text s).length < 2 ^ 64) :
    Reads Reader.text (Writer.text s) s := by
  have hlength : (Text.Utf8.encode s).length < 2 ^ 64 := by
    rw [Writer.text, List.length_append] at h
    omega
  -- The length comes first, and tells how many bytes are decoded.
  refine (Reads.number hlength fun h => by cases h).bind ?_
  refine (Reads.take _).bind_nil ?_
  rw [Text.Utf8.decode_encode]
  exact Reads.pure s

/-! ### Lists -/

/-- Values that are written one after another are read back in their order, if each of them is.
Their number is known beforehand. -/
theorem times {r : Reader α} {w : α → List UInt8} {xs : List α}
    (h : ∀ x ∈ xs, Reads r (w x) x) :
    Reads (Reader.times r xs.length) (xs.flatMap w) ⟨xs, rfl⟩ := by
  induction xs with
  | nil => exact Reads.pure _
  | cons x xs ih =>
    rw [List.flatMap_cons]
    refine (h x (by simp)).bind ((ih fun y hy => h y (by simp [hy])).bind_nil ?_)
    exact Reads.pure _

/-- So many bytes are read back as they are. A hash is written in this way, without its length. -/
theorem bytes {count : Nat} (bs : List UInt8) (h : bs.length = count) :
    Reads (Reader.times Reader.byte count) bs ⟨bs, h⟩ := by
  subst h
  have htimes : Reads (Reader.times Reader.byte bs.length) (bs.flatMap fun b => [b]) ⟨bs, rfl⟩ :=
    Reads.times fun b _ => Reads.byte b
  rwa [List.flatMap_singleton'] at htimes

/-- A list is no longer than the bytes of its members, if each has a byte. So the length of a list
fits its field when the bytes can be counted. -/
theorem length_le_length_flatMap {w : α → List UInt8} {xs : List α} (h : ∀ x ∈ xs, w x ≠ []) :
    xs.length ≤ (xs.flatMap w).length := by
  induction xs with
  | nil => exact Nat.le_refl 0
  | cons x xs ih =>
    have hrest := ih fun y hy => h y (by simp [hy])
    have hfirst := List.length_pos_iff.2 (h x (by simp))
    rw [List.flatMap_cons, List.length_append, List.length_cons]
    omega

/-- The bytes of a member are among those of the list, so they can be counted if those of the list
can. -/
theorem length_le_of_mem {w : α → List UInt8} {xs : List α} {x : α} (hx : x ∈ xs) :
    (w x).length ≤ (xs.flatMap w).length := by
  induction xs with
  | nil => cases hx
  | cons y xs ih =>
    rw [List.flatMap_cons, List.length_append]
    rcases List.mem_cons.1 hx with rfl | hx
    · omega
    · have hrest := ih hx
      omega

/-- A list of values that each have a byte is read back, behind its length. The bound on all bytes
is passed on to the bytes of each member. -/
theorem list {r : Reader α} {w : α → List UInt8} {xs : List α}
    (hlength : (Writer.list w xs).length < 2 ^ 64) (hne : ∀ x ∈ xs, w x ≠ [])
    (h : ∀ x ∈ xs, (w x).length < 2 ^ 64 → Reads r (w x) x) :
    Reads (Reader.list r) (Writer.list w xs) xs := by
  have hbytes : (xs.flatMap w).length < 2 ^ 64 := by
    rw [Writer.list, List.length_append] at hlength
    omega
  -- Each value has a byte, so there are no more values than bytes.
  have hcount : xs.length < 2 ^ 64 := Nat.lt_of_le_of_lt (length_le_length_flatMap hne) hbytes
  have htimes : Reads (Reader.times r xs.length) (xs.flatMap w) ⟨xs, rfl⟩ :=
    Reads.times fun x hx => h x hx (Nat.lt_of_le_of_lt (length_le_of_mem hx) hbytes)
  exact (Reads.number hcount fun hk => by cases hk).bind (htimes.map Subtype.val)

end Reads

/-! ### Bytes that are written -/

theorem Writer.number_ne_nil (n : Nat) : Writer.number n ≠ [] := by
  unfold Writer.number
  split
  · exact List.cons_ne_nil _ _
  split
  · exact List.cons_ne_nil _ _
  split <;> exact List.cons_ne_nil _ _

theorem Writer.text_ne_nil (s : String) : Writer.text s ≠ [] := fun h =>
  Writer.number_ne_nil _ (List.append_eq_nil_iff.1 h).1

end ClassFilter.Wire
