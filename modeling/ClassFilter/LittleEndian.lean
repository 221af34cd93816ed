/-!
# `ClassFilter.LittleEndian`: numbers as bytes, least significant first

`bytes` writes a number in a fixed width and `value` reads bytes of any width.
-/

set_option autoImplicit false

namespace ClassFilter.LittleEndian

/-- The number that bytes denote, least significant first. Bytes that are left out count as zero, so
no length is asked for. -/
def value : List UInt8 → Nat
  | [] => 0
  | b :: rest => b.toNat + 256 * value rest

/-- The last `width` bytes of a number, least significant first. What does not fit is dropped; the
fields of a header and the wide forms of numbers are written only where it all fits. -/
def bytes : (width : Nat) → Nat → List UInt8
  | 0, _ => []
  | width + 1, n => UInt8.ofNat n :: bytes width (n / 256)

@[simp] theorem length_bytes (width n : Nat) : (bytes width n).length = width := by
  induction width generalizing n with
  | zero => rfl
  | succ width ih => simp [bytes, ih]

end ClassFilter.LittleEndian
