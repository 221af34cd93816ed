import ClassFilter.LittleEndian
import Mathlib.Algebra.Group.Nat.Defs

/-!
# `ClassFilter.Proofs.LittleEndian`: a number is read back from its bytes

In a width that holds the number, `value` undoes `bytes` (`value_bytes`). The bound on
what bytes denote is `value_lt`.
-/

set_option autoImplicit false

namespace ClassFilter.LittleEndian

/-- A number that fits the width is read back from its bytes. Without the bound its upper part would
be cut off when it is written. -/
theorem value_bytes {width n : Nat} (h : n < 256 ^ width) : value (bytes width n) = n := by
  induction width generalizing n with
  | zero =>
    simp only [Nat.pow_zero] at h
    simp [bytes, value]; omega
  | succ width ih =>
    -- The first byte is the remainder, and the other bytes hold the quotient.
    have hdiv : n / 256 < 256 ^ width := by
      rw [Nat.pow_succ] at h
      exact Nat.div_lt_of_lt_mul (by omega)
    rw [bytes, value, ih hdiv, UInt8.toNat_ofNat']
    omega

/-- Bytes denote less than their width allows, whatever they are. So a length that is read from four
bytes is below 4 GiB. -/
theorem value_lt (bs : List UInt8) : value bs < 256 ^ bs.length := by
  induction bs with
  | nil => simp [value]
  | cons b rest ih =>
    have hb := b.toNat_lt
    rw [value, List.length_cons, Nat.pow_succ]
    omega

end ClassFilter.LittleEndian
