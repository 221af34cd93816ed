import ClassFilter.LittleEndian
import ClassFilter.Text.Utf8

/-!
# `ClassFilter.Wire.Writer`: values as bytes

The counterpart of `Wire.Reader`. Numbers take the narrowest width they fit.
-/

set_option autoImplicit false

namespace ClassFilter.Wire.Writer

/-- A number below `2 ^ 64`, in variable width. The shortest form is written, so each number has one
written form. -/
def number (n : Nat) : List UInt8 :=
  if n ≤ 250 then [UInt8.ofNat n]
  else if n < 0x10000 then 251 :: LittleEndian.bytes 2 n
  else if n < 0x100000000 then 252 :: LittleEndian.bytes 4 n
  else 253 :: LittleEndian.bytes 8 n

/-- A truth value in one byte. Polarities are written with this, `1` for a denial. -/
def bool (b : Bool) : List UInt8 :=
  [if b then 1 else 0]

/-- A value that may be absent: a byte that says whether it is there, then the value. -/
def option {α : Type} (w : α → List UInt8) : Option α → List UInt8
  | none => [0]
  | some a => 1 :: w a

/-- A text: its number of bytes, then the bytes. The length is that of the byte form, not the number
of characters. -/
def text (s : String) : List UInt8 :=
  let bytes := Text.Utf8.encode s
  number bytes.length ++ bytes

/-- A list: its length, then the values, one after another without anything between them. -/
def list {α : Type} (w : α → List UInt8) (xs : List α) : List UInt8 :=
  number xs.length ++ xs.flatMap w

end ClassFilter.Wire.Writer
