/-!
# `ClassFilter.Text.Decimal`: signed decimal literals

A literal is `0` alone, or an optional sign before digits of which the first is not
`0`. So `00`, `+0`, `-0` and a lone sign are no literals. Only ASCII digits count.
-/

set_option autoImplicit false

namespace ClassFilter.Text.Decimal

/-- The number that a list of digits denotes, most significant first. Characters that are no digits
are not excluded here; the readers below do so before they ask for a value. -/
def value (digits : List Char) : Nat :=
  digits.foldl (fun n d => 10 * n + (d.toNat - '0'.toNat)) 0

/-- Reads digits that do not begin with `0`. This leaves out the empty list and every number below
one, so zero has no spelling but its own. -/
def positive? : List Char → Option Nat
  | [] => none
  | d :: ds =>
    if d.isDigit && d != '0' && ds.all Char.isDigit then some (value (d :: ds)) else none

/-- Reads a literal. Zero takes no sign and other numbers take one of either kind, or none. -/
def integer? : List Char → Option Int
  | ['0'] => some 0
  | '+' :: digits => (positive? digits).map fun n : Nat => (n : Int)
  | '-' :: digits => (positive? digits).map fun n : Nat => -(n : Int)
  | digits => (positive? digits).map fun n : Nat => (n : Int)

/-- Reads a literal that a signed 64-bit word can hold. Negative literals are read, so that they can
be told from malformed ones. -/
def word? (text : List Char) : Option Int :=
  (integer? text).filter fun v => decide (-0x8000000000000000 ≤ v ∧ v < 0x8000000000000000)

end ClassFilter.Text.Decimal
