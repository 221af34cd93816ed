import ClassFilter.LittleEndian
import ClassFilter.Wire.Error

/-!
# `ClassFilter.Wire.Reader`: values from the front of a byte list

A reader takes a value off the front of a byte list and leaves the rest. Readers run
from left to right and stop at the first error. Numbers are of variable width: a byte up
to 250 is the number itself, and 251, 252 and 253 announce two, four and eight bytes. A
number may be written wider than it needs.
-/

set_option autoImplicit false

namespace ClassFilter.Wire

/-- Takes a value off the front of a byte list. Reading goes strictly from left to right, and the
first failure is the error. -/
abbrev Reader := StateT (List UInt8) (Except DecodeError)

namespace Reader

/-- One byte. At the end of the list one more byte was needed, which is what the error says. -/
def byte : Reader UInt8
  | [] => .error (.unexpectedEnd 1)
  | b :: rest => .ok (b, rest)

/-- The next `count` bytes, all or none. If some are missing the error has the number of those that
are, and not the whole count. -/
def take (count : Nat) : Reader (List UInt8) := fun bytes =>
  let front := bytes.take count
  if front.length < count then .error (.unexpectedEnd (count - front.length))
  else .ok (front, bytes.drop count)

/-- A number of fixed width, least significant byte first. All its bytes are taken at once, so an
error about missing ones counts those of the whole number that are not there. -/
def fixed (width : Nat) : Reader Nat :=
  LittleEndian.value <$> take width

/-- What a byte above those of the admitted widths announces. It is asked only for bytes that
announce no admitted width. -/
def oversize (b : UInt8) : Oversize :=
  if b = 253 then .eightBytes else if b = 254 then .sixteenBytes else .reserved

/-- The kind that the error about a number too wide names, given how many bytes follow. A word with
eight bytes or more after its first is named like a tag. -/
def reported (kind : NumberKind) (following : Nat) : NumberKind :=
  if kind = .word ∧ 8 ≤ following then .tag else kind

/-- A number of variable width. A small number is its own first byte, and other first bytes announce
two, four or eight bytes. A tag has no room for eight. Any admitted width is accepted, also for a
number that would fit in less. -/
def number (kind : NumberKind) : Reader Nat := do
  let b ← byte
  if b ≤ 250 then
    return b.toNat
  else if b = 251 then
    fixed 2
  else if b = 252 then
    fixed 4
  else if b = 253 ∧ kind ≠ .tag then
    fixed 8
  else
    let rest ← get
    throw (.numberTooWide (reported kind rest.length) (oversize b))

/-- A truth value in one byte. Bytes other than 0 and 1 are refused, so a truth value is stored in
one way only. -/
def bool : Reader Bool := do
  let b ← byte
  if b = 0 then return false
  else if b = 1 then return true
  else throw (.invalidBool b)

/-- One of `count` alternatives, by number. The result is below `count` by its type, so callers
match on all cases. -/
def tag (count : Nat) : Reader (Fin count) := do
  let n ← number .tag
  if h : n < count then return ⟨n, h⟩
  else throw (.unknownTag n count)

/-- A value that may be absent: a byte that says whether it is there, then the value. -/
def option {α : Type} (r : Reader α) : Reader (Option α) := do
  let b ← byte
  if b = 0 then return none
  else if b = 1 then some <$> r
  else throw (.invalidOption b)

/-- A text: its number of bytes, then the bytes. They are taken before they are decoded, so a text
that is cut off is reported as missing bytes and not as a broken character. -/
def text : Reader String := do
  let count ← number .word
  let bytes ← take count
  match Text.Utf8.decode bytes with
  | .ok s => return s
  | .error fault => throw (.invalidText fault)

/-- So many values, one after another. The length of the result is a part of its type, as a hash
needs it. -/
def times {α : Type} (r : Reader α) : (count : Nat) → Reader { xs : List α // xs.length = count }
  | 0 => return ⟨[], rfl⟩
  | count + 1 => do
    let x ← r
    let xs ← times r count
    return ⟨x :: xs.val, by simp [xs.property]⟩

/-- A list: its length, then the values. An announced length that is too large fails when the bytes
run out. -/
def list {α : Type} (r : Reader α) : Reader (List α) := do
  let count ← number .length
  Subtype.val <$> times r count

end Reader

end ClassFilter.Wire
