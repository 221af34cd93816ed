import ClassFilter.Text.Printable
import ClassFilter.Text.Utf8

/-!
# `ClassFilter.Text.Quoted`: bytes shown in double quotes

Bytes that may not be text are shown so that nothing is hidden. Characters stand for
themselves where they can, with a backslash form for quotes, line ends and the like and
`\u{…}` for what does not show. A byte that belongs to no character is `\xHH`.
-/

set_option autoImplicit false

namespace ClassFilter.Text.Quoted

/-- A character between double quotes. A quote, a backslash and the common control characters have
short forms, and what does not show has its number in braces. -/
def escape (c : Char) : List Char :=
  match c with
  | '\x00' => ['\\', '0']
  | '\t' => ['\\', 't']
  | '\r' => ['\\', 'r']
  | '\n' => ['\\', 'n']
  | '\\' => ['\\', '\\']
  | '"' => ['\\', '"']
  | c =>
    if isPrintable c then [c]
    else ['\\', 'u', '\x7b'] ++ Nat.toDigits 16 c.toNat ++ ['\x7d']

/-- A digit of base sixteen, upper case. It is used for bytes; the numbers of characters have
lower-case digits. -/
def hexDigit (n : Nat) : Char :=
  (Nat.digitChar n).toUpper

/-- A byte that belongs to no character, as two digits of base sixteen. Each byte of a broken
sequence is shown on its own. -/
def escapeByte (b : UInt8) : List Char :=
  ['\\', 'x', hexDigit (b.toNat / 16), hexDigit (b.toNat % 16)]

/-- The bytes between the quotes. The first `skip` bytes belong to a character that was shown
already, which keeps the recursion structural on the bytes. -/
def body (skip : Nat) : List UInt8 → List Char
  | [] => []
  | b :: rest =>
    match skip with
    | k + 1 => body k rest
    | 0 =>
      match Utf8.first b rest with
      | .char c width => escape c ++ body (width - 1) rest
      | _ => escapeByte b ++ body 0 rest

/-- Bytes in double quotes, as an error about a value that is no text shows them. No byte is left
out. -/
def quote (bytes : List UInt8) : String :=
  String.ofList ('"' :: body 0 bytes ++ ['"'])

end ClassFilter.Text.Quoted
