/-!
# `ClassFilter.Text.Utf8`: text as bytes, with exact fault reports

`first` reads one character off the front of a byte list. It accepts the shortest form
of each Unicode scalar value and nothing else. Where no character can be read it says
how many bytes of a broken sequence belong together, or that the bytes end inside a
sequence which is good so far. `decode` reads a whole list and reports the offset of
the first fault.
-/

set_option autoImplicit false

namespace ClassFilter.Text.Utf8

/-- What stands at the front of a byte list: a character in `width` bytes, `length` bytes that begin
like a character and break off, or a sequence that is good so far when the list ends. -/
inductive First where
  | char (c : Char) (width : Nat)
  | broken (length : Nat)
  | cut
deriving DecidableEq, Repr

/-- The first fault of a byte list. `validUpTo` bytes before it are good. `length` is that of the
broken sequence, and absent where the list ends inside a sequence that is good so far. -/
structure Fault where
  validUpTo : Nat
  length : Option Nat
deriving DecidableEq, Repr

/-- Whether a byte can only stand after the first of a sequence. Such a byte at the front of a list
is a fault of length one. -/
def isContinuation (b : UInt8) : Bool :=
  0x80 ≤ b && b ≤ 0xBF

/-- The low six bits, which a continuation byte carries. The two bits above them are fixed and carry
nothing. -/
def low6 (b : UInt8) : Nat := b.toNat % 64

/-- Whether `b1` may follow the first byte `b0` of a sequence of two to four. The
tighter ranges rule out longer forms than needed, surrogates, and values past the last
code point. -/
def mayFollow (b0 b1 : UInt8) : Bool :=
  if b0 = 0xE0 then 0xA0 ≤ b1 && b1 ≤ 0xBF
  else if b0 = 0xED then 0x80 ≤ b1 && b1 ≤ 0x9F
  else if b0 = 0xF0 then 0x90 ≤ b1 && b1 ≤ 0xBF
  else if b0 = 0xF4 then 0x80 ≤ b1 && b1 ≤ 0x8F
  else isContinuation b1

/-- The length of the sequence that a byte begins; zero if it begins none. Bytes that could only
begin a longer form than needed, or a value past the last code point, begin none. -/
def widthOf (b0 : UInt8) : Nat :=
  if b0 < 0x80 then 1
  else if 0xC2 ≤ b0 && b0 ≤ 0xDF then 2
  else if 0xE0 ≤ b0 && b0 ≤ 0xEF then 3
  else if 0xF0 ≤ b0 && b0 ≤ 0xF4 then 4
  else 0

/-- The front of the list `b0 :: rest`. A broken sequence is as long as its good beginning, so that
reading could go on behind it. -/
def first (b0 : UInt8) (rest : List UInt8) : First :=
  match widthOf b0, rest with
  | 1, _ => .char (Char.ofNat b0.toNat) 1
  | 2, [] => .cut
  | 2, b1 :: _ =>
    if mayFollow b0 b1 then .char (Char.ofNat (b0.toNat % 32 * 64 + low6 b1)) 2
    else .broken 1
  | 3, [] => .cut
  | 3, b1 :: rest1 =>
    if mayFollow b0 b1 then
      match rest1 with
      | [] => .cut
      | b2 :: _ =>
        if isContinuation b2 then
          .char (Char.ofNat ((b0.toNat % 16 * 64 + low6 b1) * 64 + low6 b2)) 3
        else .broken 2
    else .broken 1
  | 4, [] => .cut
  | 4, b1 :: rest1 =>
    if mayFollow b0 b1 then
      match rest1 with
      | [] => .cut
      | b2 :: rest2 =>
        if isContinuation b2 then
          match rest2 with
          | [] => .cut
          | b3 :: _ =>
            if isContinuation b3 then
              .char
                (Char.ofNat (((b0.toNat % 8 * 64 + low6 b1) * 64 + low6 b2) * 64 + low6 b3)) 4
            else .broken 3
        else .broken 2
    else .broken 1
  | _, _ => .broken 1

/-- Reads characters. `offset` bytes were read before, and the first `skip` bytes of the list belong
to a character that was read already. So the recursion takes one byte at a time and is
structural. -/
def decodeFrom (offset skip : Nat) : List UInt8 → Except Fault (List Char)
  | [] => .ok []
  | b :: rest =>
    match skip with
    | k + 1 => decodeFrom (offset + 1) k rest
    | 0 =>
      match first b rest with
      | .char c width => (decodeFrom (offset + 1) (width - 1) rest).map (c :: ·)
      | .broken length => .error ⟨offset, some length⟩
      | .cut => .error ⟨offset, none⟩

/-- Reads a text, or reports the first fault. Surrogates and forms that are longer than needed are
faults, so every text has one byte form only. -/
def decode (bytes : List UInt8) : Except Fault String :=
  (decodeFrom 0 0 bytes).map String.ofList

/-- The bytes of a text, character by character. Names are compared, hashed and stored in this
form. -/
def encode (text : String) : List UInt8 :=
  text.toList.flatMap String.utf8EncodeChar

end ClassFilter.Text.Utf8
