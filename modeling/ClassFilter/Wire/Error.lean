import ClassFilter.Text.Utf8

/-!
# `ClassFilter.Wire.Error`: why bytes are no value

Reading stops at the first byte that cannot stand where it is, and the error says which
value was expected there.
-/

set_option autoImplicit false

namespace ClassFilter.Wire

/-- The numbers that a value is made of: the number of an alternative, of 32 bits, a counter or the
length of a text, of 64 bits, and the length of a list, of 64 bits. They differ in the widths they
admit and in the name that error texts give them. -/
inductive NumberKind where
  | tag
  | word
  | length
deriving DecidableEq, Repr

/-- The name in error texts. The two kinds of 64 bits have different ones. -/
def NumberKind.name : NumberKind → String
  | .tag => "U32"
  | .word => "U64"
  | .length => "Usize"

/-- What a byte announces that the expected number has no room for. The last one announces nothing
at all and is kept for later. -/
inductive Oversize where
  | eightBytes
  | sixteenBytes
  | reserved
deriving DecidableEq, Repr

/-- The name in error texts, which is that of the width that was announced. -/
def Oversize.name : Oversize → String
  | .eightBytes => "U64"
  | .sixteenBytes => "U128"
  | .reserved => "Reserved"

/-- Why bytes are no value:

- `unexpectedEnd`: so many bytes more were needed;
- `numberTooWide`: a number is announced in a width that its kind does not admit;
- `invalidBool`, `invalidOption`: neither 0 nor 1 stands where a truth value does, or where a value
  may be absent;
- `unknownTag`: a number names none of `count` alternatives;
- `invalidText`: the bytes of a text are no UTF-8. -/
inductive DecodeError where
  | unexpectedEnd (additional : Nat)
  | numberTooWide (expected : NumberKind) (found : Oversize)
  | invalidBool (byte : UInt8)
  | invalidOption (byte : UInt8)
  | unknownTag (tag count : Nat)
  | invalidText (fault : Text.Utf8.Fault)
deriving DecidableEq, Repr

/-- The error in words. Where the fault stands is said of texts only, as an offset inside the
text. -/
def DecodeError.message : DecodeError → String
  | .unexpectedEnd additional =>
    "UnexpectedEnd \x7b additional: " ++ toString additional ++ " \x7d"
  | .numberTooWide expected found =>
    "InvalidIntegerType \x7b expected: " ++ expected.name ++ ", found: " ++ found.name ++ " \x7d"
  | .invalidBool byte => "InvalidBooleanValue(" ++ toString byte.toNat ++ ")"
  | .invalidOption byte =>
    "UnexpectedVariant \x7b type_name: \"Option<T>\", allowed: Range \x7b min: 0, max: 1 \x7d, found: "
      ++ toString byte.toNat ++ " \x7d"
  | .unknownTag tag count =>
    "OtherString(\"invalid value: integer `" ++ toString tag ++
      "`, expected variant index 0 <= i < " ++ toString count ++ "\")"
  | .invalidText fault =>
    let length :=
      match fault.length with
      | some n => "Some(" ++ toString n ++ ")"
      | none => "None"
    "Utf8 \x7b inner: Utf8Error \x7b valid_up_to: " ++ toString fault.validUpTo ++
      ", error_len: " ++ length ++ " \x7d \x7d"

end ClassFilter.Wire
