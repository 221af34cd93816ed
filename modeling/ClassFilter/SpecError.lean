/-!
# `ClassFilter.SpecError`: why a specification is refused

A `SpecError` names the element at fault, or the whole text when no element is to
blame, and the `Reason`. The wording lives in `Reason.message` and
`SpecError.message` only.
-/

set_option autoImplicit false

namespace ClassFilter

/-- Why an element or a whole specification is refused:

- `missing`: no specification was given at all;
- `empty`: there is no element besides trailing empty ones;
- `modulePattern`: the element holds a `/`;
- `missingLimitValue`, `malformedLimitValue`, `negativeLimit`, `unknownLimit`: nothing stands after
  the `=`, what stands there is no literal of a signed 64-bit word, the literal is below zero, or
  what stands before the `=` is no keyword;
- `bareNegation`: a `!` stands without a pattern;
- `misplacedWildcard`: a star stands in a place or number that no pattern has;
- `emptyPackage`: nothing stands before the dot of a package pattern;
- `embeddedSeparator`: one step of a builder holds a `;`. -/
inductive Reason where
  | missing
  | empty
  | modulePattern
  | missingLimitValue
  | malformedLimitValue (value : String)
  | negativeLimit (value : Int)
  | unknownLimit (keyword : String)
  | bareNegation
  | misplacedWildcard
  | emptyPackage
  | embeddedSeparator
deriving DecidableEq, Repr

namespace Reason

/-- The reason in words. A number or a keyword that is at fault is shown as it was read. -/
def message : Reason → String
  | .missing => "no filter specification was provided"
  | .empty => "specification contains no filter elements"
  | .modulePattern => "module and limit patterns containing '/' are not supported"
  | .missingLimitValue => "limit has no value after '='"
  | .malformedLimitValue _ => "limit value is not an integer"
  | .negativeLimit value => "limit value " ++ toString value ++ " is negative"
  | .unknownLimit keyword =>
    "unknown limit '" ++ keyword ++ "'; expected maxdepth, maxarray, maxrefs or maxbytes"
  | .bareNegation => "'!' must be followed by a class pattern"
  | .misplacedWildcard => "'*' is only allowed as a trailing '*', '.*' or '.**'"
  | .emptyPackage => "package pattern has an empty package name"
  | .embeddedSeparator => "a single element cannot contain the ';' separator"

/-- The text that could not be read as a value, where the reason has one. Of all reasons only a
malformed limit value has an error below it that explains it further. -/
def unreadable? : Reason → Option String
  | .malformedLimitValue value => some value
  | _ => none

/-- The words for a text that could not be read, which is all that the error below a malformed value
says. -/
def unreadableMessage (value : String) : String :=
  "cannot parse '" ++ value ++ "'"

end Reason

/-- A refused specification: `element` is the text of the element at fault, or the whole text where
the reason is about no single element. -/
structure SpecError where
  element : String
  reason : Reason
deriving DecidableEq, Repr

/-- The refusal in words, with the text at fault in single quotes before the reason. -/
def SpecError.message (e : SpecError) : String :=
  "invalid unmarshalling filter specification '" ++ e.element ++ "': " ++ e.reason.message

end ClassFilter
