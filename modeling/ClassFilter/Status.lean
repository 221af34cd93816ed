/-!
# `ClassFilter.Status`: the answers a filter can give

A rule, and a chain of rules, answers a query with a `Status`. Only `undecided`
leaves the question to whoever asks next.
-/

set_option autoImplicit false

namespace ClassFilter

/-- The answer to a query. `allow` lets the class be decoded, `reject` stops the decoder, and
`undecided` leaves the question to whoever asks next: the next rule of a chain, or the caller at its
end. -/
inductive Status where
  | allow
  | reject
  | undecided
deriving DecidableEq, Repr, Inhabited

namespace Status

/-- An answer other than `undecided` settles the query. A chain stops at the first rule whose answer
does. -/
def isDecided : Status → Bool
  | .undecided => false
  | _ => true

/-- Whether decoding must stop. An open question is no rejection: what to do about it is for the
caller. -/
def isRejected : Status → Bool
  | .reject => true
  | _ => false

/-- The upper-case word for an answer. Reports and logged events show answers by these words. -/
def text : Status → String
  | .allow => "ALLOW"
  | .reject => "REJECT"
  | .undecided => "UNDECIDED"

end Status

end ClassFilter
