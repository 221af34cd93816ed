import ClassFilter.Status

/-!
# `ClassFilter.Polarity`: granting and forbidding

A class rule either allows the classes it matches or denies them.
-/

set_option autoImplicit false

namespace ClassFilter

/-- Whether a class rule grants or forbids what it matches. A `!` before a pattern makes the
difference in a specification. -/
inductive Polarity where
  | allow
  | deny
deriving DecidableEq, Repr, Inhabited

namespace Polarity

/-- The answer of a rule of this polarity when it matches. Forbidding is rejecting, so a denied
class stops the decoder like a limit that is exceeded. -/
def onMatch : Polarity → Status
  | .allow => .allow
  | .deny => .reject

/-- What stands before a pattern in a specification: nothing, or a `!`. Only one `!` is a marker; a
second one belongs to the pattern. -/
def marker : Polarity → String
  | .allow => ""
  | .deny => "!"

/-- The answer of a rule of this polarity, given whether it matches. Without a match there is no
opinion, and never the answer of the other polarity. -/
def answer (p : Polarity) (isMatch : Bool) : Status :=
  if isMatch then p.onMatch else .undecided

@[simp] theorem answer_true (p : Polarity) : p.answer true = p.onMatch := rfl

@[simp] theorem answer_false (p : Polarity) : p.answer false = .undecided := rfl

/-- A match always settles the query. So the first rule that matches is the last one that a chain
asks. -/
theorem onMatch_ne_undecided (p : Polarity) : p.onMatch ≠ .undecided := by
  cases p <;> simp [onMatch]

end Polarity

end ClassFilter
