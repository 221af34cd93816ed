import ClassFilter.Status

/-!
# `ClassFilter.Event`: what is logged

Compiling a specification and deciding a query each log one event. The functions that
log return their events beside their answer.
-/

set_option autoImplicit false

namespace ClassFilter

/-- One logged event. `compiled` is logged when a specification was compiled, with the number of
rules and of the distinct class names of each polarity. `decided` is logged when a rule settled a
query, with the class, the position, the text and the answer of the rule. The class is empty if the
query has none. -/
inductive Event where
  | compiled (rules exactAllow exactDeny : Nat)
  | decided (className : String) (position : Nat) (rule : String) (status : Status)
deriving DecidableEq, Repr

namespace Event

/-- How much detail a log must ask for to show the event. Decisions are made for every position of a
stream, so they are shown at the highest level of detail only. -/
def level : Event → String
  | .compiled _ _ _ => "DEBUG"
  | .decided _ _ _ _ => "TRACE"

/-- The event's heading. What the event is about follows it in fields of their own. -/
def message : Event → String
  | .compiled _ _ _ => "compiled unmarshalling filter"
  | .decided _ _ _ _ => "filter decided"

end Event

end ClassFilter
