import ClassFilter.Rule

/-!
# `ClassFilter.Chain`: rules in the order they are asked

A chain is a list of rules. `Chain.text` writes it as a specification. An element is
repeated at the end where the specification would otherwise end in an empty element,
which compiling drops.
-/

set_option autoImplicit false

namespace ClassFilter

/-- Rules in the order they are asked. A chain can be compiled from a specification, loaded from a
blob or put together freely, and not every list of rules has a specification. -/
structure Chain where
  rules : List Rule
deriving DecidableEq

namespace Chain

/-- The number of rules. A blob stores it beside the rules, so that the two can be compared. -/
def size (c : Chain) : Nat := c.rules.length

/-- Whether there is no rule. No specification compiles to such a chain, and no blob is loaded as
one. -/
def isEmpty (c : Chain) : Bool := c.rules.isEmpty

/-- Whether the last rule allows the empty name and no other. Its text is an empty element, which is
lost where it ends a specification. -/
def endsInEmptyName (c : Chain) : Bool :=
  match c.rules.getLast? with
  | some (.exact .allow names) => names.toList == [""]
  | _ => false

/-- The least name of the first exact deny rule that has one. Any denied name could be repeated;
taking the least one makes the text canonical. -/
def leastDenied? (c : Chain) : Option String :=
  c.rules.findSome? fun
    | .exact .deny names => names.min?
    | _ => none

/-- An element to repeat at the end, so that the last rule keeps its element. The name is in an
exact deny rule already, so reading it again adds nothing. -/
def anchor? (c : Chain) : Option String :=
  if c.endsInEmptyName then c.leastDenied?.map (Polarity.deny.marker ++ ·) else none

/-- The chain as a specification. Of a compiled chain it is one that compiles to the same chain. -/
def text (c : Chain) : String :=
  Text.Separated.join (c.rules.map Rule.text ++ c.anchor?.toList)

end Chain

end ClassFilter
