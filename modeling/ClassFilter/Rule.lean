import ClassFilter.Element
import ClassFilter.NameSet
import ClassFilter.Text.Separated

/-!
# `ClassFilter.Rule`: one link of a chain

A rule is an element, except that an exact rule holds a set of class names. `check`
applies one rule on its own to a query, and `text` writes it as specification elements.
-/

set_option autoImplicit false

namespace ClassFilter

/-- One link of a chain. A limit rejects once its metric strictly exceeds `max`, an exact rule
matches the class names of a set, and a wildcard rule the names of its scope, where the text is what
stands before the stars. -/
inductive Rule where
  | limit (metric : Metric) (max : UInt64)
  | exact (polarity : Polarity) (names : NameSet)
  | wildcard (polarity : Polarity) (scope : Scope) (text : String)
deriving DecidableEq

namespace Rule

/-- The rule that an element makes when it stands alone. In a specification a class name may join an
exact rule that is there already instead. -/
def ofElement : Element → Rule
  | .limit metric max => .limit metric max
  | .exact p name => .exact p (.singleton name)
  | .wildcard p scope text => .wildcard p scope text

/-- The elements that make the rule. Those of an exact rule are in increasing order of their names,
which is the order in which the rule is written. -/
def elements : Rule → List Element
  | .limit metric max => [.limit metric max]
  | .exact p names => names.toList.map (.exact p)
  | .wildcard p scope text => [.wildcard p scope text]

/-- The polarity of a class rule. A limit has none: it can only reject. -/
def polarity? : Rule → Option Polarity
  | .limit _ _ => none
  | .exact p _ => some p
  | .wildcard p _ _ => some p

/-- The answer of this rule alone. A limit compares one counter strictly, so a counter that equals
the bound passes. Class rules look at the name only. -/
def check (r : Rule) (q : Query) : Status :=
  match r with
  | .limit metric max =>
    match metric.measure q with
    | some value => if max < value then .reject else .undecided
    | none => .undecided
  | .exact p names => p.answer (decide (q.name ∈ names))
  | .wildcard p scope text => p.answer (scope.covers text q.name)

/-- The rule as it stands in a specification: its elements, with a separator between them. An exact
rule with several names is written as several elements. -/
def text (r : Rule) : String :=
  Text.Separated.join (r.elements.map Element.text)

/-- One more name in an exact rule. Other rules stay as they are, so a name that is sent to the
wrong rule would be lost; the slots of a draft see to it that none is. -/
def insertName (r : Rule) (name : String) : Rule :=
  match r with
  | .exact p names => .exact p (names.insert name)
  | r => r

end Rule

end ClassFilter
