import ClassFilter.Metric
import ClassFilter.Polarity
import ClassFilter.Scope

/-!
# `ClassFilter.Element`: one element of a specification

An element is a limit `maxdepth=20`, a class name `com.a.X`, or a pattern that ends in
stars. A `!` before a name or pattern denies it. `Element.text` writes an element;
`Element.parse` (`ClassFilter.Element.Parse`) reads one.
-/

set_option autoImplicit false

namespace ClassFilter

/-- One element of a specification. A limit rejects once its metric strictly exceeds `max`. An exact
element matches one class name, and a wildcard the names of its scope, where the text is what stands
before the stars. -/
inductive Element where
  | limit (metric : Metric) (max : UInt64)
  | exact (polarity : Polarity) (name : String)
  | wildcard (polarity : Polarity) (scope : Scope) (text : String)
deriving DecidableEq, Repr

/-- The element as it stands in a specification. A limit is written without a sign and without
leading zeros, which is one of the spellings that are read. -/
def Element.text : Element → String
  | .limit metric max => metric.keyword ++ "=" ++ toString max.toNat
  | .exact p name => p.marker ++ name
  | .wildcard p scope text => p.marker ++ text ++ scope.stars

end ClassFilter
