/-!
# `ClassFilter.Query`: a position in the decoded stream

A decoder asks the filter at every resolved class and every structural step. The
question is a `Query`: the class in hand, if any, and the counters kept so far.
-/

set_option autoImplicit false

namespace ClassFilter

/-- What a decoder knows when it asks. The class is absent between classes, and the array length is
absent at a position that is no array. All counters are 64-bit words, and they only grow while one
stream is decoded. -/
structure Query where
  className : Option String := none
  depth : UInt64 := 0
  arrayLength : Option UInt64 := none
  references : UInt64 := 0
  streamBytes : UInt64 := 0
deriving DecidableEq, Repr, Inhabited

namespace Query

/-- The name that class rules look at. An absent class reads as the empty name, so the rule that
allows the empty name matches a position without a class as well. -/
def name (q : Query) : String :=
  q.className.getD ""

/-- The position before anything is read: no class, no array, all counters zero. No limit rejects
it, whatever the bound. -/
def start : Query := {}

end Query

end ClassFilter
