import ClassFilter.ClassName

/-!
# `ClassFilter.Scope`: which names a pattern covers

A pattern is a text before stars. One star after a dot covers a package, two stars
after a dot cover all packages below as well, and one star after any other text covers
every name that begins with the text.
-/

set_option autoImplicit false

namespace ClassFilter

/-- Which classes a wildcard pattern covers. `com.a.*` covers a package, which is the classes
declared directly in it. `com.a.**` covers a hierarchy, with the packages below as well. Any other
`text*` covers the stem, which is every name that begins with the text, dots or not. -/
inductive Scope where
  | package
  | hierarchy
  | stem
deriving DecidableEq, Repr, Inhabited

namespace Scope

/-- The stars that end a pattern of this scope. A package and a stem have the same one: the dot
before it tells them apart. -/
def stars : Scope → String
  | .package => "*"
  | .hierarchy => "**"
  | .stem => "*"

/-- Whether a name lies in the scope with this text before the stars. The text of a package or
hierarchy includes its trailing dot. A hierarchy and a stem are matched in the same way and differ
only in what their text may be. -/
def covers (s : Scope) (text name : String) : Bool :=
  match s with
  | .package => ClassName.package? name == some text
  | .hierarchy => ClassName.startsWith name text
  | .stem => ClassName.startsWith name text

end Scope

end ClassFilter
