import ClassFilter.Chain.Compile

/-!
# `ClassFilter.Builder`: a specification made step by step

A builder collects element texts. It compiles to the chain of their join, but a step
may not hold several elements: a `;` inside a step is an error, and all steps are
searched for one before any of them is read.
-/

set_option autoImplicit false

namespace ClassFilter

/-- The element texts collected so far, in the order of the steps. They are kept as text: nothing is
read before the builder is compiled. -/
structure Builder where
  elements : List String := []
deriving DecidableEq, Repr

namespace Builder

/-- The builder before the first step. Compiled as it is, it is refused for having no element. -/
def empty : Builder := {}

/-- One more element, as it stands in a specification. It is taken as it is; a `;` in it is found
when the builder is compiled. -/
def element (b : Builder) (raw : String) : Builder :=
  ⟨b.elements ++ [raw]⟩

/-- One more pattern to allow. A pattern that begins with `!` is a denial all the same, because the
text is all that is kept. -/
def allow (b : Builder) (pattern : String) : Builder :=
  b.element (Polarity.allow.marker ++ pattern)

/-- One more pattern to deny. The marker is put in front, also of a pattern that has one already. -/
def deny (b : Builder) (pattern : String) : Builder :=
  b.element (Polarity.deny.marker ++ pattern)

/-- One more bound on a metric. Any 64-bit word is written down, though only the lower half of them
can be read back. -/
def limit (b : Builder) (metric : Metric) (max : UInt64) : Builder :=
  b.element (Element.limit metric max).text

/-- The chain of the collected elements. They are joined and compiled as a specification, after all
of them were searched for a `;`. So a later element with a `;` is reported even where an earlier one
cannot be read. -/
def compile (b : Builder) : Except SpecError Chain :=
  match b.elements.find? (·.toList.contains Text.Separated.separator) with
  | some e => .error ⟨e, .embeddedSeparator⟩
  | none => Chain.compile (Text.Separated.join b.elements)

end Builder

end ClassFilter
