import ClassFilter.Chain
import ClassFilter.Draft
import ClassFilter.Element.Parse
import ClassFilter.Event

/-!
# `ClassFilter.Chain.Compile`: from a specification to a chain

A specification is split at its semicolons, and empty elements at its end are dropped. The texts
that are left are read one after another, and each element joins the draft before the next text is
read. The first text that cannot be read is the error, and nothing after it is looked at. If no rule
was made, which is so if there was no text, the error is about the whole input.
-/

set_option autoImplicit false

namespace ClassFilter

namespace Draft

/-- The chain of a draft's rules, in the order in which the draft made them. -/
def chain (d : Draft) : Chain := ⟨d.rules.toList⟩

/-- The event of a finished draft. The class names are counted in the rules that the slots point to,
so a polarity without class names counts none. -/
def compiledEvent (d : Draft) : Event :=
  .compiled d.rules.size (d.exactSize .allow) (d.exactSize .deny)

/-- One turn of the loop: a text is read, and its element joins the draft. A text that cannot be
read leaves no draft, so what was collected before it is lost with it. -/
def read (d : Draft) (text : String) : Except SpecError Draft :=
  (Element.parse text).map d.add

/-- The loop over texts, from the empty draft. It stops at the first text that cannot be read, and
that text is the one the error names. -/
def readAll (texts : List String) : Except SpecError Draft :=
  texts.foldlM read empty

/-- The draft of texts, if there is any. Errors that are about no single text name `source`, the
input that the texts were taken from. -/
def ofTexts (texts : List String) (source : String) : Except SpecError Draft := do
  let d ← readAll texts
  if d.rules.isEmpty then
    throw ⟨source, .empty⟩
  return d

/-- The draft that a specification makes. Empty texts at its end are dropped before the loop, while
those at its front and in its middle are class names. -/
def ofSpec (spec : String) : Except SpecError Draft :=
  ofTexts (Text.Separated.dropTrailingEmpty (Text.Separated.split spec)) spec

end Draft

namespace Chain

/-- The chain that a specification makes. An error names the element at fault, or the whole
specification if it has none. -/
def compile (spec : String) : Except SpecError Chain :=
  (Draft.ofSpec spec).map Draft.chain

/-- The chain of texts with its log: one event on success, and none where compiling fails. -/
def compileTexts (texts : List String) (source : String) : Except SpecError Chain × List Event :=
  match Draft.ofTexts texts source with
  | .ok d => (.ok d.chain, [d.compiledEvent])
  | .error e => (.error e, [])

/-- `compile` with its log, which is what callers with a subscriber see. -/
def compileLogged (spec : String) : Except SpecError Chain × List Event :=
  compileTexts (Text.Separated.dropTrailingEmpty (Text.Separated.split spec)) spec

/-- The log changes nothing about the chain. Callers who do not log use `compile`. -/
theorem fst_compileLogged (spec : String) : (compileLogged spec).1 = compile spec := by
  unfold compileLogged compileTexts compile Draft.ofSpec
  cases Draft.ofTexts _ spec <;> rfl

end Chain

end ClassFilter
