import ClassFilter.Rule

/-!
# `ClassFilter.Draft`: a chain under construction

Elements join a draft one by one. A limit or a pattern is a rule of its own. All
class names of one polarity share one exact rule, at the place of the first of them.
The draft records that place in a slot for each polarity, so that a later name finds
the rule without a search.
-/

set_option autoImplicit false

namespace ClassFilter

/-- The rules made so far, and where the exact rule of each polarity stands. A slot is empty until
the first class name of its polarity, and from then on it holds the index of the rule that the name
made. -/
structure Draft where
  rules : Array Rule := #[]
  allowSlot : Option Nat := none
  denySlot : Option Nat := none

namespace Draft

/-- The draft before the first element. Both slots are empty, so the first class name of either
polarity makes a rule. -/
def empty : Draft := {}

/-- The index of the exact rule of a polarity, if one was made. The two slots are fields of their
own, so setting one leaves the other. -/
def slot (d : Draft) : Polarity → Option Nat
  | .allow => d.allowSlot
  | .deny => d.denySlot

/-- The draft with one more rule at its end. The rules that are there keep their indices, so the
slots stay right. -/
def push (d : Draft) (r : Rule) : Draft :=
  { d with rules := d.rules.push r }

/-- The draft with the slot of a polarity set. This happens once for each polarity, when its exact
rule is made. -/
def setSlot (d : Draft) (p : Polarity) (i : Nat) : Draft :=
  match p with
  | .allow => { d with allowSlot := some i }
  | .deny => { d with denySlot := some i }

/-- The draft with one more class name of a polarity. If the slot holds an index, the name joins the
rule there and no rule is added. Otherwise the name makes the exact rule of its polarity, at the
end. -/
def addName (d : Draft) (p : Polarity) (name : String) : Draft :=
  match d.slot p with
  | some i => { d with rules := d.rules.modify i (·.insertName name) }
  | none => (d.push (.exact p (.singleton name))).setSlot p d.rules.size

/-- The draft with one more element. Limits and patterns are rules of their own, also where the same
one was declared before. -/
def add (d : Draft) : Element → Draft
  | .exact p name => d.addName p name
  | e => d.push (.ofElement e)

/-- The draft that a list of elements makes. This is the loop of compiling after all texts have been
read. -/
def ofElements (elements : List Element) : Draft :=
  elements.foldl add empty

/-- The number of distinct class names of a polarity, as the log counts them. It looks at the rule
in the slot; without a slot there is no class name. -/
def exactSize (d : Draft) (p : Polarity) : Nat :=
  match (d.slot p).bind (d.rules[·]?) with
  | some (.exact _ names) => names.size
  | _ => 0

end Draft

end ClassFilter
