import ClassFilter.Chain
import ClassFilter.Event

/-!
# `ClassFilter.Chain.Decision`: asking a chain

Rules are asked in order, and the first with an opinion settles the query. `decide?`
finds it; the plain answer, the report and the log all read their parts off that one
decision.
-/

set_option autoImplicit false

namespace ClassFilter

/-- The rule that settled a query, where it stands, and its answer. The rules before it had no
opinion, and those after it were not asked. -/
structure Decision where
  position : Nat
  rule : Rule
  status : Status
deriving DecidableEq

/-- An answer with its evidence: `decidedBy` has the position and the text of the rule that settled
the query, and `checked` is the number of rules that were asked. Without a decision that is all of
them. -/
structure Report where
  status : Status
  decidedBy : Option (Nat × String)
  checked : Nat
deriving DecidableEq, Repr

/-- The report on one line, with the rule's position behind a `#`. How long the evaluation took is
not a part of it. -/
def Report.text (r : Report) : String :=
  let origin :=
    match r.decidedBy with
    | some (position, rule) => "rule #" ++ toString position ++ ": " ++ rule
    | none => "rule: none"
  "status: " ++ r.status.text ++ ", " ++ origin ++ ", checked: " ++ toString r.checked

namespace Chain

/-- The first rule with an opinion, counting positions from `start`. The position is carried along,
so the recursion need not know how many rules it left behind. -/
def decideFrom? (q : Query) (start : Nat) : List Rule → Option Decision
  | [] => none
  | r :: rest =>
    match r.check q with
    | .undecided => decideFrom? q (start + 1) rest
    | status => some ⟨start, r, status⟩

/-- The first rule with an opinion, with positions counted from zero. The plain answer, the report
and the log all start here. -/
def decide? (c : Chain) (q : Query) : Option Decision :=
  decideFrom? q 0 c.rules

/-- The chain's answer: that of the first rule with an opinion. Without one the question is left
open. -/
def evaluate (c : Chain) (q : Query) : Status :=
  match c.decide? q with
  | some d => d.status
  | none => .undecided

/-- The chain's answer with its evidence. The rule is named by its position and by its text, so the
evidence can be read without the chain. -/
def explain (c : Chain) (q : Query) : Report :=
  match c.decide? q with
  | some d => ⟨d.status, some (d.position, d.rule.text), d.position + 1⟩
  | none => ⟨.undecided, none, c.size⟩

/-- `evaluate` with its log. A decision logs one event; a query without a decision logs nothing,
although all rules were asked. -/
def evaluateLogged (c : Chain) (q : Query) : Status × List Event :=
  match c.decide? q with
  | some d => (d.status, [.decided q.name d.position d.rule.text d.status])
  | none => (.undecided, [])

/-- The log changes nothing about the answer, so statements about `evaluate` hold of what a caller
with a subscriber gets. -/
theorem fst_evaluateLogged (c : Chain) (q : Query) : (c.evaluateLogged q).1 = c.evaluate q := by
  unfold evaluateLogged evaluate
  cases c.decide? q <;> rfl

end Chain

/-- Whatever a stream decoder can ask before it goes on. `checkInput` gives the answer for one
position of the stream. -/
class InputFilter (α : Type) where
  checkInput : α → Query → Status

/-- A chain is a filter, and answers by its first rule with an opinion. Decoders ask it through this
instance. -/
instance : InputFilter Chain := ⟨Chain.evaluate⟩

/-- A plain function from positions to answers is a filter. A decoder that asks through the class
does not know which it has. -/
instance : InputFilter (Query → Status) := ⟨fun f => f⟩

end ClassFilter
