import ClassFilter.Payload

/-!
# `ClassFilter.Payload.Fault`: payloads that no chain is taken from

A payload can be read and still hold entries that make no chain. The counts must agree
and there must be an entry. Then the entries are judged in order: each polarity has at
most one exact entry, exact entries name a class, texts hold no character that the
specification language reserves, and packages are named. Last, a final entry that
allows the empty name alone needs an exact deny entry, because its text would
otherwise be lost.
-/

set_option autoImplicit false

namespace ClassFilter

/-- What is wrong with a payload. Indices count entries from zero. Only one fault is named even
where several apply, and which one that is follows from the order of the tests in
`Payload.validate`. -/
inductive Fault where
  | countMismatch (recorded : UInt64) (carried : Nat)
  | noRules
  | secondExactSet (index : Nat)
  | emptyExactSet (index : Nat)
  | reservedCharacter (index : Nat) (text : String)
  | unnamedPackage (index : Nat) (text : String)
  | finalEmptyName (index : Nat)
deriving DecidableEq, Repr

/-- The fault in words. Indices are shown as they are counted, so the first entry is rule 0. -/
def Fault.message : Fault → String
  | .countMismatch recorded carried =>
    "metadata counts " ++ toString recorded.toNat ++ " rules, payload carries " ++ toString carried
  | .noRules => "chain is empty"
  | .secondExactSet index =>
    "rule " ++ toString index ++ " is a second exact-match set of the same polarity"
  | .emptyExactSet index => "rule " ++ toString index ++ " is an empty exact-match set"
  | .reservedCharacter index text =>
    "rule " ++ toString index ++ " pattern '" ++ text ++ "' contains a reserved character"
  | .unnamedPackage index text =>
    "rule " ++ toString index ++ " has package '" ++ text ++
      "' that is empty or lacks a trailing '.'"
  | .finalEmptyName index =>
    "rule " ++ toString index ++
      " is a final empty-name allow set with no deny set before it"

namespace Entry

/-- The polarity of an exact entry. Limits and patterns have no slot to compete for, so they have
none here. -/
def exactPolarity? : Entry → Option Polarity
  | .exact p _ => some p
  | _ => none

/-- Whether a text holds a character that the specification language reserves. A `!` or a `=` is not
searched for, though neither may stand everywhere in a specification. -/
def hasReserved (text : String) : Bool :=
  text.toList.any fun c => c == '*' || c == ';' || c == '/'

/-- Whether a text ends in a dot that something stands before. Two bytes are asked for, not two
characters; with the dot at the end this comes to the same. -/
def namesPackage (text : String) : Bool :=
  2 ≤ text.utf8ByteSize && ClassName.endsWithDot text.toList

/-- Refuses a text with a reserved character. The fault shows the text, and not which character it
is. -/
def checkText (index : Nat) (text : String) : Except Fault Unit :=
  if hasReserved text then .error (.reservedCharacter index text) else .ok ()

/-- Judges an entry on its own. Every limit passes. The names of an exact entry are judged in their
order, and a package after its characters. -/
def check (index : Nat) : Entry → Except Fault Unit
  | .limit _ _ => .ok ()
  | .exact _ [] => .error (.emptyExactSet index)
  | .exact _ names => names.forM (checkText index)
  | .wildcard _ .stem text => checkText index text
  | .wildcard _ _ text => do
    checkText index text
    if namesPackage text then .ok () else .error (.unnamedPackage index text)

/-- Refuses an exact entry of a polarity that has one already. This comes before the entry's own
content, so a second exact entry without names is a second one. -/
def checkSlot (index : Nat) (seen : List Polarity) (e : Entry) : Except Fault Unit :=
  match e.exactPolarity? with
  | some p => if p ∈ seen then .error (.secondExactSet index) else .ok ()
  | none => .ok ()

/-- Judges entries in order, given the polarities of the exact entries before them, and gives those
of all exact entries. The first entry at fault ends the search. -/
def checkAll (index : Nat) (seen : List Polarity) :
    List Entry → Except Fault (List Polarity)
  | [] => .ok seen
  | e :: rest => do
    e.checkSlot index seen
    e.check index
    checkAll (index + 1) (e.exactPolarity?.toList ++ seen) rest

end Entry

namespace Payload

/-- Whether the last entry allows the empty name alone. The stored list is looked at, so a list that
holds the empty name twice does not count. -/
def endsInEmptyName (p : Payload) : Bool :=
  match p.entries.getLast? with
  | some (.exact .allow names) => names == [""]
  | _ => false

/-- Judges a payload. The count comes first, then that there is an entry, then the entries, and last
the final entry, for which the exact entries of all others are known. -/
def validate (p : Payload) : Except Fault Unit := do
  if p.ruleCount.toNat ≠ p.entries.length then
    throw (.countMismatch p.ruleCount p.entries.length)
  if p.entries.isEmpty then
    throw .noRules
  let seen ← Entry.checkAll 0 [] p.entries
  if p.endsInEmptyName && !seen.contains .deny then
    throw (.finalEmptyName (p.entries.length - 1))

/-- The chain of a payload that passes. Judging changes nothing about the entries. -/
def toChain (p : Payload) : Except Fault Chain := do
  p.validate
  return p.chain

end Payload

end ClassFilter
