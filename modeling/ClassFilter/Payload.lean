import ClassFilter.Blake3
import ClassFilter.Chain
import ClassFilter.Wire.Reader
import ClassFilter.Wire.Writer

/-!
# `ClassFilter.Payload`: what a blob carries

A payload holds the rules of a chain as entries, their count, and the hash of the
specification they came from, if it was recorded. An entry keeps the class names of an
exact rule as they are stored, in any order and with repeats: whether stored entries
make a chain is judged on these lists (`Payload.Fault`).

`write` and `read` are the byte form. Fields follow each other in order.
-/

set_option autoImplicit false

namespace ClassFilter

/-- A rule as it is stored. It is a rule except that the class names of an exact entry are a list,
which may be in any order and repeat names. -/
inductive Entry where
  | limit (metric : Metric) (max : UInt64)
  | exact (polarity : Polarity) (names : List String)
  | wildcard (polarity : Polarity) (scope : Scope) (text : String)
deriving DecidableEq, Repr

/-- The content of a blob. `ruleCount` is the number of rules that the writer counted, and
`sourceDigest` the hash of the specification, if the writer was given one. -/
structure Payload where
  ruleCount : UInt64
  sourceDigest : Option Digest
  entries : List Entry
deriving DecidableEq

namespace Entry

/-- A rule as it is stored: the names of an exact rule in increasing order. So equal rules are
stored alike. -/
def ofRule : Rule → Entry
  | .limit metric max => .limit metric max
  | .exact p names => .exact p names.toList
  | .wildcard p scope text => .wildcard p scope text

/-- The rule that an entry stands for. The names of an exact entry become a set, whatever their
order and number. -/
def rule : Entry → Rule
  | .limit metric max => .limit metric max
  | .exact p names => .exact p (.ofList names)
  | .wildcard p scope text => .wildcard p scope text

/-- Whether a polarity denies, which is how it is stored. Stored `false` allows. -/
def denies : Polarity → Bool
  | .allow => false
  | .deny => true

/-- The polarity that denies or does not. It undoes `denies`, so every stored truth value is a
polarity. -/
def polarityOf (deny : Bool) : Polarity :=
  if deny then .deny else .allow

/-- The number that tells the kind of an entry. The three scopes of patterns have numbers of their
own, so the scope is not stored besides. -/
def tag : Entry → Fin 5
  | .limit _ _ => 0
  | .exact _ _ => 1
  | .wildcard _ .package _ => 2
  | .wildcard _ .hierarchy _ => 3
  | .wildcard _ .stem _ => 4

/-- The bytes of an entry: its kind, then its fields. An exact entry is its polarity and the list of
its names, and a pattern its polarity and its text. -/
def write (e : Entry) : List UInt8 :=
  Wire.Writer.number e.tag.val ++
    match e with
    | .limit metric max =>
      Wire.Writer.number metric.index.val ++ Wire.Writer.number max.toNat
    | .exact p names =>
      Wire.Writer.bool (denies p) ++ Wire.Writer.list Wire.Writer.text names
    | .wildcard p _ text =>
      Wire.Writer.bool (denies p) ++ Wire.Writer.text text

/-- Reads a polarity and a text. The three kinds of patterns have this in common, and their kind has
been read before. -/
def readWildcard (scope : Scope) : Wire.Reader Entry := do
  let deny ← Wire.Reader.bool
  let text ← Wire.Reader.text
  return .wildcard (polarityOf deny) scope text

/-- Reads an entry. The kind decides which fields follow, and all five kinds that can be announced
are read. -/
def read : Wire.Reader Entry := do
  match ← Wire.Reader.tag 5 with
  | 0 =>
    let metric ← Wire.Reader.tag 4
    let max ← Wire.Reader.number .word
    return .limit (Metric.ofIndex metric) (UInt64.ofNat max)
  | 1 =>
    let deny ← Wire.Reader.bool
    let names ← Wire.Reader.list Wire.Reader.text
    return .exact (polarityOf deny) names
  | 2 => readWildcard .package
  | 3 => readWildcard .hierarchy
  | 4 => readWildcard .stem

end Entry

namespace Payload

/-- The hash that stands for a specification. It is that of the bytes of the text, before anything
is split or dropped. -/
def digestOf (source : String) : Digest :=
  Blake3.hash (Text.Utf8.encode source)

/-- A chain as it is stored, with the hash of its specification if that is given. Nothing is asked
about the chain: one that no blob is loaded as can be stored too. -/
def ofChain (c : Chain) (source : Option String) : Payload :=
  ⟨UInt64.ofNat c.size, source.map digestOf, c.rules.map Entry.ofRule⟩

/-- The chain that the entries stand for, in their order. Whether a blob may be loaded as this chain
is judged on the entries before. -/
def chain (p : Payload) : Chain :=
  ⟨p.entries.map Entry.rule⟩

/-- The bytes of a payload: the count, the hash if there is one, and the entries with their number
in front. -/
def write (p : Payload) : List UInt8 :=
  Wire.Writer.number p.ruleCount.toNat ++
    (Wire.Writer.option Subtype.val p.sourceDigest ++ Wire.Writer.list Entry.write p.entries)

/-- Reads a payload off the front of a byte list. The count is read and not compared here, so that
decoding has no errors about content. -/
def read : Wire.Reader Payload := do
  let ruleCount ← Wire.Reader.number .word
  let sourceDigest ← Wire.Reader.option (Wire.Reader.times Wire.Reader.byte 32)
  let entries ← Wire.Reader.list Entry.read
  return ⟨UInt64.ofNat ruleCount, sourceDigest, entries⟩

/-- Reads a payload. Bytes after it do not matter, which leaves room for fields of a later
writer. -/
def decode (bytes : List UInt8) : Except Wire.DecodeError Payload :=
  (read.run bytes).map Prod.fst

end Payload

end ClassFilter
