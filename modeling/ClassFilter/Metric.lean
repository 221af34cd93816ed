import ClassFilter.Query

/-!
# `ClassFilter.Metric`: the counters a limit can bound

Four counters of a `Query` can be bounded. Each has one keyword in a
specification, and `ofKeyword?` reads exactly these keywords back
(`ofKeyword?_keyword`, `keyword_of_ofKeyword?`).
-/

set_option autoImplicit false

namespace ClassFilter

/-- A counter that a limit rule bounds. There is one for each counter of a `Query`, and the class
name is not among them: classes are matched, not counted. -/
inductive Metric where
  | depth
  | arrayLength
  | references
  | streamBytes
deriving DecidableEq, Repr, Inhabited

namespace Metric

/-- All metrics, in the order of their stored numbers. Keywords are looked up in this list, and a
builder lists the metrics it knows in the same order. -/
def all : List Metric :=
  [.depth, .arrayLength, .references, .streamBytes]

/-- The word on the left of `=` in a specification. No keyword holds a `=`, so the first `=` of a
limit is where the keyword ends. -/
def keyword : Metric → String
  | .depth => "maxdepth"
  | .arrayLength => "maxarray"
  | .references => "maxrefs"
  | .streamBytes => "maxbytes"

/-- The metric with this keyword. Case matters, and nothing is trimmed, so ` maxdepth` and
`MaxDepth` name no metric and the element is refused. -/
def ofKeyword? (word : String) : Option Metric :=
  all.find? (·.keyword == word)

/-- The counter's value at a position. An array length exists only in an array, so a limit on it has
nothing to compare elsewhere and no opinion there. -/
def measure (m : Metric) (q : Query) : Option UInt64 :=
  match m with
  | .depth => some q.depth
  | .arrayLength => q.arrayLength
  | .references => some q.references
  | .streamBytes => some q.streamBytes

/-- The number that stands for a metric where it is stored. A blob holds this number and not the
keyword. -/
def index : Metric → Fin 4
  | .depth => 0
  | .arrayLength => 1
  | .references => 2
  | .streamBytes => 3

/-- The metric that a number stands for. Every number below four stands for one, so reading a blob
refuses only larger numbers. -/
def ofIndex : Fin 4 → Metric
  | 0 => .depth
  | 1 => .arrayLength
  | 2 => .references
  | 3 => .streamBytes

@[simp] theorem ofIndex_index (m : Metric) : ofIndex m.index = m := by
  cases m <;> rfl

@[simp] theorem ofKeyword?_keyword (m : Metric) : ofKeyword? m.keyword = some m := by
  cases m <;> decide

/-- A word that names a metric is that metric's keyword. With `ofKeyword?_keyword` this makes
reading a limit and writing it inverse to each other. -/
theorem keyword_of_ofKeyword? {word : String} {m : Metric} (h : ofKeyword? word = some m) :
    m.keyword = word := by
  have hm := List.find?_some h
  simpa using hm

end Metric

end ClassFilter
