import ClassFilter.Element
import ClassFilter.SpecError
import ClassFilter.Text.Decimal

/-!
# `ClassFilter.Element.Parse`: reading one element

`Element.parse` reads one element on its own. Where several reasons against it apply,
the first in the order of these tests counts:

1. a `/` anywhere;
2. with an `=`: nothing after the first `=`, no literal after it, a negative value, an
   unknown keyword before it;
3. a `!` alone;
4. one or two stars after a lone dot;
5. stars in any place or number but `text*`, `pkg.*` and `pkg.**`.

The empty element is the class name `""`, which a query without a class matches.
-/

set_option autoImplicit false

namespace ClassFilter.Element

/-- Reads what stands before and after the first `=`. The value is judged before the keyword: it
must be there, be a literal of a signed word, and not be negative. A bad value is therefore reported
also where the keyword is unknown. -/
def readLimit (keyword value : List Char) : Except Reason Element :=
  if value = [] then
    .error .missingLimitValue
  else
    match Text.Decimal.word? value with
    | none => .error (.malformedLimitValue (String.ofList value))
    | some v =>
      if v < 0 then
        .error (.negativeLimit v)
      else
        match Metric.ofKeyword? (String.ofList keyword) with
        | none => .error (.unknownLimit (String.ofList keyword))
        | some metric => .ok (.limit metric (UInt64.ofNat v.toNat))

/-- Reads a pattern whose `!` is stripped. It is split at its first star. Nothing may stand behind
the stars, two stars need a dot before them, and more than two are misplaced. -/
def readPattern (p : Polarity) (pattern : List Char) : Except Reason Element :=
  let front := pattern.takeWhile (· != '*')
  match pattern.dropWhile (· != '*') with
  | [] => .ok (.exact p (String.ofList front))
  | ['*'] =>
    if front = ['.'] then .error .emptyPackage
    else if ClassName.endsWithDot front then .ok (.wildcard p .package (String.ofList front))
    else .ok (.wildcard p .stem (String.ofList front))
  | ['*', '*'] =>
    if front = ['.'] then .error .emptyPackage
    else if ClassName.endsWithDot front then .ok (.wildcard p .hierarchy (String.ofList front))
    else .error .misplacedWildcard
  | _ => .error .misplacedWildcard

/-- Reads an element without `/` and `=`. Only one `!` is stripped, so `!!a` denies the class `!a`,
and a `!` alone is refused. -/
def readClass : List Char → Except Reason Element
  | ['!'] => .error .bareNegation
  | '!' :: pattern => readPattern .deny pattern
  | pattern => readPattern .allow pattern

/-- Reads an element from its characters. A `/` is refused before anything else is looked at, and
the first `=` makes the element a limit, whatever else it holds. -/
def read (cs : List Char) : Except Reason Element :=
  if '/' ∈ cs then
    .error .modulePattern
  else
    match cs.dropWhile (· != '=') with
    | [] => readClass cs
    | _ :: value => readLimit (cs.takeWhile (· != '=')) value

/-- Reads an element. An error names the whole text, marker and stars included, and not the part of
it that is at fault. -/
def parse (text : String) : Except SpecError Element :=
  match read text.toList with
  | .ok e => .ok e
  | .error reason => .error ⟨text, reason⟩

end ClassFilter.Element
