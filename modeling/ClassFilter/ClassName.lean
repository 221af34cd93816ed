/-!
# `ClassFilter.ClassName`: the parts of a class name

A class name is a dotted text. Its package is the part through the last dot, so
`com.a.X` lies in `com.a.`. A name without a dot has no package. `package?_eq_some_iff`
says this without mentioning a search.
-/

set_option autoImplicit false

namespace ClassFilter.ClassName

/-- The characters through the last dot. The recursion looks for a dot behind the first character
before it looks at that character, since a later dot takes its place. -/
def throughLastDot? : List Char → Option (List Char)
  | [] => none
  | c :: cs =>
    match throughLastDot? cs with
    | some front => some (c :: front)
    | none => if c = '.' then some ['.'] else none

/-- The package of a name, with its trailing dot. A name without a dot lies in no package, and a
name that ends in a dot is its own package. -/
def package? (name : String) : Option String :=
  (throughLastDot? name.toList).map String.ofList

/-- Whether a name begins with a text. Every name begins with the empty text, so a stem without a
text matches every class. -/
def startsWith (name text : String) : Bool :=
  text.toList.isPrefixOf name.toList

/-- Whether the last character is a dot. This is what tells a package pattern from a stem, both of
which have one star. -/
def endsWithDot (cs : List Char) : Bool :=
  cs.getLast? == some '.'

theorem throughLastDot?_eq_none_iff {cs : List Char} : throughLastDot? cs = none ↔ '.' ∉ cs := by
  induction cs with
  | nil => simp [throughLastDot?]
  | cons c cs ih =>
    unfold throughLastDot?
    split
    · rename_i front h
      have hdot : '.' ∈ cs := Decidable.byContradiction fun hd => by simp [ih.2 hd] at h
      simp [hdot]
    · rename_i h
      by_cases hc : c = '.'
      · simp [hc]
      · simp [hc, ih.1 h, eq_comm]

/-- The front ends in a dot, and no dot follows it. Both halves together pin the front down, so a
name has one package at most. -/
theorem throughLastDot?_eq_some_iff {cs front : List Char} :
    throughLastDot? cs = some front ↔
      ∃ body tail, front = body ++ ['.'] ∧ cs = front ++ tail ∧ '.' ∉ tail := by
  induction cs generalizing front with
  | nil =>
    simp only [throughLastDot?, List.nil_eq, List.append_eq_nil_iff, reduceCtorEq, false_iff]
    rintro ⟨body, tail, rfl, h, _⟩
    simp at h
  | cons c cs ih =>
    constructor
    · intro h
      unfold throughLastDot? at h
      split at h
      · rename_i front' h'
        obtain ⟨body, tail, rfl, rfl, ht⟩ := ih.1 h'
        cases h
        exact ⟨c :: body, tail, rfl, rfl, ht⟩
      -- The tail has no dot, so the front is the first character alone if that is one.
      · rename_i h'
        split at h
        · rename_i hc
          cases h
          exact ⟨[], cs, rfl, by simp [hc], throughLastDot?_eq_none_iff.1 h'⟩
        · cases h
    · intro ⟨body, tail, hfront, hcs, ht⟩
      subst hfront
      cases body with
      | nil =>
        simp only [List.nil_append, List.cons_append, List.cons.injEq] at hcs
        obtain ⟨rfl, rfl⟩ := hcs
        simp [throughLastDot?, throughLastDot?_eq_none_iff.2 ht]
      | cons b body =>
        simp only [List.cons_append, List.cons.injEq] at hcs
        obtain ⟨rfl, rfl⟩ := hcs
        have h' : throughLastDot? (body ++ ['.'] ++ tail) = some (body ++ ['.']) :=
          ih.2 ⟨body, tail, rfl, rfl, ht⟩
        rw [throughLastDot?, h']
        rfl

/-- A name lies in a package if it is the package's text, which ends in a dot, and a rest without
dots. What package rules match is proved from this, without another look at the characters. -/
theorem package?_eq_some_iff {name text : String} :
    package? name = some text ↔
      ∃ body tail, text.toList = body ++ ['.'] ∧ name.toList = text.toList ++ tail ∧
        '.' ∉ tail := by
  have hmap : package? name = some text ↔ throughLastDot? name.toList = some text.toList := by
    unfold package?
    rw [Option.map_eq_some_iff]
    constructor
    · rintro ⟨front, hfront, rfl⟩
      simpa using hfront
    · intro h
      exact ⟨text.toList, h, by simp⟩
  rw [hmap, throughLastDot?_eq_some_iff]

theorem startsWith_iff {name text : String} :
    startsWith name text = true ↔ text.toList <+: name.toList := by
  simp [startsWith]

end ClassFilter.ClassName
