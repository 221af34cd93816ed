/-!
# `ClassFilter.Text.Separated`: texts joined by semicolons

A specification is a list of elements with a `;` between neighbours. `split` and
`join` undo each other: a text is the join of its parts (`join_split`), and parts
without a `;` are found again in their join (`split_join`).
-/

set_option autoImplicit false

namespace ClassFilter.Text.Separated

/-- The character between two elements. No element of a specification holds it, and there is no way
to escape it. -/
def separator : Char := ';'

/-- The parts between the separators. A text without a separator is its only part, and the empty
text has one empty part. -/
def split (text : String) : List String :=
  (text.toList.splitOn separator).map String.ofList

/-- The parts with a separator between neighbours. A chain is written and a builder is compiled by
this. -/
def join (parts : List String) : String :=
  String.intercalate ";" parts

/-- The list without the empty texts at its end. Empty texts at the front and in the middle stay:
they stand for the empty class name. -/
def dropTrailingEmpty (parts : List String) : List String :=
  (parts.reverse.dropWhile (· == "")).reverse

theorem toList_join (parts : List String) :
    (join parts).toList = [separator].intercalate (parts.map String.toList) := by
  rw [join, String.toList_intercalate]
  rfl

theorem join_split (text : String) : join (split text) = text := by
  rw [← String.toList_inj, toList_join, split, List.map_map,
    show String.toList ∘ String.ofList = id from funext fun l => String.toList_ofList,
    List.map_id, List.intercalate_splitOn]

/-- Parts that hold no separator are the parts of their join, if there is any part. Without a part
the join is the empty text, which has one part. -/
theorem split_join {parts : List String} (hne : parts ≠ [])
    (h : ∀ part ∈ parts, separator ∉ part.toList) : split (join parts) = parts := by
  rw [split, toList_join, List.splitOn_intercalate separator _ (by simpa using hne),
    List.map_map,
    show String.ofList ∘ String.toList = id from funext fun s => String.ofList_toList,
    List.map_id]
  intro part hpart
  obtain ⟨s, hs, rfl⟩ := List.mem_map.1 hpart
  exact h s hs

end ClassFilter.Text.Separated
