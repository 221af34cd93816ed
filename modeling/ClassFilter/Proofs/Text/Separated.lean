import ClassFilter.Text.Separated

/-!
# `ClassFilter.Proofs.Text.Separated`: the elements of a specification

`elements` gives the parts of a specification that count: all of them, less the empty
ones at the end.

* `separator_not_mem_of_mem_elements`: no element holds a separator.
* `getLast?_elements_ne`: the last element is not empty.
* `elements_join`: texts with these two properties are the elements of their join.
* `flatMap_dropTrailingEmpty`: the empty texts at the end are dropped from a list, and nothing else.
* `elements_append_separator`: the elements of two specifications with a separator between them.
* `join_flatten`: joining the joins of groups joins all their texts, as long as no group
  is without a text.
-/

set_option autoImplicit false

namespace ClassFilter.Text.Separated

/-- The elements of a specification: its parts without the empty ones at the end. -/
def elements (spec : String) : List String :=
  dropTrailingEmpty (split spec)

/-! ### Empty texts at the end -/

/-- What is left when the empty texts at the end are dropped does not end in an empty text. It may
be the empty list. -/
theorem getLast?_dropTrailingEmpty_ne (parts : List String) :
    (dropTrailingEmpty parts).getLast? ≠ some "" := by
  intro h
  rw [dropTrailingEmpty, List.getLast?_reverse] at h
  have hhead := List.head?_dropWhile_not (· == "") parts.reverse
  rw [h] at hhead
  simp at hhead

/-- Without an empty text at the end, nothing is dropped. Empty texts further in front are kept. -/
theorem dropTrailingEmpty_eq_self {parts : List String} (h : parts.getLast? ≠ some "") :
    dropTrailingEmpty parts = parts := by
  rw [dropTrailingEmpty, List.dropWhile_beq_eq_self_of_head?_ne (by rwa [List.head?_reverse]),
    List.reverse_reverse]

/-- One more empty text at the end is dropped too. So adding one to a list is no change to its
elements. -/
theorem dropTrailingEmpty_append_empty (parts : List String) :
    dropTrailingEmpty (parts ++ [""]) = dropTrailingEmpty parts := by
  rw [dropTrailingEmpty, List.reverse_append]
  rfl

/-- Of two lists only the later one ends in empty texts, if it holds another text. The earlier list
is kept whole, with any empty texts at its own end. -/
theorem dropTrailingEmpty_append {front back : List String} (h : dropTrailingEmpty back ≠ []) :
    dropTrailingEmpty (front ++ back) = front ++ dropTrailingEmpty back := by
  rw [dropTrailingEmpty, List.reverse_append, List.dropWhile_append, if_neg ?_,
    List.reverse_append, List.reverse_reverse]
  · rfl
  · intro hempty
    exact h (List.reverse_eq_nil_iff.2 (List.isEmpty_iff.1 hempty))

/-- A text that is not empty stays, and so does all before it. Only what follows it can be
shortened. -/
theorem dropTrailingEmpty_append_cons {text : String} (h : text ≠ "") (front back : List String) :
    dropTrailingEmpty (front ++ text :: back) = front ++ text :: dropTrailingEmpty back := by
  have hstop : ((text :: front.reverse).dropWhile (· == "")) = text :: front.reverse :=
    List.dropWhile_cons_of_neg (by simpa using h)
  have hsplit : (front ++ text :: back).reverse = back.reverse ++ text :: front.reverse := by
    simp
  rw [dropTrailingEmpty, dropTrailingEmpty, hsplit, List.dropWhile_append, hstop]
  split
  · rename_i hnil
    simp [List.isEmpty_iff.1 hnil]
  · simp

/-- What is left when the empty texts at the end are dropped was there before, so conditions on all
texts are kept. -/
theorem mem_of_mem_dropTrailingEmpty {part : String} {parts : List String}
    (h : part ∈ dropTrailingEmpty parts) : part ∈ parts := by
  rw [dropTrailingEmpty, List.mem_reverse] at h
  exact List.mem_reverse.1 ((List.dropWhile_sublist _).subset h)

/-- Nothing is lost that the empty texts at the end do not contribute to. It is used for the bounds
of limits, of which an empty text has none. -/
theorem flatMap_dropTrailingEmpty {α : Type} {f : String → List α} (h : f "" = [])
    (parts : List String) : (dropTrailingEmpty parts).flatMap f = parts.flatMap f := by
  have hparts : parts = dropTrailingEmpty parts ++ (parts.reverse.takeWhile (· == "")).reverse := by
    rw [dropTrailingEmpty, ← List.reverse_append, List.takeWhile_append_dropWhile,
      List.reverse_reverse]
  have hdropped : (parts.reverse.takeWhile (· == "")).reverse.flatMap f = [] := by
    rw [List.flatMap_eq_nil_iff]
    intro part hpart
    have hall := List.all_takeWhile (p := (· == "")) (l := parts.reverse)
    rw [List.all_eq_true] at hall
    rw [beq_iff_eq.1 (hall part (List.mem_reverse.1 hpart)), h]
  have hwhole := congrArg (List.flatMap f) hparts
  rw [List.flatMap_append, hdropped, List.append_nil] at hwhole
  exact hwhole.symm

/-! ### Splitting and joining -/

/-- A piece between two occurrences of a character does not hold it. One more character in front
begins a new piece, or is another one and joins the first. -/
private theorem not_mem_of_mem_splitOn {sep : Char} {cs part : List Char}
    (h : part ∈ cs.splitOn sep) : sep ∉ part := by
  -- The split of a longer list begins a new piece, or puts a character before the first.
  induction cs generalizing part with
  | nil =>
    rw [List.splitOn_nil, List.mem_singleton] at h
    simp [h]
  | cons c cs ih =>
    rw [List.splitOn_cons_eq_if_modifyHead] at h
    split at h
    · rcases List.mem_cons.1 h with rfl | h
      · simp
      · exact ih h
    · rename_i hc
      -- The character joins the first piece, and the other pieces stay.
      cases hsplit : cs.splitOn sep with
      | nil => exact absurd hsplit (List.splitOn_ne_nil sep cs)
      | cons first rest =>
        rw [hsplit, List.modifyHead_cons] at h
        rcases List.mem_cons.1 h with rfl | h
        · have hfirst : sep ∉ first := ih (by rw [hsplit]; simp)
          have hne : sep ≠ c := fun heq => hc (beq_iff_eq.2 heq.symm)
          simp [hne, hfirst]
        · exact ih (by rw [hsplit]; exact List.mem_cons_of_mem _ h)

/-- No part holds a separator, the first and the last included. Parts may be empty. -/
theorem separator_not_mem_of_mem_split {text part : String} (h : part ∈ split text) :
    separator ∉ part.toList := by
  obtain ⟨cs, hcs, rfl⟩ := List.mem_map.1 h
  rw [String.toList_ofList]
  exact not_mem_of_mem_splitOn hcs

theorem separator_not_mem_of_mem_elements {spec part : String} (h : part ∈ elements spec) :
    separator ∉ part.toList :=
  separator_not_mem_of_mem_split (mem_of_mem_dropTrailingEmpty h)

theorem getLast?_elements_ne (spec : String) : (elements spec).getLast? ≠ some "" :=
  getLast?_dropTrailingEmpty_ne (split spec)

/-- Texts without a separator are found again, less the empty ones at the end. This holds of the
empty list too, whose join has one empty part. -/
theorem elements_join_eq_dropTrailingEmpty {parts : List String}
    (hsep : ∀ part ∈ parts, separator ∉ part.toList) :
    elements (join parts) = dropTrailingEmpty parts := by
  cases parts with
  | nil => rfl
  | cons part parts => rw [elements, split_join (List.cons_ne_nil _ _) hsep]

/-- Texts without a separator, the last of which is not empty, are found again, each of them and in
their order. -/
theorem elements_join {parts : List String} (hsep : ∀ part ∈ parts, separator ∉ part.toList)
    (hlast : parts.getLast? ≠ some "") : elements (join parts) = parts := by
  rw [elements_join_eq_dropTrailingEmpty hsep, dropTrailingEmpty_eq_self hlast]

/-- A group of texts joins like its members. No group may be empty, since the join of none is a text
all the same and would add a separator. -/
theorem join_append {front back : List String} (hfront : front ≠ []) (hback : back ≠ []) :
    join (front ++ back) = join [join front, join back] := by
  rw [join, String.intercalate_append_of_ne_nil hfront hback]
  simp [join]

theorem join_flatten {groups : List (List String)} (h : ∀ group ∈ groups, group ≠ []) :
    join (groups.map join) = join groups.flatten := by
  induction groups with
  | nil => rfl
  | cons group rest ih =>
    have hgroup := h group (by simp)
    have hrest := ih fun g hg => h g (List.mem_cons_of_mem _ hg)
    cases rest with
    | nil => simp [join]
    | cons next more =>
      -- A later group has a text, so the rest of the list does.
      have hflat : (next :: more).flatten ≠ [] := by
        intro hnil
        exact h next (by simp) (List.flatten_eq_nil_iff.1 hnil next (by simp))
      rw [List.flatten_cons, join_append hgroup hflat, ← hrest, List.map_cons,
        ← List.singleton_append, join_append (by simp) (by simp)]
      simp [join]

/-- A separator between two texts separates their parts, so the parts of both are those of the first
and then those of the second. -/
theorem split_append_separator (front back : String) :
    split (front ++ ";" ++ back) = split front ++ split back := by
  have hne : ∀ text, split text ≠ [] := by
    intro text hnil
    exact List.splitOn_ne_nil separator text.toList (List.map_eq_nil_iff.1 hnil)
  have hjoin : front ++ ";" ++ back = join (split front ++ split back) := by
    rw [join_append (hne front) (hne back), join_split, join_split]
    simp [join]
  rw [hjoin, split_join (List.append_ne_nil_of_left_ne_nil (hne front) _)]
  intro part hpart
  rcases List.mem_append.1 hpart with hpart | hpart
  · exact separator_not_mem_of_mem_split hpart
  · exact separator_not_mem_of_mem_split hpart

/-- The elements of two specifications are put together by a separator, if the first does not end in
an empty element and the second has one that counts. Otherwise an element would be kept or dropped
in the one and not in the other. -/
theorem elements_append_separator {front back : String} (hlast : (split front).getLast? ≠ some "")
    (hback : elements back ≠ []) :
    elements (front ++ ";" ++ back) = elements front ++ elements back := by
  rw [elements, split_append_separator, dropTrailingEmpty_append hback, elements,
    dropTrailingEmpty_eq_self hlast]
  rfl

end ClassFilter.Text.Separated
