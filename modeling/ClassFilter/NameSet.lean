/-!
# `ClassFilter.NameSet`: finite sets of class names

A `NameSet` lists its names in increasing order, each once. Two sets with the same
members are therefore equal (`ext`), whatever the order in which the names were
inserted. Names compare by code point, which is also the order of their UTF-8 bytes.
-/

set_option autoImplicit false

namespace ClassFilter

/-- A finite set of names, kept sorted and free of repeats: in `toList` each name is less than all
that follow it. Two sets with the same members are therefore equal, and the text and the stored form
of a set depend on its members only. -/
structure NameSet where
  toList : List String
  sorted : toList.Pairwise (· < ·)
deriving DecidableEq

namespace NameSet

/-- Put a name into its place in a sorted list. A name that is there already stays once, so the list
keeps its order strictly. -/
def insertSorted (name : String) : List String → List String
  | [] => [name]
  | other :: rest =>
    if name < other then name :: other :: rest
    else if name = other then other :: rest
    else other :: insertSorted name rest

theorem mem_insertSorted {x name : String} {names : List String} :
    x ∈ insertSorted name names ↔ x = name ∨ x ∈ names := by
  induction names with
  | nil => simp [insertSorted]
  | cons other rest ih =>
    unfold insertSorted
    split
    · simp
    · split
      · rename_i h; subst h; simp
      · simp [ih, or_left_comm]

theorem pairwise_insertSorted {name : String} {names : List String}
    (h : names.Pairwise (· < ·)) : (insertSorted name names).Pairwise (· < ·) := by
  induction names with
  | nil => simp [insertSorted]
  | cons other rest ih =>
    rw [List.pairwise_cons] at h
    unfold insertSorted
    split
    · rename_i hlt
      refine List.pairwise_cons.2 ⟨fun x hx => ?_, List.pairwise_cons.2 h⟩
      rcases List.mem_cons.1 hx with rfl | hx
      · exact hlt
      · exact String.lt_trans hlt (h.1 x hx)
    · split
      · exact List.pairwise_cons.2 h
      · rename_i hlt hne
        refine List.pairwise_cons.2 ⟨fun x hx => ?_, ih h.2⟩
        rcases mem_insertSorted.1 hx with rfl | hx
        · -- Neither less nor equal leaves only greater.
          refine String.not_le.1 fun hle => ?_
          exact hne (String.le_antisymm hle (String.not_lt.1 hlt))
        · exact h.1 x hx

/-- The set without names. No compiled rule has it: the first class name of a polarity makes the
rule. -/
def empty : NameSet := ⟨[], .nil⟩

/-- The set with one more name. The order in which names are put in leaves no trace. -/
def insert (s : NameSet) (name : String) : NameSet :=
  ⟨insertSorted name s.toList, pairwise_insertSorted s.sorted⟩

/-- The set with one name, with which an exact rule begins when its first class name is read. -/
def singleton (name : String) : NameSet := empty.insert name

/-- The names of a list, each once. A stored rule keeps its names in any order, and this is the set
that they are read into. -/
def ofList (names : List String) : NameSet :=
  names.foldl insert empty

instance : Membership String NameSet := ⟨fun s name => name ∈ s.toList⟩

instance (name : String) (s : NameSet) : Decidable (name ∈ s) :=
  inferInstanceAs (Decidable (name ∈ s.toList))

/-- Number of names. A name that was declared twice counts once, in the logged counts as well. -/
def size (s : NameSet) : Nat := s.toList.length

/-- The least name, if there is one. A chain that needs an element repeated at its end takes the
least denied one. -/
def min? (s : NameSet) : Option String := s.toList.head?

theorem mem_toList {name : String} {s : NameSet} : name ∈ s.toList ↔ name ∈ s := Iff.rfl

@[simp] theorem toList_empty : empty.toList = [] := rfl

@[simp] theorem toList_singleton (name : String) : (singleton name).toList = [name] := rfl

@[simp] theorem not_mem_empty {name : String} : name ∉ empty := by
  simp [← mem_toList]

@[simp] theorem mem_insert {x name : String} {s : NameSet} :
    x ∈ s.insert name ↔ x = name ∨ x ∈ s := mem_insertSorted

@[simp] theorem mem_singleton {x name : String} : x ∈ singleton name ↔ x = name := by
  simp [singleton]

private theorem mem_foldl_insert {x : String} {names : List String} {s : NameSet} :
    x ∈ names.foldl insert s ↔ x ∈ s ∨ x ∈ names := by
  induction names generalizing s with
  | nil => simp
  | cons name rest ih => simp only [List.foldl_cons, ih, mem_insert, List.mem_cons]; grind

@[simp] theorem mem_ofList {x : String} {names : List String} : x ∈ ofList names ↔ x ∈ names := by
  simp [ofList, mem_foldl_insert]

/-- Two sorted lists with the same members are equal. The least member of both is the same, and so
on down the lists. -/
private theorem eq_of_mem_iff {a b : List String} (ha : a.Pairwise (· < ·))
    (hb : b.Pairwise (· < ·)) (h : ∀ x, x ∈ a ↔ x ∈ b) : a = b := by
  induction a generalizing b with
  | nil =>
    cases b with
    | nil => rfl
    | cons y ys => exact absurd ((h y).2 (by simp)) (by simp)
  | cons x xs ih =>
    cases b with
    | nil => exact absurd ((h x).1 (by simp)) (by simp)
    | cons y ys =>
      rw [List.pairwise_cons] at ha hb
      -- The heads are the least members of the same set.
      have hxy : x = y := by
        rcases List.mem_cons.1 ((h x).1 (by simp)) with hx | hx
        · exact hx
        · rcases List.mem_cons.1 ((h y).2 (by simp)) with hy | hy
          · exact hy.symm
          · exact absurd (ha.1 y hy) (String.lt_asymm (hb.1 x hx))
      subst hxy
      congr 1
      refine ih ha.2 hb.2 fun z => ⟨fun hz => ?_, fun hz => ?_⟩
      · rcases List.mem_cons.1 ((h z).1 (List.mem_cons_of_mem _ hz)) with rfl | hz'
        · exact absurd (ha.1 z hz) (String.lt_irrefl z)
        · exact hz'
      · rcases List.mem_cons.1 ((h z).2 (List.mem_cons_of_mem _ hz)) with rfl | hz'
        · exact absurd (hb.1 z hz) (String.lt_irrefl z)
        · exact hz'

/-- A set is determined by its members. Statements about exact rules compare members and conclude
that the rules are equal. -/
@[ext] theorem ext {s t : NameSet} (h : ∀ name, name ∈ s ↔ name ∈ t) : s = t := by
  obtain ⟨a, ha⟩ := s
  obtain ⟨b, hb⟩ := t
  have hab : a = b := eq_of_mem_iff ha hb h
  subst hab
  rfl

end NameSet

end ClassFilter
