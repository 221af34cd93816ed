import ClassFilter.Blob
import ClassFilter.Proofs.Chain.Compiled
import Mathlib.Data.List.Forall2

/-!
# `ClassFilter.Proofs.Chain.Listing`: class names in no particular order

A `NameSet` keeps its names sorted, so the definitions that run through one need not sort. A set
that is kept in another way, such as a hash set, is run through in an order that nobody promises.
Three results come from such a run: the text of a rule, the rule as it is stored, and the element
that is repeated at the end of a chain's text. This file makes them from a listing of the names in
any order, by sorting for the first two and by a search for the least name for the third, and shows
that they are those of the sorted set.

* `NameSet.ListedBy`, `Entry.Lists`, `Chain.ListedBy`: a listing has each name once.
* `NameSet.ListedBy.sort_eq`, `NameSet.ListedBy.least?_eq`: sorting a listing and searching it give
  what the set has.
* `Chain.ListedBy.text_eq`, `Chain.ListedBy.toBlob_eq`: so text and blob are the same for every
  listing.
-/

set_option autoImplicit false

namespace ClassFilter

/-! ### Listings -/

/-- Whether names are those of a set, each once and in any order. This is what running through a
hash set gives, of which nothing else is promised. -/
structure NameSet.ListedBy (names : NameSet) (listing : List String) : Prop where
  nodup : listing.Nodup
  mem_iff : ∀ name, name ∈ listing ↔ name ∈ names

/-- Whether an entry is a rule whose class names, if it is an exact rule, stand in any order. Limits
and patterns have no names and are taken as they are. -/
inductive Entry.Lists : Entry → Rule → Prop
  | limit (metric : Metric) (max : UInt64) : Lists (.limit metric max) (.limit metric max)
  | exact (p : Polarity) {listing : List String} {names : NameSet} (h : names.ListedBy listing) :
    Lists (.exact p listing) (.exact p names)
  | wildcard (p : Polarity) (scope : Scope) (text : String) :
    Lists (.wildcard p scope text) (.wildcard p scope text)

/-- Whether entries are the rules of a chain, with class names in any order. The order of the rules
themselves is kept, and two sets may be listed in different orders. -/
def Chain.ListedBy (c : Chain) (es : List Entry) : Prop :=
  List.Forall₂ Entry.Lists es c.rules

/-! ### What is made from a listing -/

namespace Listing

/-- Names in increasing order. The text of a rule and the entry that is stored for it are made with
it, so that they do not depend on how a set is kept. -/
def sort (listing : List String) : List String :=
  listing.mergeSort fun a b => decide (a ≤ b)

/-- The lesser of two names, and the first of them if they are equal. It is the step of the search
for the least name. -/
def lesser (a b : String) : String :=
  if b < a then b else a

/-- The least of some names, found by going through them once. Nothing is sorted for this, as only
one name is wanted. -/
def least? : List String → Option String
  | [] => none
  | first :: rest => some (rest.foldl lesser first)

/-- An entry with its names sorted, as it is stored. What a blob holds is therefore the same for all
listings. -/
def sortEntry : Entry → Entry
  | .limit metric max => .limit metric max
  | .exact p listing => .exact p (sort listing)
  | .wildcard p scope text => .wildcard p scope text

/-- The elements of an entry, with its names sorted, as its text spells them. A limit or a pattern
is one element. -/
def elements : Entry → List Element
  | .limit metric max => [.limit metric max]
  | .exact p listing => (sort listing).map (.exact p)
  | .wildcard p scope text => [.wildcard p scope text]

/-- The least name of an entry that denies names. Entries of other kinds have none, and so has a
deny entry without names. -/
def leastDenied? : Entry → Option String
  | .exact .deny listing => least? listing
  | _ => none

/-- Whether an entry allows the empty name and no other. It is asked by the number of names and by
looking for the empty one, which needs no order. -/
def isEmptyName : Entry → Bool
  | .exact .allow listing => listing.length == 1 && listing.contains ""
  | _ => false

/-- The element to repeat at the end of a text, if the last entry is the empty name alone. It is the
least name of the first entry that denies any. -/
def anchor? (es : List Entry) : Option String :=
  if es.getLast?.any isEmptyName then
    (es.findSome? leastDenied?).map (Polarity.deny.marker ++ ·)
  else none

/-- Entries as a specification. Each entry gives the elements it is made of, and the repeated
element stands at the end. -/
def text (es : List Entry) : String :=
  Text.Separated.join
    (es.map (fun e => Text.Separated.join ((elements e).map Element.text)) ++ (anchor? es).toList)

/-- Entries as a blob. They are stored with their names sorted, and the count and the hash of the
source do not depend on the names at all. -/
def toBlob (es : List Entry) (source : Option String) : Except StoreError (List UInt8) :=
  Blob.wrap (Payload.write
    ⟨UInt64.ofNat es.length, source.map Payload.digestOf, es.map sortEntry⟩)

end Listing

/-! ### Sets of names -/

namespace NameSet.ListedBy

variable {names : NameSet} {listing : List String}

/-- A sorted listing is the set's own list. Both are sorted and have the same members once each, so
there is only one such list. -/
theorem sort_eq (h : names.ListedBy listing) : Listing.sort listing = names.toList := by
  have hsorted : (Listing.sort listing).Pairwise fun a b => decide (a ≤ b) = true := by
    refine List.pairwise_mergeSort (fun a b c hab hbc => ?_) (fun a b => ?_) listing
    · exact decide_eq_true (String.le_trans (of_decide_eq_true hab) (of_decide_eq_true hbc))
    · rw [Bool.or_eq_true, decide_eq_true_iff, decide_eq_true_iff]
      exact String.le_total a b
  have hown : names.toList.Pairwise (· ≤ ·) :=
    names.sorted.imp fun hlt => String.not_lt.1 (String.lt_asymm hlt)
  have hnodup : names.toList.Nodup := names.sorted.imp String.ne_of_lt
  -- Both are sorted, and one is a rearrangement of the other.
  have hperm : (Listing.sort listing).Perm names.toList :=
    (List.mergeSort_perm _ _).trans ((List.perm_ext_iff_of_nodup h.nodup hnodup).2 h.mem_iff)
  exact hperm.eq_of_pairwise (fun _ _ _ _ => String.le_antisymm)
    (hsorted.imp of_decide_eq_true) hown

end NameSet.ListedBy

namespace Listing

theorem lesser_le (a b : String) : lesser a b ≤ a ∧ lesser a b ≤ b := by
  unfold lesser
  split
  · rename_i hlt
    exact ⟨String.not_lt.1 (String.lt_asymm hlt), String.le_refl b⟩
  · rename_i hle
    exact ⟨String.le_refl a, String.not_lt.1 hle⟩

theorem lesser_eq_or (a b : String) : lesser a b = a ∨ lesser a b = b := by
  unfold lesser
  split
  · exact .inr rfl
  · exact .inl rfl

/-- The search goes down to a name that is among those searched and not above any other. Both parts
are carried along in one induction, since each step may change the name. -/
theorem foldl_lesser (first : String) (rest : List String) :
    rest.foldl lesser first ∈ first :: rest ∧
      ∀ name ∈ first :: rest, rest.foldl lesser first ≤ name := by
  induction rest generalizing first with
  | nil => simp
  | cons second rest ih =>
    obtain ⟨hmem, hmin⟩ := ih (lesser first second)
    have hlesser := hmin _ List.mem_cons_self
    rw [List.foldl_cons]
    refine ⟨?_, fun name hname => ?_⟩
    · rcases List.mem_cons.1 hmem with heq | hrest
      · rw [heq]
        rcases lesser_eq_or first second with h | h <;> simp [h]
      · exact List.mem_cons_of_mem _ (List.mem_cons_of_mem _ hrest)
    · -- The two names at the front are represented by the lesser.
      simp only [List.mem_cons] at hname
      rcases hname with rfl | rfl | hname
      · exact String.le_trans hlesser (lesser_le _ _).1
      · exact String.le_trans hlesser (lesser_le _ _).2
      · exact hmin name (List.mem_cons_of_mem _ hname)

end Listing

/-- The least name of a listing is the first of the set's own list, which is sorted. Neither has a
name if the set is empty. -/
theorem NameSet.ListedBy.least?_eq {names : NameSet} {listing : List String}
    (h : names.ListedBy listing) : Listing.least? listing = names.min? := by
  obtain ⟨own, hsorted⟩ := names
  cases listing with
  | nil =>
    cases own with
    | nil => rfl
    | cons least others => exact absurd ((h.mem_iff least).2 List.mem_cons_self) (by simp)
  | cons first rest =>
    obtain ⟨hmem, hmin⟩ := Listing.foldl_lesser first rest
    cases own with
    | nil => exact absurd ((h.mem_iff first).1 List.mem_cons_self) List.not_mem_nil
    | cons least others =>
      -- Each of the two is not above the other.
      have hle : rest.foldl Listing.lesser first ≤ least :=
        hmin least ((h.mem_iff least).2 List.mem_cons_self)
      have hge : least ≤ rest.foldl Listing.lesser first := by
        rcases List.mem_cons.1 ((h.mem_iff _).1 hmem) with heq | hothers
        · exact heq ▸ String.le_refl (rest.foldl Listing.lesser first)
        · exact String.not_lt.1 (String.lt_asymm ((List.pairwise_cons.1 hsorted).1 _ hothers))
      exact congrArg some (String.le_antisymm hle hge)

/-! ### Rules and chains -/

/-- The least name of a rule that denies names. It is what `Listing.leastDenied?` is for an entry,
on the set as the library keeps it. -/
def Rule.leastDenied? : Rule → Option String
  | .exact .deny names => names.min?
  | _ => none

/-- A chain repeats the name of the first rule that has one. This puts the recursion over the rules
into the form in which entries are searched. -/
theorem Chain.leastDenied?_eq_findSome? (c : Chain) :
    c.leastDenied? = c.rules.findSome? Rule.leastDenied? := rfl

namespace Entry.Lists

variable {e : Entry} {r : Rule}

/-- With its names sorted, an entry is the rule as it is stored. Limits and patterns are the same in
both. -/
theorem sortEntry_eq (h : e.Lists r) : Listing.sortEntry e = .ofRule r := by
  cases h with
  | limit metric max => rfl
  | exact p hlist => exact congrArg (Entry.exact p) hlist.sort_eq
  | wildcard p scope text => rfl

/-- The elements of an entry are those of the rule, in the same order. An exact rule lists its names
sorted, and the entry sorts them. -/
theorem elements_eq (h : e.Lists r) : Listing.elements e = r.elements := by
  cases h with
  | limit metric max => rfl
  | exact p hlist => exact congrArg (List.map (Element.exact p)) hlist.sort_eq
  | wildcard p scope text => rfl

/-- An entry and its rule have the same name to repeat, found by a search in one and standing first
in the other. -/
theorem leastDenied?_eq (h : e.Lists r) : Listing.leastDenied? e = r.leastDenied? := by
  cases h with
  | limit metric max => rfl
  | exact p hlist =>
    cases p with
    | allow => rfl
    | deny => exact hlist.least?_eq
  | wildcard p scope text => rfl

/-- An entry allows the empty name alone if the rule does. A listing of one member that holds the
empty name has no other. -/
theorem isEmptyName_iff (h : e.Lists r) :
    Listing.isEmptyName e = true ↔ r = .exact .allow (.singleton "") := by
  cases h with
  | limit metric max => simp [Listing.isEmptyName]
  | wildcard p scope text => simp [Listing.isEmptyName]
  | @exact p listing names hlist =>
    cases p with
    | deny => simp [Listing.isEmptyName]
    | allow =>
      -- A listing is its set in another order, so it is as long as the set.
      have hlength : listing.length = names.toList.length := by
        rw [← hlist.sort_eq, Listing.sort, List.length_mergeSort]
      simp only [Listing.isEmptyName, Bool.and_eq_true, beq_iff_eq, List.contains_iff_mem,
        hlength, hlist.mem_iff, Rule.exact.injEq, true_and]
      constructor
      · intro ⟨hone, hempty⟩
        obtain ⟨name, hname⟩ := List.length_eq_one_iff.1 hone
        ext other
        rw [← NameSet.mem_toList, hname, List.mem_singleton] at hempty
        rw [← NameSet.mem_toList, hname, ← hempty, List.mem_singleton, NameSet.mem_singleton]
      · rintro rfl
        exact ⟨rfl, NameSet.mem_singleton.2 rfl⟩

end Entry.Lists

namespace Chain.ListedBy

variable {c : Chain} {es : List Entry}

/-- What agrees on an entry and its rule agrees on all entries of a chain and its rules. The facts
about single entries are lifted to chains by it. -/
theorem map_eq {α : Type} {f : Entry → α} {g : Rule → α} (h : c.ListedBy es)
    (hfg : ∀ e r, e.Lists r → f e = g r) : es.map f = c.rules.map g := by
  have hmap : List.Forall₂ (· = ·) (es.map f) (c.rules.map g) :=
    List.forall₂_map_left_iff.2 (List.forall₂_map_right_iff.2 (h.imp hfg))
  rwa [List.forall₂_eq_eq_eq] at hmap

/-- The search for a name to repeat does not depend on the order in which names are listed, because
it takes the least name of an entry and the first entry that has one. -/
theorem findSome?_leastDenied?_eq (h : c.ListedBy es) :
    es.findSome? Listing.leastDenied? = c.leastDenied? := by
  have hmap := congrArg (List.findSome? id) (h.map_eq fun _ _ => Entry.Lists.leastDenied?_eq)
  rw [List.findSome?_map, List.findSome?_map] at hmap
  rw [leastDenied?_eq_findSome?]
  exact hmap

/-- The question whether a name is repeated does not depend on the order either. It is about the
last entry, which is that of the last rule. -/
theorem any_isEmptyName_eq (h : c.ListedBy es) :
    es.getLast?.any Listing.isEmptyName = c.endsInEmptyName := by
  have hmap : es.map Listing.isEmptyName
      = c.rules.map fun r => decide (r = .exact .allow (.singleton "")) :=
    h.map_eq fun e r her => by rw [Bool.eq_iff_iff, her.isEmptyName_iff, decide_eq_true_iff]
  have hlast := congrArg (Option.any id) (congrArg List.getLast? hmap)
  rw [List.getLast?_map, List.getLast?_map, Option.any_map, Option.any_map] at hlast
  show es.getLast?.any (fun e => id (Listing.isEmptyName e)) = _
  rw [hlast, Bool.eq_iff_iff, endsInEmptyName_iff]
  cases c.rules.getLast? with
  | none => simp
  | some r => simp

/-- The text of a chain is the same for every listing, in its elements as well as in the one that is
repeated at the end. -/
theorem text_eq (h : c.ListedBy es) : Listing.text es = c.text := by
  have hrules : es.map (fun e => Text.Separated.join ((Listing.elements e).map Element.text))
      = c.rules.map Rule.text := h.map_eq fun e r her => by rw [her.elements_eq]; rfl
  have hanchor : Listing.anchor? es = c.anchor? := by
    rw [Listing.anchor?, h.any_isEmptyName_eq, h.findSome?_leastDenied?_eq]
    rfl
  rw [Listing.text, hrules, hanchor]
  rfl

/-- The blob of a chain is the same for every listing, whatever source is recorded, since the
entries are stored with their names sorted. -/
theorem toBlob_eq (h : c.ListedBy es) (source : Option String) :
    Listing.toBlob es source = c.toBlob source := by
  have hentries : es.map Listing.sortEntry = c.rules.map Entry.ofRule :=
    h.map_eq fun _ _ => Entry.Lists.sortEntry_eq
  rw [Listing.toBlob, hentries, List.Forall₂.length_eq h]
  rfl

end Chain.ListedBy

end ClassFilter
