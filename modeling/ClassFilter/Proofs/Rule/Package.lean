import ClassFilter.Proofs.Element.Reading
import ClassFilter.Proofs.Text.Utf8

/-!
# `ClassFilter.Proofs.Rule.Package`: packages and hierarchies

`ClassName.package?` cuts a name after its last dot, so every name with a dot lies in one package
and no other. A hierarchy holds the names of all packages that begin with its text. The theorems
are about rules with any text, a text without a dot at its end included:

* `ClassName.package?_eq_some_iff_append`, `ClassName.exists_package?_iff`: the package of a name is
  what stands before a rest without dots, and a name has one if it has a dot.
* `ClassName.startsWith_iff_exists_package`: a name begins with a text that ends in a dot if its
  package does.
* `ClassName.liesIn_encode_iff`: the same package is found on UTF-8 bytes, by comparing the front of
  the name and the offset of its last dot. No other character has the byte of a dot among its own.
* `Rule.packages_partition_hierarchies`: what package and hierarchy rules match.
-/

set_option autoImplicit false

namespace ClassFilter

/-! ### Packages of names -/

namespace ClassName

/-- A name lies in a package if it is the package's text, which ends in a dot, and a rest without
dots. It says what the search for the last dot finds, without speaking of the search. -/
theorem package?_eq_some_iff_append {name text : String} :
    package? name = some text ↔
      text.toList.getLast? = some '.' ∧ ∃ rest, name = text ++ rest ∧ '.' ∉ rest.toList := by
  rw [package?_eq_some_iff]
  constructor
  · intro ⟨body, tail, htext, hname, htail⟩
    refine ⟨by rw [htext, List.getLast?_concat], String.ofList tail, ?_, ?_⟩
    · rw [← String.toList_inj, String.toList_append, String.toList_ofList, hname]
    · rwa [String.toList_ofList]
  · rintro ⟨hdot, rest, rfl, hrest⟩
    obtain ⟨body, hbody⟩ := List.getLast?_eq_some_iff.1 hdot
    exact ⟨body, rest.toList, hbody, String.toList_append, hrest⟩

/-- A name has a package just if it has a dot. A name without one is in the unnamed package, which
no text of a package rule denotes. -/
theorem exists_package?_iff {name : String} :
    (∃ text, package? name = some text) ↔ '.' ∈ name.toList := by
  rw [← Option.isSome_iff_exists, package?, Option.isSome_map, Option.isSome_iff_ne_none,
    ne_eq, throughLastDot?_eq_none_iff, Classical.not_not]

/-- A name begins with a text that ends in a dot just if its package does. Since the text ends in a
dot, the last dot of the name stands in it or behind it, so the package is no shorter. -/
theorem startsWith_iff_exists_package {name text : String} (hdot : text.toList.getLast? = some '.') :
    startsWith name text = true ↔
      ∃ sub, (∃ rest, sub = text ++ rest) ∧ package? name = some sub := by
  rw [Reading.startsWith_iff_exists]
  constructor
  · rintro ⟨rest, rfl⟩
    by_cases hrest : '.' ∈ rest.toList
    · -- The last dot of the name is that of the rest.
      obtain ⟨sub, hsub⟩ := exists_package?_iff.2 hrest
      obtain ⟨hsubdot, tail, rfl, htail⟩ := package?_eq_some_iff_append.1 hsub
      refine ⟨text ++ sub, ⟨sub, rfl⟩, package?_eq_some_iff_append.2 ⟨?_, tail, ?_, htail⟩⟩
      · rw [String.toList_append, List.getLast?_append, hsubdot, Option.some_or]
      · rw [String.append_assoc]
    · -- The last dot is that of the text, so the text is the package.
      refine ⟨text, ⟨"", String.append_empty.symm⟩, ?_⟩
      exact package?_eq_some_iff_append.2 ⟨hdot, rest, rfl, hrest⟩
  · rintro ⟨sub, ⟨rest, rfl⟩, hsub⟩
    obtain ⟨-, tail, rfl, -⟩ := package?_eq_some_iff_append.1 hsub
    exact ⟨rest ++ tail, String.append_assoc ..⟩

/-! ### Packages by their bytes -/

/-- The byte of a dot in UTF-8. It is an ASCII character, so no character of several bytes has this
byte among them. -/
def dotByte : UInt8 := 0x2E

/-- The offset of the last dot among the bytes of a name, or nothing if there is none. It is defined
along the list, with a dot further on taking precedence over the one in front. -/
def lastDot? : List UInt8 → Option Nat
  | [] => none
  | b :: bytes =>
    match lastDot? bytes with
    | some offset => some (offset + 1)
    | none => if b = dotByte then some 0 else none

/-- Whether a name lies directly in a package, by the bytes of both. The package stands in front of
the name, and its length is the offset behind the last dot. Nothing behind that dot is compared. -/
def liesIn (text name : List UInt8) : Bool :=
  text.isPrefixOf name && (lastDot? name).map (· + 1) == some text.length

theorem lastDot?_eq_none_iff {bytes : List UInt8} : lastDot? bytes = none ↔ dotByte ∉ bytes := by
  induction bytes with
  | nil => simp [lastDot?]
  | cons b bytes ih =>
    rw [lastDot?, List.mem_cons, not_or, ← ih]
    split
    · rename_i hsome
      simp [hsome]
    · rename_i hnone
      simp [hnone, eq_comm]

/-- The offset is the length of what stands before the dot, and no dot follows. Front and back are
determined by it, so the search need not be opened again. -/
theorem lastDot?_eq_some_iff {bytes : List UInt8} {offset : Nat} :
    lastDot? bytes = some offset ↔
      ∃ front back, bytes = front ++ dotByte :: back ∧ front.length = offset ∧ dotByte ∉ back := by
  induction bytes generalizing offset with
  | nil => simp [lastDot?]
  | cons b bytes ih =>
    rw [lastDot?]
    constructor
    · intro h
      split at h
      · rename_i hsome
        obtain ⟨front, back, rfl, rfl, hback⟩ := ih.1 hsome
        cases h
        exact ⟨b :: front, back, rfl, rfl, hback⟩
      -- No dot follows, so the dot is the first byte or there is none.
      · rename_i hnone
        split at h
        · rename_i hb
          cases h
          exact ⟨[], bytes, by rw [hb, List.nil_append], rfl, lastDot?_eq_none_iff.1 hnone⟩
        · cases h
    · rintro ⟨front, back, hbytes, rfl, hback⟩
      cases front with
      | nil =>
        obtain ⟨rfl, rfl⟩ := List.cons.inj hbytes
        rw [lastDot?_eq_none_iff.2 hback]
        rfl
      | cons first front =>
        obtain ⟨rfl, rfl⟩ := List.cons.inj hbytes
        rw [ih.2 ⟨front, back, rfl, rfl, hback⟩]
        rfl

open Text.Utf8 (encode)

/-- Only a dot has the byte of a dot in its encoding. A character of several bytes has none below
128, so a byte search for dots finds no other character. -/
theorem dotByte_mem_utf8EncodeChar_iff {c : Char} :
    dotByte ∈ String.utf8EncodeChar c ↔ c = '.' := by
  constructor
  · exact Text.Utf8.eq_of_mem_utf8EncodeChar (by decide)
  · rintro rfl
    decide

theorem dotByte_mem_encode_iff {text : String} : dotByte ∈ encode text ↔ '.' ∈ text.toList := by
  rw [encode, List.mem_flatMap]
  constructor
  · intro hmem
    obtain ⟨c, hc, hdot⟩ := hmem
    rwa [dotByte_mem_utf8EncodeChar_iff.1 hdot] at hc
  · exact fun h => ⟨'.', h, dotByte_mem_utf8EncodeChar_iff.2 rfl⟩

/-- The last byte of a text is that of a dot just if its last character is a dot. The empty text has
neither. -/
theorem getLast?_encode_eq_dotByte_iff {text : String} :
    (encode text).getLast? = some dotByte ↔ text.toList.getLast? = some '.' := by
  rw [encode]
  rcases List.eq_nil_or_concat text.toList with hnil | ⟨body, c, hbody⟩
  · simp [hnil]
  · -- The last byte belongs to the last character.
    have hne : String.utf8EncodeChar c ≠ [] := String.utf8EncodeChar_ne_nil
    rw [hbody, List.concat_eq_append, List.flatMap_append, List.flatMap_singleton,
      List.getLast?_concat, List.getLast?_append, List.getLast?_eq_some_getLast hne,
      Option.some_or, Option.some.injEq, Option.some.injEq]
    constructor
    · intro h
      exact dotByte_mem_utf8EncodeChar_iff.1 (h ▸ List.getLast_mem hne)
    · rintro rfl
      rfl

/-- The comparison of bytes decides the same package that the search on characters finds. A text
that does not end in a dot is refused on both sides, since the offset behind the last dot is behind
a dot. -/
theorem liesIn_encode_iff {text name : String} :
    liesIn (encode text) (encode name) = true ↔ package? name = some text := by
  rw [liesIn, Bool.and_eq_true, List.isPrefixOf_iff_prefix, Text.Utf8.encode_prefix_encode_iff,
    ← startsWith_iff, beq_iff_eq, Option.map_eq_some_iff, package?_eq_some_iff_append]
  constructor
  · intro ⟨hfront, offset, hoffset, hlength⟩
    obtain ⟨rest, rfl⟩ := Reading.startsWith_iff_exists.1 hfront
    obtain ⟨front, back, hbytes, rfl, hback⟩ := lastDot?_eq_some_iff.1 hoffset
    -- The package and the last dot end at one place.
    have hcut : encode text ++ encode rest = (front ++ [dotByte]) ++ back := by
      rw [← Text.Utf8.encode_append, hbytes, List.append_assoc, List.singleton_append]
    have hsame : (encode text).length = (front ++ [dotByte]).length := by
      rw [← hlength, List.length_append, List.length_singleton]
    obtain ⟨htext, hrest⟩ := List.append_inj hcut hsame
    refine ⟨getLast?_encode_eq_dotByte_iff.1 ?_, rest, rfl, ?_⟩
    · rw [htext, List.getLast?_concat]
    · rwa [← dotByte_mem_encode_iff, hrest]
  · rintro ⟨hdot, rest, rfl, hrest⟩
    obtain ⟨front, hfront⟩ := List.getLast?_eq_some_iff.1 (getLast?_encode_eq_dotByte_iff.2 hdot)
    refine ⟨Reading.startsWith_iff_exists.2 ⟨rest, rfl⟩, front.length, ?_, ?_⟩
    · refine lastDot?_eq_some_iff.2 ⟨front, encode rest, ?_, rfl, ?_⟩
      · rw [Text.Utf8.encode_append, hfront, List.append_assoc, List.singleton_append]
      · rwa [dotByte_mem_encode_iff]
    · rw [hfront, List.length_append, List.length_singleton]

end ClassName

/-! ### Package and hierarchy rules -/

namespace Rule

open Text.Utf8 (encode)

/-- A pattern rule gives the answer of its polarity just if its scope covers the name. In all other
cases it is undecided, which is the answer of neither polarity. -/
theorem check_wildcard_eq_onMatch_iff {p : Polarity} {scope : Scope} {text : String} {q : Query} :
    (Rule.wildcard p scope text).check q = p.onMatch ↔ scope.covers text q.name = true := by
  rw [check]
  cases scope.covers text q.name with
  | false => simpa using p.onMatch_ne_undecided.symm
  | true => simp

theorem check_package_eq_onMatch_iff {p : Polarity} {text : String} {q : Query} :
    (Rule.wildcard p .package text).check q = p.onMatch ↔
      ClassName.package? q.name = some text := by
  rw [check_wildcard_eq_onMatch_iff, Scope.covers, beq_iff_eq]

/-- Packages partition hierarchies. A package rule matches the names that are its text and a rest
without dots, if the text ends in a dot. A name is matched with one text at most, and with one if it
has a dot. A hierarchy rule whose text ends in a dot matches what the package rules match whose text
begins with its own. Both rules can be decided on UTF-8 bytes, by the front of the name and the
offset of its last dot. -/
theorem packages_partition_hierarchies (q : Query) :
    (∀ p text, (Rule.wildcard p .package text).check q = p.onMatch ↔
      text.toList.getLast? = some '.' ∧ ∃ rest, q.name = text ++ rest ∧ '.' ∉ rest.toList) ∧
    (∀ p p' text text', (Rule.wildcard p .package text).check q = p.onMatch →
      (Rule.wildcard p' .package text').check q = p'.onMatch → text = text') ∧
    (∀ p, (∃ text, (Rule.wildcard p .package text).check q = p.onMatch) ↔ '.' ∈ q.name.toList) ∧
    (∀ p text, text.toList.getLast? = some '.' →
      ((Rule.wildcard p .hierarchy text).check q = p.onMatch ↔
        ∃ sub, (∃ rest, sub = text ++ rest) ∧
          (Rule.wildcard p .package sub).check q = p.onMatch)) ∧
    (∀ p text, (Rule.wildcard p .package text).check q
        = p.answer (ClassName.liesIn (encode text) (encode q.name)) ∧
      (Rule.wildcard p .hierarchy text).check q
        = p.answer ((encode text).isPrefixOf (encode q.name))) := by
  simp only [check_package_eq_onMatch_iff]
  refine ⟨fun _ text => ClassName.package?_eq_some_iff_append, fun _ _ text text' h h' => ?_,
    fun _ => ClassName.exists_package?_iff, fun p text hdot => ?_, fun p text => ⟨?_, ?_⟩⟩
  · exact Option.some.inj (h.symm.trans h')
  · rw [check_wildcard_eq_onMatch_iff, Scope.covers]
    exact ClassName.startsWith_iff_exists_package hdot
  · rw [check, Scope.covers]
    congr 1
    rw [Bool.eq_iff_iff, beq_iff_eq, ClassName.liesIn_encode_iff]
  · rw [check, Scope.covers]
    congr 1
    rw [Bool.eq_iff_iff, ClassName.startsWith_iff, List.isPrefixOf_iff_prefix,
      Text.Utf8.encode_prefix_encode_iff]

/-- The theorem at a name with dots side by side and characters of two to four bytes. Its package is
found below the hierarchy `é.`, which is no package of it. -/
theorem packages_partition_hierarchies_unicode :
    (Rule.wildcard .deny .hierarchy "é.").check { className := some "é.日..Ω𝔸" } = .reject ∧
      (Rule.wildcard .deny .package "é.日..").check { className := some "é.日..Ω𝔸" } = .reject ∧
      (Rule.wildcard .allow .package "é.").check { className := some "é.日..Ω𝔸" } ≠ .allow := by
  obtain ⟨hpackage, hunique, -, hhierarchy, -⟩ :=
    packages_partition_hierarchies { className := some "é.日..Ω𝔸" }
  have hdirect : (Rule.wildcard .deny .package "é.日..").check { className := some "é.日..Ω𝔸" }
      = .reject :=
    (hpackage .deny "é.日..").2 ⟨by decide, "Ω𝔸", by decide, by decide⟩
  refine ⟨?_, hdirect, fun h => ?_⟩
  · exact (hhierarchy .deny "é." (by decide)).2 ⟨"é.日..", ⟨"日..", by decide⟩, hdirect⟩
  · have hsame := hunique .allow .deny "é." "é.日.." h hdirect
    exact absurd hsame (by decide)

end Rule

end ClassFilter
