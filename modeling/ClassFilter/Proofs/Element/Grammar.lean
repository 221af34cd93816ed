import ClassFilter.Element.Parse
import ClassFilter.Proofs.Text.Decimal
import Mathlib.Data.List.TakeWhile

/-!
# `ClassFilter.Proofs.Element.Grammar`: which texts are which elements

`Element.read` is a sequence of tests and splits. This file states the grammar it
accepts without them, and proves the two equal:

* `Element.WellFormed`: the conditions on the parts of an element. A limit fits a signed
  64-bit word, a text holds no reserved character, no `!` opens a text that no marker
  precedes, and the dot at the end of a text goes with the scope.
* `Element.Spells`: the texts of an element. A limit has a second one, with a `+` before
  its value. Every other element has `Element.text` only.
* `read_eq_ok_iff`: a text without a separator is read as `e` exactly when `e` is well
  formed and the text is one of its spellings.
* `parse_text`: so a well-formed element is read back from its text.

Each function of the reader has one lemma (`readLimit_eq_ok_iff`, `readPattern_eq_ok_iff`,
`readClass_eq_ok_iff`) that says when it succeeds, and the theorem is put together from
these. Where a function only splits, its split is an equation (`readClass_marker_append`,
`read_class`, `read_limit`), which serves the errors as well.
-/

set_option autoImplicit false

namespace ClassFilter

/-! ### The grammar -/

/-- Whether a text is free of the characters that mean something in a specification. A dot and a `!`
are left out, as they have a meaning at the end and at the front only. -/
def Unreserved (text : String) : Prop :=
  ∀ c ∈ text.toList, c ≠ ';' ∧ c ≠ '/' ∧ c ≠ '=' ∧ c ≠ '*'

theorem unreserved_iff_not_mem {text : String} :
    Unreserved text ↔
      ';' ∉ text.toList ∧ '/' ∉ text.toList ∧ '=' ∉ text.toList ∧ '*' ∉ text.toList := by
  unfold Unreserved
  grind

/-- Whether a text can follow the marker of a polarity. Where the marker is nothing, a `!` in front
would be taken for one. After the marker of a denial a second `!` is a part of the text. -/
def Polarity.Admits (p : Polarity) (text : String) : Prop :=
  Unreserved text ∧ (p = .allow → text.toList.head? ≠ some '!')

/-- Whether a text can stand before the stars of a scope. A dot at its end selects a package or
hierarchy, which must have a name. Without the dot there is one star and it is a stem, which may be
empty. -/
def Scope.Fits : Scope → String → Prop
  | .package, text | .hierarchy, text => ClassName.endsWithDot text.toList = true ∧ text ≠ "."
  | .stem, text => ClassName.endsWithDot text.toList = false

theorem ClassName.endsWithDot_eq_true_iff {cs : List Char} :
    ClassName.endsWithDot cs = true ↔ cs.getLast? = some '.' := by
  rw [ClassName.endsWithDot, beq_iff_eq]

/-- A text that ends in a dot is a package with its dot. The package is empty for the dot alone,
which the reader refuses. -/
theorem ClassName.endsWithDot_iff {text : String} :
    ClassName.endsWithDot text.toList = true ↔ ∃ pkg, text = pkg ++ "." := by
  rw [ClassName.endsWithDot_eq_true_iff, List.getLast?_eq_some_iff]
  constructor
  · intro ⟨front, hfront⟩
    refine ⟨String.ofList front, ?_⟩
    rw [← String.toList_inj, hfront, String.toList_append, String.toList_ofList]
    rfl
  · rintro ⟨pkg, rfl⟩
    exact ⟨pkg.toList, String.toList_append⟩

namespace Element

/-- The conditions that a specification puts on the parts of an element. They are about its fields
and not about a text, so an element that comes from elsewhere can be judged by them. -/
def WellFormed : Element → Prop
  | .limit _ max => max.toNat < 2 ^ 63
  | .exact p name => p.Admits name ∧ (p = .deny → name ≠ "")
  | .wildcard p scope text => p.Admits text ∧ scope.Fits text

/-- The texts of an element, as characters. A limit may have a `+` before its value, and every other
element has one text. The conditions on the parts are those of `WellFormed` and not repeated
here. -/
def Spells (cs : List Char) : Element → Prop
  | .limit metric max =>
    ∃ value, Text.Decimal.Spells value max.toNat ∧ cs = metric.keyword.toList ++ '=' :: value
  | .exact p name => cs = p.marker.toList ++ name.toList
  | .wildcard p scope text => cs = p.marker.toList ++ (text.toList ++ scope.stars.toList)

/-- The text of an element is one of its spellings, the one without a `+`. It is so whether or not
the element is well formed. -/
theorem spells_text (e : Element) : e.Spells e.text.toList := by
  cases e with
  | limit metric max =>
    refine ⟨Nat.toDigits 10 max.toNat, .inl rfl, ?_⟩
    show (metric.keyword ++ "=" ++ Nat.repr max.toNat).toList = _
    rw [String.toList_append, String.toList_append, Nat.toList_repr, List.append_assoc]
    rfl
  | exact p name => exact String.toList_append
  | wildcard p scope text =>
    show (p.marker ++ text ++ scope.stars).toList = _
    rw [String.toList_append, String.toList_append, List.append_assoc]

/-! ### The reader, function by function -/

/-- A list is cut before the first occurrence of a character, or at its end if there is none. This
is how the reader finds `=` and `*`, said without its two searches. -/
theorem takeWhile_dropWhile_iff {c : Char} {cs front rest : List Char} :
    (cs.takeWhile (· != c) = front ∧ cs.dropWhile (· != c) = rest) ↔
      cs = front ++ rest ∧ c ∉ front ∧ ∀ x ∈ rest.head?, x = c := by
  constructor
  · rintro ⟨rfl, rfl⟩
    refine ⟨List.takeWhile_append_dropWhile.symm, ?_, ?_⟩
    · intro h
      have hbne := List.mem_takeWhile_imp h
      simp at hbne
    · intro x hx
      have hhead := List.head?_dropWhile_not (· != c) cs
      rw [Option.mem_def.1 hx] at hhead
      simpa using hhead
  · rintro ⟨rfl, hfront, hrest⟩
    have hne : ∀ x ∈ front, (x != c) = true := by
      intro x hx
      exact bne_iff_ne.2 fun heq => hfront (heq ▸ hx)
    rw [List.takeWhile_append_of_pos hne, List.dropWhile_append_of_pos hne]
    cases rest with
    | nil => simp
    | cons x xs =>
      obtain rfl : x = c := hrest x rfl
      simp

/-- What stands around the first `=` is a limit if a keyword comes before it and a literal that is
not negative after it. The value of the literal must fit a signed word. -/
theorem readLimit_eq_ok_iff {keyword value : List Char} {e : Element} :
    readLimit keyword value = .ok e ↔
      ∃ metric max, e = .limit metric max ∧ max.toNat < 2 ^ 63 ∧
        Text.Decimal.Spells value max.toNat ∧ keyword = metric.keyword.toList := by
  constructor
  · intro h
    -- Each test that the reader makes is met, and what it found has a name.
    unfold readLimit at h
    split at h
    · cases h
    split at h
    · cases h
    rename_i v hv
    split at h
    · cases h
    rename_i hneg
    split at h
    · cases h
    rename_i metric hmetric
    cases h
    obtain ⟨n, rfl⟩ := Int.eq_ofNat_of_zero_le (Int.not_lt.1 hneg)
    obtain ⟨hn, hspells⟩ := Text.Decimal.word?_eq_some_natCast_iff.1 hv
    -- A signed word that is not negative keeps its value as an unsigned one.
    have hmax : (UInt64.ofNat (n : Int).toNat).toNat = n := by
      rw [Int.toNat_natCast, UInt64.toNat_ofNat']
      exact Nat.mod_eq_of_lt (by omega)
    refine ⟨metric, _, rfl, by rwa [hmax], by rwa [hmax], ?_⟩
    rw [Metric.keyword_of_ofKeyword? hmetric, String.toList_ofList]
  · rintro ⟨metric, max, rfl, hmax, hspells, rfl⟩
    -- The reader has an error of its own for a missing literal.
    have hne : value ≠ [] := by
      intro hnil
      rw [hnil] at hspells
      rcases hspells with h | ⟨-, h⟩
      · exact Nat.toDigits_ne_nil h.symm
      · cases h
    have hword := Text.Decimal.word?_eq_some_natCast_iff.2 ⟨hmax, hspells⟩
    have hneg : ¬ (max.toNat : Int) < 0 := by omega
    rw [readLimit, if_neg hne, hword]
    simp [hneg]

/-- A text without a star is a name, the empty text included. This is the first branch of the reader
of patterns. -/
theorem readPattern_name {p : Polarity} {name : String} (hstar : '*' ∉ name.toList) :
    readPattern p name.toList = .ok (.exact p name) := by
  obtain ⟨hfr, hst⟩ := takeWhile_dropWhile_iff.2
    ⟨(List.append_nil name.toList).symm, hstar, by simp⟩
  simp only [readPattern, hfr, hst, String.ofList_toList]

/-- A text that fits the scope is read together with the stars of the scope. It covers the three
branches of the reader of patterns that accept stars. -/
theorem readPattern_append_stars {p : Polarity} {scope : Scope} {text : String}
    (hstar : '*' ∉ text.toList) (hfits : scope.Fits text) :
    readPattern p (text.toList ++ scope.stars.toList) = .ok (.wildcard p scope text) := by
  have hstars : ∀ x ∈ scope.stars.toList.head?, x = '*' := by
    cases scope <;> simp [Scope.stars]
  have hdot : text.toList = ['.'] ↔ text = "." := by
    rw [← String.toList_inj]
    rfl
  obtain ⟨hfr, hst⟩ := takeWhile_dropWhile_iff.2 ⟨rfl, hstar, hstars⟩
  unfold readPattern
  rw [hfr, hst]
  cases scope with
  | package =>
    obtain ⟨hend, hne⟩ := hfits
    simp [Scope.stars, hdot, hne, hend]
  | hierarchy =>
    obtain ⟨hend, hne⟩ := hfits
    simp [Scope.stars, hdot, hne, hend]
  | stem =>
    have hend : ClassName.endsWithDot text.toList = false := hfits
    -- A stem has no dot at its end, so it is not the dot alone.
    have hne : text.toList ≠ ['.'] := by
      intro heq
      rw [heq] at hend
      cases hend
    simp [Scope.stars, hne, hend]

/-- The stars that end a pattern, and what they say about the text before them. A pattern is a name,
or a text that fits the scope of its stars. -/
theorem readPattern_eq_ok_iff {p : Polarity} {pattern : List Char} {e : Element} :
    readPattern p pattern = .ok e ↔
      (∃ name, e = .exact p name ∧ pattern = name.toList ∧ '*' ∉ pattern) ∨
      ∃ scope text, e = .wildcard p scope text ∧ pattern = text.toList ++ scope.stars.toList ∧
        '*' ∉ text.toList ∧ scope.Fits text := by
  have hdot : ∀ {front : List Char}, front = ['.'] ↔ String.ofList front = "." := by
    intro front
    rw [← String.toList_inj, String.toList_ofList]
    rfl
  constructor
  · intro h
    -- The reader's match is on what the first star begins.
    generalize hfr : pattern.takeWhile (· != '*') = front
    generalize hst : pattern.dropWhile (· != '*') = stars
    obtain ⟨hpat, hfront, -⟩ := takeWhile_dropWhile_iff.1 ⟨hfr, hst⟩
    have hwildcard : ∀ scope : Scope, scope.stars.toList = stars →
        scope.Fits (String.ofList front) → ∃ scope' text,
          Element.wildcard p scope (String.ofList front) = .wildcard p scope' text ∧
            pattern = text.toList ++ scope'.stars.toList ∧ '*' ∉ text.toList ∧
              scope'.Fits text := by
      intro scope hstars hfits
      refine ⟨scope, String.ofList front, rfl, ?_, ?_, hfits⟩
      · rw [hpat, String.toList_ofList, hstars]
      · rwa [String.toList_ofList]
    have hends : ClassName.endsWithDot (String.ofList front).toList
        = ClassName.endsWithDot front := by
      rw [String.toList_ofList]
    unfold readPattern at h
    rw [hfr, hst] at h
    simp only at h
    split at h
    · -- Without a star the pattern is a name.
      cases h
      refine .inl ⟨_, rfl, by simpa using hpat, ?_⟩
      rw [hpat, List.append_nil]
      exact hfront
    · -- One star is for a package or a stem, by the dot before it.
      split at h
      · cases h
      rename_i hne
      split at h
      · rename_i hend
        cases h
        exact .inr (hwildcard .package rfl ⟨hends.trans hend, fun heq => hne (hdot.2 heq)⟩)
      · rename_i hend
        cases h
        exact .inr (hwildcard .stem rfl (hends.trans (Bool.eq_false_iff.2 hend)))
    · -- Two stars are for a hierarchy.
      split at h
      · cases h
      rename_i hne
      split at h
      · rename_i hend
        cases h
        exact .inr (hwildcard .hierarchy rfl ⟨hends.trans hend, fun heq => hne (hdot.2 heq)⟩)
      · cases h
    · cases h
  · intro h
    rcases h with ⟨name, rfl, rfl, hstar⟩ | ⟨scope, text, rfl, rfl, hstar, hfits⟩
    · exact readPattern_name hstar
    · exact readPattern_append_stars hstar hfits

/-- Every text but a `!` alone is a marker and a pattern. Only one `!` is the marker, so a pattern
to deny may begin with another. -/
theorem exists_marker_append {cs : List Char} (h : cs ≠ ['!']) :
    ∃ (p : Polarity) (pattern : List Char), cs = p.marker.toList ++ pattern ∧
      (p = .allow → pattern.head? ≠ some '!') ∧ (p = .deny → pattern ≠ []) := by
  by_cases hhead : cs.head? = some '!'
  · obtain ⟨pattern, rfl⟩ := List.head?_eq_some_iff.1 hhead
    refine ⟨.deny, pattern, rfl, nofun, fun _ hnil => h ?_⟩
    rw [hnil]
  · exact ⟨.allow, cs, rfl, fun _ => hhead, nofun⟩

/-- What follows a marker is read as a pattern. The hypotheses leave out a `!` that is no marker of
an allowed pattern, and the marker with nothing after it. -/
theorem readClass_marker_append {p : Polarity} {pattern : List Char}
    (hbang : p = .allow → pattern.head? ≠ some '!') (hne : p = .deny → pattern ≠ []) :
    readClass (p.marker.toList ++ pattern) = readPattern p pattern := by
  cases p with
  | allow =>
    show readClass pattern = _
    unfold readClass
    split
    · exact absurd rfl (hbang rfl)
    · exact absurd rfl (hbang rfl)
    · rfl
  | deny =>
    show readClass ('!' :: pattern) = _
    cases pattern with
    | nil => exact absurd rfl (hne rfl)
    | cons c cs => rfl

/-- One `!` is the marker of a pattern, which must not be empty then. Without it the pattern is the
whole text, and the empty one is the empty name. -/
theorem readClass_eq_ok_iff {cs : List Char} {e : Element} :
    readClass cs = .ok e ↔
      ∃ p pattern, cs = p.marker.toList ++ pattern ∧ (p = .allow → pattern.head? ≠ some '!') ∧
        (p = .deny → pattern ≠ []) ∧ readPattern p pattern = .ok e := by
  constructor
  · intro h
    have hne : cs ≠ ['!'] := by
      rintro rfl
      cases h
    obtain ⟨p, pattern, rfl, hbang, hnil⟩ := exists_marker_append hne
    rw [readClass_marker_append hbang hnil] at h
    exact ⟨p, pattern, rfl, hbang, hnil, h⟩
  · rintro ⟨p, pattern, rfl, hbang, hnil, hread⟩
    rwa [readClass_marker_append hbang hnil]

/-- Without an `=` and without a `/`, an element is a class. As an equation it serves the errors of
classes as well. -/
theorem read_class {cs : List Char} (hslash : '/' ∉ cs) (hequals : '=' ∉ cs) :
    read cs = readClass cs := by
  obtain ⟨-, hdrop⟩ := takeWhile_dropWhile_iff.2
    ⟨(List.append_nil cs).symm, hequals, fun _ hx => nomatch hx⟩
  rw [read, if_neg hslash, hdrop]

/-- The first `=` makes an element a limit, if no `/` stands in it. What is before the `=` need not
be a keyword for this. -/
theorem read_limit {keyword value : List Char} (hslash : '/' ∉ keyword ++ '=' :: value)
    (hkeyword : '=' ∉ keyword) : read (keyword ++ '=' :: value) = readLimit keyword value := by
  have hhead : ∀ x ∈ ('=' :: value).head?, x = '=' := fun x hx => (Option.some.inj hx).symm
  obtain ⟨htake, hdrop⟩ := takeWhile_dropWhile_iff.2 ⟨rfl, hkeyword, hhead⟩
  rw [read, if_neg hslash, hdrop, htake]

/-- A `/` is in no element, and the first `=` makes it a limit. This is where the reader parts ways,
so the two kinds are looked at separately. -/
theorem read_eq_ok_iff_split {cs : List Char} {e : Element} :
    read cs = .ok e ↔
      '/' ∉ cs ∧ ('=' ∉ cs ∧ readClass cs = .ok e ∨
        ∃ keyword value, cs = keyword ++ '=' :: value ∧ '=' ∉ keyword ∧
          readLimit keyword value = .ok e) := by
  constructor
  · intro h
    by_cases hslash : '/' ∈ cs
    · simp [read, hslash] at h
    by_cases hequals : '=' ∈ cs
    · obtain ⟨keyword, value, rfl, hkeyword⟩ := List.eq_append_cons_of_mem hequals
      rw [read_limit hslash hkeyword] at h
      exact ⟨hslash, .inr ⟨keyword, value, rfl, hkeyword, h⟩⟩
    · rw [read_class hslash hequals] at h
      exact ⟨hslash, .inl ⟨hequals, h⟩⟩
  · rintro ⟨hslash, ⟨hequals, h⟩ | ⟨keyword, value, rfl, hkeyword, h⟩⟩
    · rwa [read_class hslash hequals]
    · rwa [read_limit hslash hkeyword]

/-! ### The reader accepts the grammar -/

theorem eq_of_mem_marker {p : Polarity} {c : Char} (h : c ∈ p.marker.toList) : c = '!' := by
  cases p with
  | allow => exact absurd h List.not_mem_nil
  | deny => exact List.mem_singleton.1 h

theorem eq_of_mem_stars {scope : Scope} {c : Char} (h : c ∈ scope.stars.toList) :
    c = '*' := by
  cases scope with
  | package => exact List.mem_singleton.1 h
  | hierarchy => exact List.eq_of_mem_replicate (show c ∈ List.replicate 2 '*' from h)
  | stem => exact List.mem_singleton.1 h

/-- A text does not begin with a character if neither its front nor the rest does. The rest counts
where the front is empty. -/
theorem head?_append_ne {front rest : List Char} {c : Char} (hfront : front.head? ≠ some c)
    (hrest : rest.head? ≠ some c) : (front ++ rest).head? ≠ some c := by
  cases front with
  | nil => exact hrest
  | cons x xs => exact hfront

/-- Stars do not look like a marker, so a pattern begins with a `!` just if its text does. It covers
the empty text, where a star comes first. -/
theorem head?_append_stars_ne {text : List Char} {scope : Scope} :
    (text ++ scope.stars.toList).head? ≠ some '!' ↔ text.head? ≠ some '!' := by
  cases text with
  | nil => cases scope <;> simp [Scope.stars]
  | cons c cs => simp

/-- A limit holds no separator and no slash, and its keyword no `=`. Keywords are four fixed words,
and literals are digits with at most a plus sign. -/
theorem not_mem_limit (metric : Metric) {value : List Char} {n : Nat}
    (h : Text.Decimal.Spells value n) :
    ';' ∉ metric.keyword.toList ++ '=' :: value ∧ '/' ∉ metric.keyword.toList ++ '=' :: value ∧
      '=' ∉ metric.keyword.toList := by
  have hkeyword : ';' ∉ metric.keyword.toList ∧ '/' ∉ metric.keyword.toList ∧
      '=' ∉ metric.keyword.toList := by
    cases metric <;> decide
  -- Neither character is a digit or a sign.
  have hvalue : ∀ c : Char, c.isDigit = false → c ≠ '=' → c ≠ '+' → c ∉ '=' :: value := by
    intro c hc heq hplus hmem
    have hdigits := Text.Decimal.not_mem_toDigits hc n
    rcases h with rfl | ⟨-, rfl⟩
    · simp [heq, hdigits] at hmem
    · simp [heq, hplus, hdigits] at hmem
  refine ⟨?_, ?_, hkeyword.2.2⟩
  · rw [List.mem_append]
    exact not_or.2 ⟨hkeyword.1, hvalue ';' rfl (by decide) (by decide)⟩
  · rw [List.mem_append]
    exact not_or.2 ⟨hkeyword.2.1, hvalue '/' rfl (by decide) (by decide)⟩

/-- A class element holds a reserved character exactly where its text does. Neither marker nor stars
add one, but for the stars at the end. -/
theorem not_mem_class {p : Polarity} {text stars : List Char}
    (hstars : ∀ c ∈ stars, c = '*') :
    (∀ c ∈ text, c ≠ ';' ∧ c ≠ '/' ∧ c ≠ '=' ∧ c ≠ '*') ↔
      ';' ∉ p.marker.toList ++ (text ++ stars) ∧ '/' ∉ p.marker.toList ++ (text ++ stars) ∧
        '=' ∉ p.marker.toList ++ (text ++ stars) ∧ '*' ∉ text := by
  constructor
  · intro h
    have hout : ∀ c ∈ [';', '/', '='], c ∉ p.marker.toList ++ (text ++ stars) := by
      intro c hc hmem
      rcases List.mem_append.1 hmem with hm | hm
      · obtain rfl := eq_of_mem_marker hm
        exact absurd hc (by decide)
      rcases List.mem_append.1 hm with ht | hs
      · obtain ⟨h1, h2, h3, -⟩ := h c ht
        simp [h1, h2, h3] at hc
      · obtain rfl := hstars c hs
        exact absurd hc (by decide)
    -- The star is left out above, since the stars at the end may hold it.
    exact ⟨hout ';' (by simp), hout '/' (by simp), hout '=' (by simp), fun hs => (h '*' hs).2.2.2 rfl⟩
  · intro ⟨hsep, hslash, heq, hstar⟩ c hc
    have hmem : c ∈ p.marker.toList ++ (text ++ stars) :=
      List.mem_append_right _ (List.mem_append_left _ hc)
    refine ⟨?_, ?_, ?_, ?_⟩
    · rintro rfl
      exact hsep hmem
    · rintro rfl
      exact hslash hmem
    · rintro rfl
      exact heq hmem
    · rintro rfl
      exact hstar hc

/-- The reader accepts exactly the grammar. A text without a separator is read as an element just if
the element is well formed and the text spells it. The tests and splits of the reader are not seen
on the right side. -/
theorem read_eq_ok_iff {cs : List Char} {e : Element} (hsep : ';' ∉ cs) :
    read cs = .ok e ↔ e.WellFormed ∧ e.Spells cs := by
  rw [read_eq_ok_iff_split]
  constructor
  · rintro ⟨hslash, ⟨heq, hclass⟩ | ⟨keyword, value, rfl, -, hlimit⟩⟩
    · -- The reader tests for the reserved characters in the whole element.
      obtain ⟨p, pattern, rfl, hbang, hne, hpattern⟩ := readClass_eq_ok_iff.1 hclass
      rcases readPattern_eq_ok_iff.1 hpattern with
        ⟨name, rfl, rfl, hstar⟩ | ⟨scope, text, rfl, rfl, hstar, hfits⟩
      · have hname : Unreserved name :=
          (not_mem_class (p := p) (List.forall_mem_nil _)).2 (by
            rw [List.append_nil]
            exact ⟨hsep, hslash, heq, hstar⟩)
        refine ⟨⟨⟨hname, hbang⟩, fun hp hempty => hne hp ?_⟩, rfl⟩
        rw [hempty]
        rfl
      · have htext : Unreserved text :=
          (not_mem_class fun c hc => eq_of_mem_stars hc).2 ⟨hsep, hslash, heq, hstar⟩
        exact ⟨⟨⟨htext, fun hp => head?_append_stars_ne.1 (hbang hp)⟩, hfits⟩, rfl⟩
    · obtain ⟨metric, max, rfl, hmax, hspells, rfl⟩ := readLimit_eq_ok_iff.1 hlimit
      exact ⟨hmax, value, hspells, rfl⟩
  · intro ⟨hwf, hspells⟩
    cases e with
    | limit metric max =>
      obtain ⟨value, hvalue, rfl⟩ := hspells
      obtain ⟨-, hslash, heq⟩ := not_mem_limit metric hvalue
      exact ⟨hslash, .inr ⟨_, value, rfl, heq,
        readLimit_eq_ok_iff.2 ⟨metric, max, rfl, hwf, hvalue, rfl⟩⟩⟩
    | exact p name =>
      obtain ⟨⟨hname, hbang⟩, hne⟩ := hwf
      obtain rfl := hspells
      have hout := (not_mem_class (p := p) (List.forall_mem_nil _)).1 hname
      rw [List.append_nil] at hout
      refine ⟨hout.2.1, .inl ⟨hout.2.2.1, readClass_eq_ok_iff.2 ⟨p, _, rfl, hbang, ?_, ?_⟩⟩⟩
      · intro hp hnil
        exact hne hp (String.toList_eq_nil_iff.1 hnil)
      · exact readPattern_eq_ok_iff.2 (.inl ⟨name, rfl, rfl, hout.2.2.2⟩)
    | wildcard p scope text =>
      obtain ⟨⟨htext, hbang⟩, hfits⟩ := hwf
      obtain rfl := hspells
      have hstars : ∀ c ∈ scope.stars.toList, c = '*' := fun c hc => eq_of_mem_stars hc
      have hout := (not_mem_class (p := p) hstars).1 htext
      refine ⟨hout.2.1, .inl ⟨hout.2.2.1, readClass_eq_ok_iff.2 ⟨p, _, rfl, ?_, ?_, ?_⟩⟩⟩
      · exact fun hp => head?_append_stars_ne.2 (hbang hp)
      · -- With its stars the pattern is not empty, whatever the text.
        intro _ hnil
        obtain ⟨-, hstars⟩ := List.append_eq_nil_iff.1 hnil
        cases scope <;> cases hstars
      · exact readPattern_eq_ok_iff.2 (.inr ⟨scope, text, rfl, rfl, hout.2.2.2, hfits⟩)

/-- A text is read as its characters are. The text itself is kept for the error only. -/
theorem parse_eq_ok_iff_read {text : String} {e : Element} :
    parse text = .ok e ↔ read text.toList = .ok e := by
  rw [parse]
  cases read text.toList <;> simp

/-- The grammar for texts, where `read_eq_ok_iff` has it for characters. Separators are excluded,
since the reader is given elements that were split at them. -/
theorem parse_eq_ok_iff {text : String} {e : Element} (hsep : ';' ∉ text.toList) :
    parse text = .ok e ↔ e.WellFormed ∧ e.Spells text.toList := by
  rw [parse_eq_ok_iff_read, read_eq_ok_iff hsep]

/-! ### The text of a well-formed element -/

/-- A well-formed element is one part of a specification: no `;` stands in its text, at which it
would be split. -/
theorem separator_not_mem_text {e : Element} (h : e.WellFormed) : ';' ∉ e.text.toList := by
  have hspells := e.spells_text
  cases e with
  | limit metric max =>
    obtain ⟨value, hvalue, heq⟩ := hspells
    rw [heq]
    exact (not_mem_limit metric hvalue).1
  | exact p name =>
    rw [show (exact p name).text.toList = _ from hspells, ← List.append_nil name.toList]
    exact ((not_mem_class (by simp)).1 h.1.1).1
  | wildcard p scope text =>
    rw [show (wildcard p scope text).text.toList = _ from hspells]
    exact ((not_mem_class fun c hc => eq_of_mem_stars hc).1 h.1.1).1

/-- A well-formed element is read back from its text. So nothing is lost when a chain is written as
a specification and read again. -/
theorem parse_text {e : Element} (h : e.WellFormed) : parse e.text = .ok e :=
  (parse_eq_ok_iff (separator_not_mem_text h)).2 ⟨h, e.spells_text⟩

/-- Only the empty class name is spelled without a character. Limits have an `=`, patterns a star,
and denials a marker. -/
theorem spells_nil_iff {e : Element} : e.Spells [] ↔ e = .exact .allow "" := by
  constructor
  · intro h
    cases e with
    | limit metric max =>
      obtain ⟨value, -, heq⟩ := h
      exact absurd (congrArg List.length heq) (by simp)
    | exact p name =>
      obtain ⟨hp, hname⟩ := List.append_eq_nil_iff.1 (show _ = _ from h).symm
      cases p with
      | allow => rw [String.toList_eq_nil_iff.1 hname]
      | deny => cases hp
    | wildcard p scope text =>
      obtain ⟨-, hpattern⟩ := List.append_eq_nil_iff.1 (show _ = _ from h).symm
      obtain ⟨-, hstars⟩ := List.append_eq_nil_iff.1 hpattern
      cases scope <;> cases hstars
  · rintro rfl
    rfl

/-- The text of an element is empty for the empty class name only. This is the one element that is
dropped at the end of a specification. -/
theorem text_eq_empty_iff {e : Element} : e.text = "" ↔ e = .exact .allow "" := by
  constructor
  · intro h
    have hspells := e.spells_text
    rw [h] at hspells
    exact spells_nil_iff.1 hspells
  · rintro rfl
    rfl

end Element

end ClassFilter
