import ClassFilter.Proofs.Element.Grammar
import ClassFilter.Proofs.Rule.Check

/-!
# `ClassFilter.Proofs.Element.Reading`: what an element says about a query

A specification can be read without a parser. This file says what the text of one element
means, and that the rule of the element means the same.

* `Reading.Matches`: whether a pattern matches a class name.
* `Reading.Settles`: the status with which an element settles a query on its own.
* `Reading.settles_iff`: an element that can be read settles a query exactly when its rule
  has an opinion, and with that status.

The patterns come with one lemma for each form: `matches_package_iff`,
`matches_hierarchy_iff`, and `matches_stem_iff`, put together in
`matches_append_stars_iff`, and `matches_name_iff`.
-/

set_option autoImplicit false

namespace ClassFilter.Reading

/-! ### The reading of a text -/

/-- Whether a pattern, its `!` stripped, matches a class name:
- `package`: `pkg.*` matches the classes directly in the package;
- `hierarchy`: `pkg.**` matches the classes in the package and below it;
- `stem`: any other `stem*` matches the names that begin with the stem;
- `name`: a pattern without a star matches itself. -/
inductive Matches (pattern name : String) : Prop where
  | package (pkg rest : String) (hpattern : pattern = pkg ++ ".*")
      (hname : name = pkg ++ "." ++ rest) (hrest : '.' ∉ rest.toList)
  | hierarchy (pkg rest : String) (hpattern : pattern = pkg ++ ".**")
      (hname : name = pkg ++ "." ++ rest)
  | stem (stem rest : String) (hpattern : pattern = stem ++ "*")
      (hother : ∀ pkg, stem ≠ pkg ++ "." ∧ stem ≠ pkg ++ ".*") (hname : name = stem ++ rest)
  | name (hstar : '*' ∉ pattern.toList) (hname : name = pattern)

/-- The words that limits are written with, and the counters that they are about. They are listed
here once more, so that a reading of a limit does not rest on the keywords of the parser. -/
inductive Names : String → Metric → Prop where
  | depth : Names "maxdepth" .depth
  | arrayLength : Names "maxarray" .arrayLength
  | references : Names "maxrefs" .references
  | streamBytes : Names "maxbytes" .streamBytes

/-- The status with which the element of this text settles a query on its own:
- `limit`: `word=bound` rejects a query whose counter of that word is present and above the bound;
- `pattern`: any other element allows the class that its pattern matches, or rejects it if a `!`
  stands before the pattern. -/
inductive Settles (q : Query) (text : String) : Status → Prop where
  | limit (word literal : String) (metric : Metric) (bound : Nat)
      (htext : text = word ++ "=" ++ literal) (hword : Names word metric)
      (hliteral : Text.Decimal.Spells literal.toList bound) (hexceeds : q.Exceeds bound metric) :
      Settles q text .reject
  | pattern (p : Polarity) (pattern : String) (hclass : '=' ∉ text.toList)
      (htext : text = p.marker ++ pattern)
      (hmarker : p = .allow → pattern.toList.head? ≠ some '!')
      (hmatches : Matches pattern q.name) :
      Settles q text p.onMatch

/-! ### Patterns -/

/-- The star at the end of two patterns can be taken off both. The forms of `Matches` are told apart
by what is left. -/
theorem append_star_inj {front front' : String} : front ++ "*" = front' ++ "*" ↔ front = front' :=
  String.append_left_inj "*"

theorem append_dot_star (pkg : String) : pkg ++ ".*" = pkg ++ "." ++ "*" := by
  rw [String.append_assoc]
  rfl

theorem append_star_star (front : String) : front ++ "**" = front ++ "*" ++ "*" := by
  rw [String.append_assoc]
  rfl

theorem append_dot_star_star (pkg : String) : pkg ++ ".**" = pkg ++ "." ++ "*" ++ "*" := by
  rw [String.append_assoc, String.append_assoc]
  rfl

/-- No text ends both in a star and in a dot. It rules out that one star of a hierarchy is taken for
the only one of a package. -/
theorem append_star_ne (front pkg : String) : front ++ "*" ≠ pkg ++ "." := by
  intro h
  have hlast := congrArg (·.toList.getLast?) h
  simp at hlast

private theorem star_mem (front : String) : '*' ∈ (front ++ "*").toList := by
  simp

/-- A name begins with a text if it is the text and a rest, which may be empty. The rest is a text
again, where the program compares characters. -/
theorem startsWith_iff_exists {name text : String} :
    ClassName.startsWith name text = true ↔ ∃ rest, name = text ++ rest := by
  rw [ClassName.startsWith_iff]
  constructor
  · intro ⟨rest, hrest⟩
    refine ⟨String.ofList rest, ?_⟩
    rw [← String.toList_inj, String.toList_append, String.toList_ofList, hrest]
  · rintro ⟨rest, rfl⟩
    exact ⟨rest.toList, String.toList_append.symm⟩

/-- The pattern of a package matches the names that lie in it. Of the other forms none has one star
after a dot, so they drop out. -/
theorem matches_package_iff {text name : String} (hstar : '*' ∉ text.toList)
    (hdot : ClassName.endsWithDot text.toList = true) :
    Matches (text ++ "*") name ↔ ClassName.package? name = some text := by
  obtain ⟨pkg, rfl⟩ := ClassName.endsWithDot_iff.1 hdot
  rw [ClassName.package?_eq_some_iff]
  constructor
  · intro h
    cases h with
    | package other rest hpattern hname hrest =>
      rw [append_dot_star, append_star_inj] at hpattern
      rw [hname, ← hpattern]
      exact ⟨pkg.toList, rest.toList, String.toList_append, String.toList_append, hrest⟩
    | hierarchy other rest hpattern =>
      -- A package with its dot would end in a star.
      rw [append_dot_star_star, append_star_inj] at hpattern
      exact absurd hpattern.symm (append_star_ne _ _)
    | stem stem rest hpattern hother =>
      rw [append_star_inj] at hpattern
      exact absurd hpattern.symm (hother pkg).1
    | name hnostar => exact absurd (star_mem _) hnostar
  · intro ⟨body, tail, _, hname, htail⟩
    refine .package pkg (String.ofList tail) (append_dot_star pkg).symm ?_ ?_
    · rw [← String.toList_inj]
      calc name.toList
        _ = (pkg ++ ".").toList ++ (String.ofList tail).toList := by
          rw [String.toList_ofList, hname]
        _ = (pkg ++ "." ++ String.ofList tail).toList := String.toList_append.symm
    · rwa [String.toList_ofList]

/-- The pattern of a hierarchy matches the names that begin with its text, which ends in a dot.
Names with further dots are among them. -/
theorem matches_hierarchy_iff {text name : String} (hstar : '*' ∉ text.toList)
    (hdot : ClassName.endsWithDot text.toList = true) :
    Matches (text ++ "**") name ↔ ClassName.startsWith name text = true := by
  obtain ⟨pkg, rfl⟩ := ClassName.endsWithDot_iff.1 hdot
  rw [startsWith_iff_exists]
  constructor
  · intro h
    cases h with
    | package other rest hpattern =>
      rw [append_dot_star, append_star_star, append_star_inj] at hpattern
      exact absurd hpattern (append_star_ne _ _)
    | hierarchy other rest hpattern hname =>
      rw [append_dot_star_star, append_star_star, append_star_inj, append_star_inj] at hpattern
      exact ⟨rest, hpattern ▸ hname⟩
    | stem stem rest hpattern hother =>
      -- The stem would be the package with one star, which is no stem.
      rw [append_star_star, append_star_inj, ← append_dot_star] at hpattern
      exact absurd hpattern.symm (hother pkg).2
    | name hnostar =>
      rw [append_star_star] at hnostar
      exact absurd (star_mem _) hnostar
  · intro ⟨rest, hname⟩
    refine .hierarchy pkg rest ?_ hname
    rw [append_dot_star_star, append_star_star]

/-- The pattern of a stem matches the names that begin with it. The text before the star must not
end in a dot, or the pattern would be one of a package. -/
theorem matches_stem_iff {text name : String} (hstar : '*' ∉ text.toList)
    (hdot : ClassName.endsWithDot text.toList = false) :
    Matches (text ++ "*") name ↔ ClassName.startsWith name text = true := by
  have hother : ∀ pkg, text ≠ pkg ++ "." := by
    intro pkg hpkg
    rw [ClassName.endsWithDot_iff.2 ⟨pkg, hpkg⟩] at hdot
    cases hdot
  rw [startsWith_iff_exists]
  constructor
  · intro h
    cases h with
    -- A package would need a dot at the end of the text, a hierarchy a star in it.
    | package pkg rest hpattern =>
      rw [append_dot_star, append_star_inj] at hpattern
      exact absurd hpattern (hother pkg)
    | hierarchy pkg rest hpattern =>
      rw [append_dot_star_star, append_star_inj] at hpattern
      exact absurd (hpattern ▸ star_mem _) hstar
    | stem stem rest hpattern _ hname =>
      rw [append_star_inj] at hpattern
      exact ⟨rest, hpattern ▸ hname⟩
    | name hnostar => exact absurd (star_mem _) hnostar
  · intro ⟨rest, hname⟩
    refine .stem text rest rfl (fun pkg => ⟨hother pkg, ?_⟩) hname
    rw [append_dot_star]
    intro hpkg
    exact hstar (hpkg ▸ star_mem _)

/-- A pattern with stars matches the names that its scope covers. It puts the three forms together,
one for each scope. -/
theorem matches_append_stars_iff {scope : Scope} {text name : String}
    (hstar : '*' ∉ text.toList) (hfits : scope.Fits text) :
    Matches (text ++ scope.stars) name ↔ scope.covers text name = true := by
  cases scope with
  | package =>
    rw [Scope.covers, beq_iff_eq]
    exact matches_package_iff hstar hfits.1
  | hierarchy => exact matches_hierarchy_iff hstar hfits.1
  | stem => exact matches_stem_iff hstar hfits

/-- A pattern without a star matches one name, and the other forms drop out because each has a
star. -/
theorem matches_name_iff {pattern name : String} (hstar : '*' ∉ pattern.toList) :
    Matches pattern name ↔ name = pattern := by
  have hne : ∀ front, pattern ≠ front ++ "*" := by
    intro front hfront
    exact hstar (hfront ▸ star_mem _)
  constructor
  · intro h
    cases h with
    | package pkg rest hpattern =>
      rw [append_dot_star] at hpattern
      exact absurd hpattern (hne _)
    | hierarchy pkg rest hpattern =>
      rw [append_dot_star_star] at hpattern
      exact absurd hpattern (hne _)
    | stem stem rest hpattern => exact absurd hpattern (hne _)
    | name _ hname => exact hname
  · exact .name hstar

/-! ### Elements -/

/-- A marker and what follows it are found again in a text. This needs that no pattern to allow
begins with a `!`. -/
theorem marker_append_inj {p p' : Polarity} {pattern pattern' : String}
    (hmarker : p = .allow → pattern.toList.head? ≠ some '!')
    (hmarker' : p' = .allow → pattern'.toList.head? ≠ some '!')
    (h : p.marker ++ pattern = p'.marker ++ pattern') : p = p' ∧ pattern = pattern' := by
  -- A text that begins with a `!` is not one without a marker.
  have hdeny : ∀ {text rest : String}, text.toList.head? ≠ some '!' →
      Polarity.allow.marker ++ text ≠ Polarity.deny.marker ++ rest := by
    intro text rest hhead heq
    have hlist := congrArg (·.toList.head?) heq
    simp only [Polarity.marker, String.empty_append, String.toList_append] at hlist
    exact hhead hlist
  cases p with
  | allow =>
    cases p' with
    | allow => exact ⟨rfl, (String.append_right_inj _).1 h⟩
    | deny => exact absurd h (hdeny (hmarker rfl))
  | deny =>
    cases p' with
    | allow => exact absurd h.symm (hdeny (hmarker' rfl))
    | deny => exact ⟨rfl, (String.append_right_inj _).1 h⟩

/-- A number has its own literals: one literal denotes one number. So the bound that is read in a
text is the one of its rule. -/
theorem spells_unique {literal : List Char} {m n : Nat} (hm : Text.Decimal.Spells literal m)
    (hn : Text.Decimal.Spells literal n) : m = n := by
  have hsome := Text.Decimal.integer?_eq_some_natCast_iff.2 hm
  rw [Text.Decimal.integer?_eq_some_natCast_iff.2 hn] at hsome
  exact (Int.ofNat_inj.1 (Option.some.inj hsome)).symm

/-- The first `=` splits a limit in one way only, since no keyword holds one. The keyword then
determines the metric. -/
theorem keyword_append_inj {metric metric' : Metric} {literal literal' : List Char}
    (h : metric.keyword.toList ++ '=' :: literal = metric'.keyword.toList ++ '=' :: literal') :
    metric = metric' ∧ literal = literal' := by
  have hkeyword : ∀ m : Metric, '=' ∉ m.keyword.toList := by
    intro m
    cases m <;> decide
  have hsplit : ∀ (m : Metric) (rest : List Char),
      (m.keyword.toList ++ '=' :: rest).takeWhile (· != '=') = m.keyword.toList ∧
        (m.keyword.toList ++ '=' :: rest).dropWhile (· != '=') = '=' :: rest := by
    intro m rest
    exact Element.takeWhile_dropWhile_iff.2 ⟨rfl, hkeyword m, by simp⟩
  obtain ⟨htake, hdrop⟩ := hsplit metric literal
  rw [h, (hsplit metric' literal').1, String.toList_inj] at htake
  rw [h, (hsplit metric' literal').2] at hdrop
  refine ⟨?_, (List.cons.inj hdrop).2.symm⟩
  have hmetric := Metric.ofKeyword?_keyword metric
  rw [← htake, Metric.ofKeyword?_keyword] at hmetric
  exact (Option.some.inj hmetric).symm

/-- The four words are the keywords that the grammar splits a limit at, each for its own metric. -/
theorem names_iff {word : String} {metric : Metric} : Names word metric ↔ word = metric.keyword := by
  constructor
  · intro h
    cases h <;> rfl
  · rintro rfl
    cases metric with
    | depth => exact .depth
    | arrayLength => exact .arrayLength
    | references => exact .references
    | streamBytes => exact .streamBytes

/-- A limit settles a query that exceeds it. The text of a limit has one word and one number only,
so what the reading finds in the text is the metric and the bound of the rule. -/
theorem settles_limit_iff {q : Query} {st : Status} {text : String} {metric : Metric}
    {max : UInt64} (h : (Element.limit metric max).Spells text.toList) :
    Settles q text st ↔
      (Rule.limit metric max).check q = st ∧ st ≠ .undecided := by
  obtain ⟨digits, hdigits, htext⟩ := h
  obtain ⟨number, rfl⟩ : ∃ number : String, number.toList = digits :=
    ⟨String.ofList digits, String.toList_ofList⟩
  constructor
  · intro h
    cases h with
    | limit word literal metric' bound htext' hword hliteral hexceeds =>
      -- Both limits are spelled by this text, so they are one limit.
      rw [names_iff] at hword
      rw [htext', hword, String.toList_append, String.toList_append, List.append_assoc] at htext
      obtain ⟨rfl, heq⟩ := keyword_append_inj htext
      rw [show literal.toList = number.toList from heq] at hliteral
      obtain rfl := spells_unique hliteral hdigits
      exact ⟨Rule.check_limit_eq_reject_iff.2 hexceeds, by decide⟩
    | pattern p pattern hclass =>
      rw [htext] at hclass
      simp at hclass
  · intro ⟨hcheck, hst⟩
    rcases Rule.check_limit_cases metric max q with ⟨hexceeds, hreject⟩ | ⟨-, hnone⟩
    · obtain rfl : Status.reject = st := hreject.symm.trans hcheck
      refine .limit metric.keyword number metric max.toNat ?_ (names_iff.2 rfl) hdigits hexceeds
      rw [← String.toList_inj, htext, String.toList_append, String.toList_append,
        List.append_assoc]
      rfl
    · exact absurd (hcheck.symm.trans hnone) hst

/-- A class element settles a query whose class its pattern matches, with the answer of its
polarity. The form for limits drops out for want of a `=`. -/
theorem settles_pattern_iff {q : Query} {st : Status} {text : String} {p : Polarity}
    {pattern : String} (hclass : '=' ∉ text.toList) (htext : text = p.marker ++ pattern)
    (hmarker : p = .allow → pattern.toList.head? ≠ some '!') :
    Settles q text st ↔ Matches pattern q.name ∧ p.onMatch = st := by
  constructor
  · intro h
    cases h with
    | limit word literal metric bound htext' =>
      rw [htext'] at hclass
      simp at hclass
    | pattern p' pattern' _ htext' hmarker' hmatches =>
      obtain ⟨rfl, rfl⟩ := marker_append_inj hmarker' hmarker (htext'.symm.trans htext)
      exact ⟨hmatches, rfl⟩
  · rintro ⟨hmatches, rfl⟩
    exact .pattern p pattern hclass htext hmarker hmatches

/-- A class rule answers by its polarity when it matches, and only then. Without a match it is
undecided, which settles nothing. -/
theorem answer_eq_iff {p : Polarity} {isMatch : Bool} {st : Status} :
    p.answer isMatch = st ∧ st ≠ .undecided ↔ isMatch = true ∧ p.onMatch = st := by
  cases isMatch with
  | false =>
    rw [Polarity.answer_false]
    constructor
    · rintro ⟨rfl, hst⟩
      exact absurd rfl hst
    · intro ⟨h, _⟩
      cases h
  | true =>
    rw [Polarity.answer_true]
    constructor
    · exact fun h => ⟨rfl, h.1⟩
    · rintro ⟨-, rfl⟩
      exact ⟨rfl, p.onMatch_ne_undecided⟩

/-- An element means what its rule does. Whatever can be read settles a query, by its text alone,
exactly when its rule has an opinion, and with that status. -/
theorem settles_iff {q : Query} {st : Status} {text : String} {e : Element}
    (hsep : ';' ∉ text.toList) (h : Element.parse text = .ok e) :
    Settles q text st ↔ (Rule.ofElement e).check q = st ∧ st ≠ .undecided := by
  obtain ⟨hwf, hspells⟩ := (Element.parse_eq_ok_iff hsep).1 h
  cases e with
  | limit metric max => exact settles_limit_iff hspells
  | exact p name =>
    obtain ⟨⟨hname, hmarker⟩, -⟩ := hwf
    have htext : text = p.marker ++ name := by
      rw [← String.toList_inj, String.toList_append]
      exact hspells
    have heq : '=' ∉ text.toList := by
      rw [htext, String.toList_append, ← List.append_nil name.toList]
      exact ((Element.not_mem_class (List.forall_mem_nil _)).1 hname).2.2.1
    rw [settles_pattern_iff heq htext hmarker,
      matches_name_iff fun hmem => (hname _ hmem).2.2.2 rfl]
    show _ ↔ p.answer (decide (q.name ∈ NameSet.singleton name)) = st ∧ _
    rw [answer_eq_iff, decide_eq_true_iff, NameSet.mem_singleton]
  | wildcard p scope front =>
    obtain ⟨⟨hfront, hmarker⟩, hfits⟩ := hwf
    have htext : text = p.marker ++ (front ++ scope.stars) := by
      rw [← String.toList_inj, String.toList_append, String.toList_append]
      exact hspells
    have heq : '=' ∉ text.toList := by
      rw [htext, String.toList_append, String.toList_append]
      exact ((Element.not_mem_class fun c hc => Element.eq_of_mem_stars hc).1 hfront).2.2.1
    -- An empty text before the stars leaves a star at the front, which is no marker.
    have hmarker' : p = .allow → (front ++ scope.stars).toList.head? ≠ some '!' := by
      intro hp
      rw [String.toList_append]
      exact Element.head?_append_stars_ne.2 (hmarker hp)
    rw [settles_pattern_iff heq htext hmarker',
      matches_append_stars_iff (fun hmem => (hfront _ hmem).2.2.2 rfl) hfits]
    show _ ↔ p.answer (scope.covers front q.name) = st ∧ _
    rw [answer_eq_iff]

end ClassFilter.Reading
