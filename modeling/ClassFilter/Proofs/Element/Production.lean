import ClassFilter.Proofs.Element.Reading
import ClassFilter.Proofs.Text.Literal

/-!
# `ClassFilter.Proofs.Element.Production`: the grammar of elements, as data

`Element.read` finds the parts of an element by a sequence of tests and splits. Here a way to
read a text is data: the parts it is made of, with the conditions they meet. Then "a text has
one reading" can be said, which a proposition about the text could not.

* `Element.Production`: the ways to read a text, each with its `text` and `element`.
* `Production.parse_text`: a production is read as its element.
* `exists_production_of_parse`: whatever is read has a production.
* `Production.text_injective`: no text has two. The reader makes this short, since it gives
  one answer for each text: two productions of a text have one element, and an element
  leaves only the literal of a limit open.

A separator needs no place here, as it never reaches the reader.
-/

set_option autoImplicit false

namespace ClassFilter

/-! ### The grammar -/

/-- Whether a text can follow the marker of a polarity, up to the stars. It holds none of the
characters that the reader looks for, and without a marker no `!` stands in front (`bang`), which
would be taken for one. -/
structure Polarity.Precedes (p : Polarity) (text : String) : Prop where
  star : '*' ∉ text.toList
  slash : '/' ∉ text.toList
  equals : '=' ∉ text.toList
  bang : p = .allow → text.toList.head? ≠ some '!'

theorem Scope.stars_ne_empty (scope : Scope) : scope.stars ≠ "" := by
  cases scope <;> decide

namespace Element

/-- A way to read a text as an element:
- `limit`: `keyword=literal`, with a value that a signed 64-bit word can hold;
- `exact`: a class name, which is not empty, after its marker;
- `wildcard`: a text that goes with the scope, between its marker and the stars of the scope. -/
inductive Production where
  | limit (metric : Metric) (literal : String) (max : UInt64)
      (hliteral : Text.Decimal.Natural literal.toList max.toNat) (hmax : max.toNat ≤ 2 ^ 63 - 1)
  | exact (p : Polarity) (name : String) (hname : p.Precedes name) (hne : name ≠ "")
  | wildcard (p : Polarity) (scope : Scope) (front : String) (hfront : p.Precedes front)
      (hfits : scope.Fits front)

namespace Production

/-- The text that is read. It keeps the literal of a limit as it was written, so two productions of
one limit can have different texts. -/
def text : Production → String
  | limit metric literal _ _ _ => metric.keyword ++ "=" ++ literal
  | exact p name _ _ => p.marker ++ name
  | wildcard p scope front _ _ => p.marker ++ front ++ scope.stars

/-- What the text is read as. Here the literal is left out and its value kept. -/
def element : Production → Element
  | limit metric _ max _ _ => .limit metric max
  | exact p name _ _ => .exact p name
  | wildcard p scope front _ _ => .wildcard p scope front

/-! ### Productions are read -/

/-- A text that can follow a marker is read as a pattern, together with its stars. No `/` or `=`
stands in it, so none of the tests before that takes it away. -/
theorem read_marker_append {p : Polarity} {front : String} {stars : List Char}
    (hfront : p.Precedes front) (hstars : ∀ c ∈ stars, c = '*') (hne : front.toList ++ stars ≠ []) :
    read (p.marker.toList ++ (front.toList ++ stars)) = readPattern p (front.toList ++ stars) := by
  -- A character that is no marker and no star could only stand in between.
  have hout : ∀ c, c ≠ '!' → c ≠ '*' → c ∉ front.toList →
      c ∉ p.marker.toList ++ (front.toList ++ stars) := by
    intro c hbang hstar hc hmem
    rcases List.mem_append.1 hmem with hmarker | hmem
    · exact hbang (eq_of_mem_marker hmarker)
    rcases List.mem_append.1 hmem with hmem | hmem
    · exact hc hmem
    · exact hstar (hstars c hmem)
  have hbang : p = .allow → (front.toList ++ stars).head? ≠ some '!' := by
    intro hp
    refine head?_append_ne (hfront.bang hp) fun hhead => ?_
    exact absurd (hstars '!' (List.mem_of_mem_head? hhead)) (by decide)
  rw [read_class (hout '/' (by decide) (by decide) hfront.slash)
    (hout '=' (by decide) (by decide) hfront.equals), readClass_marker_append hbang fun _ => hne]

/-- A production is read as its element. Each form takes one path through the reader, and the
conditions it carries are the tests on that path. -/
theorem parse_text (r : Production) : parse r.text = .ok r.element := by
  rw [parse_eq_ok_iff_read]
  cases r with
  | limit metric literal max hliteral hmax =>
    have hspells := Text.Decimal.natural_iff_spells.1 hliteral
    obtain ⟨-, hslash, hequals⟩ := not_mem_limit metric hspells
    have htext : (metric.keyword ++ "=" ++ literal).toList =
        metric.keyword.toList ++ '=' :: literal.toList := by simp
    show read (metric.keyword ++ "=" ++ literal).toList = _
    rw [htext, read_limit hslash hequals]
    exact readLimit_eq_ok_iff.2 ⟨metric, max, rfl, by omega, hspells, rfl⟩
  | exact p name hname hne =>
    have htext : (p.marker ++ name).toList = p.marker.toList ++ (name.toList ++ []) := by simp
    have hnil : name.toList ++ [] ≠ [] := by simpa using hne
    show read (p.marker ++ name).toList = _
    rw [htext, read_marker_append hname (List.forall_mem_nil _) hnil, List.append_nil]
    exact readPattern_name hname.star
  | wildcard p scope front hfront hfits =>
    have htext : (p.marker ++ front ++ scope.stars).toList =
        p.marker.toList ++ (front.toList ++ scope.stars.toList) := by simp
    have hnil : front.toList ++ scope.stars.toList ≠ [] := by simp [scope.stars_ne_empty]
    show read (p.marker ++ front ++ scope.stars).toList = _
    rw [htext, read_marker_append hfront (fun c hc => eq_of_mem_stars hc) hnil]
    exact readPattern_append_stars hfront.star hfits

/-- No text has two productions. Two of them are read as one element by `parse_text`, and the
literal, which the element does not keep, is found behind the `=` in the text. -/
theorem text_injective : Function.Injective text := by
  intro r r' h
  have helement : r.element = r'.element := by
    have hread := r.parse_text
    rw [h, r'.parse_text] at hread
    exact (Except.ok.inj hread).symm
  cases r with
  | limit metric literal max hliteral hmax =>
    cases r' with
    | limit metric' literal' max' hliteral' hmax' =>
      -- The element gives the metric and the bound, and the text then gives the literal.
      obtain ⟨rfl, rfl⟩ := Element.limit.inj helement
      obtain rfl := (String.append_right_inj _).1 h
      rfl
    | exact p name hname hne => cases helement
    | wildcard p scope front hfront hfits => cases helement
  | exact p name hname hne =>
    cases r' with
    | limit metric literal max hliteral hmax => cases helement
    | exact p' name' hname' hne' =>
      obtain ⟨rfl, rfl⟩ := Element.exact.inj helement
      rfl
    | wildcard p' scope front hfront hfits => cases helement
  | wildcard p scope front hfront hfits =>
    cases r' with
    | limit metric literal max hliteral hmax => cases helement
    | exact p' name hname hne => cases helement
    | wildcard p' scope' front' hfront' hfits' =>
      obtain ⟨rfl, rfl, rfl⟩ := Element.wildcard.inj helement
      rfl

end Production

/-! ### Whatever is read has a production -/

/-- What a pattern holds before its stars can follow the marker of the pattern. The conditions on
the whole text are passed on to this part of it. -/
theorem precedes_of_append {p : Polarity} {front : String} {stars cs : List Char}
    (htext : cs = p.marker.toList ++ (front.toList ++ stars)) (hslash : '/' ∉ cs) (hequals : '=' ∉ cs)
    (hstar : '*' ∉ front.toList) (hbang : p = .allow → front.toList.head? ≠ some '!') :
    p.Precedes front := by
  have hmem : ∀ c ∈ front.toList, c ∈ cs := by
    intro c hc
    rw [htext]
    exact List.mem_append_right _ (List.mem_append_left _ hc)
  exact ⟨hstar, fun h => hslash (hmem _ h), fun h => hequals (hmem _ h), hbang⟩

/-- Whatever is read has a production, if it is not the empty text. That one is the empty name,
which is an element only among others. -/
theorem exists_production_of_parse {text : String} {e : Element} (hne : text ≠ "")
    (h : parse text = .ok e) : ∃ r : Production, r.text = text ∧ r.element = e := by
  rw [parse_eq_ok_iff_read, read_eq_ok_iff_split] at h
  obtain ⟨hslash, ⟨hequals, hclass⟩ | ⟨keyword, value, htext, -, hlimit⟩⟩ := h
  · obtain ⟨p, pattern, htext, hbang, hnil, hpattern⟩ := readClass_eq_ok_iff.1 hclass
    rcases readPattern_eq_ok_iff.1 hpattern with
      ⟨name, rfl, rfl, hstar⟩ | ⟨scope, front, rfl, rfl, hstar, hfits⟩
    · have hname : p.Precedes name :=
        precedes_of_append (by rw [htext, List.append_nil]) hslash hequals hstar hbang
      -- Without a name the text is empty or a bare marker, and the reader refuses the latter.
      have hsome : name ≠ "" := by
        rintro rfl
        cases p with
        | allow => exact hne (String.toList_eq_nil_iff.1 htext)
        | deny => exact hnil rfl rfl
      refine ⟨.exact p name hname hsome, ?_, rfl⟩
      show p.marker ++ name = text
      rw [← String.toList_inj, htext, String.toList_append]
    · have hfront : p.Precedes front :=
        precedes_of_append htext hslash hequals hstar fun hp => head?_append_stars_ne.1 (hbang hp)
      refine ⟨.wildcard p scope front hfront hfits, ?_, rfl⟩
      show p.marker ++ front ++ scope.stars = text
      rw [← String.toList_inj, htext, String.toList_append, String.toList_append, List.append_assoc]
  · obtain ⟨metric, max, rfl, hmax, hspells, rfl⟩ := readLimit_eq_ok_iff.1 hlimit
    obtain ⟨literal, rfl⟩ : ∃ literal : String, literal.toList = value :=
      ⟨String.ofList value, String.toList_ofList⟩
    refine ⟨.limit metric literal max (Text.Decimal.natural_iff_spells.2 hspells) (by omega), ?_, rfl⟩
    show metric.keyword ++ "=" ++ literal = text
    rw [← String.toList_inj, htext]
    simp

end Element

end ClassFilter
