import ClassFilter.Proofs.Blob.RoundTrip
import ClassFilter.Proofs.Chain.Listing
import ClassFilter.Proofs.Chain.Outline

/-!
# `ClassFilter.Proofs.Blob.Canonical`: one chain, one text and one blob

Chains agree if their rules do, one by one, where exact rules are compared by their members. This
file says how far the text and the blob of a chain depend on more than that. They do not, and a blob
depends on no less: it gives back the chain and the recorded hash.

* `Chain.agrees_iff`: chains that agree are equal, since a `NameSet` is determined by its members.
* `Chain.eq_of_toBlob`: a blob has one chain and one recorded hash. The payload is read back
  whatever the chain is, so it need not have a specification.
* `Chain.text_toBlob_canonical`: both results, and that the order in which names are listed or
  declared does not reach the text or the blob.
-/

set_option autoImplicit false

namespace ClassFilter

/-! ### Agreement -/

/-- Whether two rules are the same, where sets of names are compared by their members. Limits and
patterns agree only if they are equal in all their fields, polarity and scope included. -/
inductive Rule.Agrees : Rule → Rule → Prop
  | limit (metric : Metric) (max : UInt64) : Agrees (.limit metric max) (.limit metric max)
  | exact (p : Polarity) {names names' : NameSet} (h : ∀ name, name ∈ names ↔ name ∈ names') :
    Agrees (.exact p names) (.exact p names')
  | wildcard (p : Polarity) (scope : Scope) (text : String) :
    Agrees (.wildcard p scope text) (.wildcard p scope text)

/-- Whether two chains have rules that agree, in the same order. Chains with the same rules at other
places do not agree, since the first rule with an answer decides. -/
def Chain.Agrees (c d : Chain) : Prop :=
  List.Forall₂ Rule.Agrees c.rules d.rules

theorem Rule.agrees_iff {r s : Rule} : r.Agrees s ↔ r = s := by
  constructor
  · intro h
    cases h with
    | limit metric max => rfl
    | exact p hmem => exact congrArg (Rule.exact p) (NameSet.ext hmem)
    | wildcard p scope text => rfl
  · rintro rfl
    cases r with
    | limit metric max => exact .limit metric max
    | exact p names => exact .exact p fun _ => Iff.rfl
    | wildcard p scope text => exact .wildcard p scope text

namespace Chain

/-- Chains that agree are equal. The order in which the names of a set were declared is nowhere in a
chain, so there is no second chain with the same members. -/
theorem agrees_iff {c d : Chain} : c.Agrees d ↔ c = d := by
  have hrules : Rule.Agrees = Eq := funext fun _ => funext fun _ => propext Rule.agrees_iff
  rw [Agrees, hrules, List.forall₂_eq_eq_eq]
  exact ⟨fun h => congrArg Chain.mk h, fun h => congrArg Chain.rules h⟩

/-! ### What a blob determines -/

/-- A blob has one chain and one recorded hash. The payload is read back from the blob, and both are
fields of it. Here the chain need not be well-formed, because reading back does not judge. -/
theorem eq_of_toBlob {c d : Chain} {source source' : Option String} {bytes : List UInt8}
    (h : c.toBlob source = .ok bytes) (h' : d.toBlob source' = .ok bytes) :
    c = d ∧ source.map (fun text => Blake3.hash (Text.Utf8.encode text))
      = source'.map fun text => Blake3.hash (Text.Utf8.encode text) := by
  have hread := (readPayload_toBlob h).symm.trans (readPayload_toBlob h')
  have hpayload : Payload.ofChain c source = Payload.ofChain d source' := Except.ok.inj hread
  have hchain := congrArg Payload.chain hpayload
  rw [Payload.chain_ofChain, Payload.chain_ofChain] at hchain
  exact ⟨hchain, congrArg Payload.sourceDigest hpayload⟩

/-- Only the hash of the source is stored, so two sources of one hash make one blob. With
`eq_of_toBlob` it follows that the hashes are all a blob tells of its source. -/
theorem toBlob_congr (c : Chain) {source source' : Option String}
    (h : source.map (fun text => Blake3.hash (Text.Utf8.encode text))
      = source'.map fun text => Blake3.hash (Text.Utf8.encode text)) :
    c.toBlob source = c.toBlob source' := by
  have hpayload : ∀ given : Option String, Payload.ofChain c given
      = ⟨UInt64.ofNat c.size, given.map fun text => Blake3.hash (Text.Utf8.encode text),
        c.rules.map Entry.ofRule⟩ := fun _ => rfl
  rw [toBlob, toBlob, hpayload, hpayload, h]

/-- Chains that need not have a specification have one blob, if their payload is below 4 GiB,
exactly when they agree and the hashes of their sources do. Chains that agree have one text. Names
may be listed in any order for both. Two specifications that declare the same, with the two first
class names in the same order where they share their place, have one text and one blob: how class
names are ordered and repeated after the first of each polarity does not reach either. -/
theorem text_toBlob_canonical :
    (∀ c d source source', (Payload.ofChain c source).write.length < 2 ^ 32 →
      ((∃ bytes, toBlob c source = .ok bytes ∧ toBlob d source' = .ok bytes) ↔
        c.Agrees d ∧ source.map (fun text => Blake3.hash (Text.Utf8.encode text))
          = source'.map fun text => Blake3.hash (Text.Utf8.encode text))) ∧
    (∀ c d, Agrees c d → c.text = d.text) ∧
    (∀ c es, ListedBy c es →
      Listing.text es = c.text ∧ ∀ source, Listing.toBlob es source = c.toBlob source) ∧
    ∀ spec spec' es es' c d, compile spec = .ok c → compile spec' = .ok d →
      (Text.Separated.elements spec).map Element.parse = es.map .ok →
      (Text.Separated.elements spec').map Element.parse = es'.map .ok →
      Element.SameDeclarations es es' →
        c.text = d.text ∧ ∀ source, c.toBlob source = d.toBlob source := by
  refine ⟨fun c d source source' hlength => ⟨?_, ?_⟩, fun c d h => ?_, fun c es h => ?_, ?_⟩
  · intro ⟨bytes, h, h'⟩
    exact ⟨agrees_iff.2 (eq_of_toBlob h h').1, (eq_of_toBlob h h').2⟩
  · intro ⟨hagrees, hdigest⟩
    rw [← agrees_iff.1 hagrees, ← toBlob_congr c hdigest]
    have hblob := toBlob_eq_ok_iff.2 ⟨hlength, rfl⟩
    exact ⟨_, hblob, hblob⟩
  · rw [agrees_iff.1 h]
  · exact ⟨h.text_eq, h.toBlob_eq⟩
  · intro spec spec' es es' c d h h' hread hread' hsame
    rw [eq_of_sameDeclarations h h' hread hread' hsame]
    exact ⟨rfl, fun _ => rfl⟩

/-- A chain that two denied classes, a limit and an allowed class make, in whatever order the denied
ones are declared. -/
def ofTwoDeniedNames : Chain :=
  ⟨[.exact .deny (.ofList ["c.D", "d.E"]), .limit .depth 3, .exact .allow (.ofList ["a.B"])]⟩

/-- Two denied classes in either order, one of them repeated, around a limit and an allowed class.
The two specifications have one text and one blob. A recorded hash makes another blob, and so does
the hash of another source. -/
theorem text_toBlob_canonical_reordered :
    ∃ c d, compile "!d.E;maxdepth=3;a.B;!c.D" = .ok c ∧
      compile "!c.D;maxdepth=3;!d.E;a.B;!c.D" = .ok d ∧ c.text = d.text ∧
      (∀ source, c.toBlob source = d.toBlob source) ∧
      Listing.text [.exact .deny ["d.E", "c.D"], .limit .depth 3, .exact .allow ["a.B"]]
        = "!c.D;!d.E;maxdepth=3;a.B" ∧
      (Payload.ofChain c none).write.length < 2 ^ 32 ∧
      (∃ bytes, c.toBlob none = .ok bytes ∧ d.toBlob none = .ok bytes) ∧
      (¬ ∃ bytes, c.toBlob none = .ok bytes ∧ d.toBlob (some "a.B") = .ok bytes) ∧
      (Payload.ofChain c (some "c.D")).write.length < 2 ^ 32 ∧
      ¬ ∃ bytes, c.toBlob (some "c.D") = .ok bytes ∧ d.toBlob (some "a.B") = .ok bytes := by
  obtain ⟨hblob, htext, hlisting, hspec⟩ := text_toBlob_canonical
  have h : compile "!d.E;maxdepth=3;a.B;!c.D" = .ok ofTwoDeniedNames := by
    decide
  have h' : compile "!c.D;maxdepth=3;!d.E;a.B;!c.D" = .ok ofTwoDeniedNames := by
    decide
  have hsame : Element.SameDeclarations
      [.exact .deny "d.E", .limit .depth 3, .exact .allow "a.B", .exact .deny "c.D"]
      [.exact .deny "c.D", .limit .depth 3, .exact .deny "d.E", .exact .allow "a.B",
        .exact .deny "c.D"] := by
    refine ⟨by decide, fun p => by cases p <;> decide, fun _ => by decide, fun p name => ?_⟩
    simp only [List.mem_cons, Element.exact.injEq, reduceCtorEq, List.not_mem_nil]
    grind
  have hlists : ListedBy ofTwoDeniedNames
      [.exact .deny ["d.E", "c.D"], .limit .depth 3, .exact .allow ["a.B"]] := by
    refine .cons (.exact .deny ⟨by decide, fun name => ?_⟩)
      (.cons (.limit .depth 3) (.cons (.exact .allow ⟨by decide, fun name => ?_⟩) .nil))
    · rw [NameSet.mem_ofList, List.mem_pair, List.mem_pair, or_comm]
    · rw [NameSet.mem_ofList]
  have hlength : (Payload.ofChain ofTwoDeniedNames none).write.length < 2 ^ 32 := by
    decide
  have hrecorded : (Payload.ofChain ofTwoDeniedNames (some "c.D")).write.length < 2 ^ 32 := by
    decide +kernel
  have hagrees : Agrees ofTwoDeniedNames ofTwoDeniedNames := agrees_iff.2 rfl
  refine ⟨_, _, h, h', htext _ _ hagrees,
    (hspec _ _ _ _ _ _ h h' (by decide) (by decide) hsame).2, (hlisting _ _ hlists).1.trans ?_,
    hlength, (hblob _ _ none none hlength).2 ⟨hagrees, rfl⟩, fun hone => ?_, hrecorded,
    fun hone => ?_⟩
  · decide
  · have hdigest := ((hblob _ _ none (some "a.B") hlength).1 hone).2
    cases hdigest
  · have hdigest := ((hblob _ _ (some "c.D") (some "a.B") hrecorded).1 hone).2
    exact absurd hdigest (by decide +kernel)

/-- Here the two first class names share their place, and the order of the two is the only thing in
which the specifications differ: both have no other elements, and the same class names. The chains
have their rules in different order, so the texts and the blobs differ. -/
theorem text_toBlob_differ_in_order :
    ∃ c d, compile "a.B;!c.D" = .ok c ∧ compile "!c.D;a.B" = .ok d ∧
      (Text.Separated.elements "a.B;!c.D").map Element.parse
        = [.exact .allow "a.B", .exact .deny "c.D"].map .ok ∧
      (Text.Separated.elements "!c.D;a.B").map Element.parse
        = [.exact .deny "c.D", .exact .allow "a.B"].map .ok ∧
      Element.others [.exact .allow "a.B", .exact .deny "c.D"]
        = Element.others [.exact .deny "c.D", .exact .allow "a.B"] ∧
      (∀ p, Element.place? p [.exact .allow "a.B", .exact .deny "c.D"]
        = Element.place? p [.exact .deny "c.D", .exact .allow "a.B"]) ∧
      (∀ p name, Element.exact p name ∈ [Element.exact .allow "a.B", .exact .deny "c.D"] ↔
        Element.exact p name ∈ [Element.exact .deny "c.D", .exact .allow "a.B"]) ∧
      c.text ≠ d.text ∧ ¬ ∃ bytes, c.toBlob none = .ok bytes ∧ d.toBlob none = .ok bytes := by
  refine ⟨⟨[.exact .allow (.singleton "a.B"), .exact .deny (.singleton "c.D")]⟩,
    ⟨[.exact .deny (.singleton "c.D"), .exact .allow (.singleton "a.B")]⟩, by decide, by decide,
    by decide, by decide, by decide, fun p => by cases p <;> decide, fun p name => ?_, by decide,
    fun ⟨bytes, h, h'⟩ => ?_⟩
  · rw [List.mem_pair, List.mem_pair, or_comm]
  · exact absurd (eq_of_toBlob h h').1 (by decide)

end Chain

end ClassFilter
