import ClassFilter.Proofs.Blob.RoundTrip
import ClassFilter.Proofs.Payload.Shortest

/-!
# `ClassFilter.Proofs.Blob.Reload`: storing a loaded chain again

A blob that is loaded need not be one that was written here. Its numbers may be wide, its
class names unsorted or repeated, and bytes may follow. The chain that was loaded is
stored without all of this, and judged again when it is loaded for the second time:

* `Entry.sound_ofRule_rule`: the judgement of an entry does not depend on the order of its
  names, nor on repeats.
* `Payload.sound_ofChain_iff`: neither does that of a payload, with one exception. The last
  entry is searched for the empty name alone, and a list that repeats it passes.
* `Chain.ofBlob_toBlob_iff`: a chain is loaded from its own blob if its payload is sound.
* `Chain.reload_iff`: so a loaded chain is loaded again, unless it ends in the set of the
  empty name and has no exact deny rule. There is room for its payload, unless a hash is
  recorded for a blob of nearly 4 GiB.
* `Chain.ofBlob_repeated_name`: a blob that is loaded once and not twice.
-/

set_option autoImplicit false

namespace ClassFilter

/-! ### The second judgement -/

/-- An entry that was sound stays sound when its names are sorted and repeats dropped. What is asked
of an exact entry is asked of each of its names, and they are the same ones. -/
theorem Entry.sound_ofRule_rule {e : Entry} (h : e.Sound) : (Entry.ofRule e.rule).Sound := by
  cases e with
  | limit metric max => exact h
  | wildcard p scope text => exact h
  | exact p names =>
    obtain ⟨hne, hreserved⟩ := h
    obtain ⟨first, hfirst⟩ := List.exists_mem_of_ne_nil names hne
    refine ⟨List.ne_nil_of_mem (NameSet.mem_toList.2 (NameSet.mem_ofList.2 hfirst)), ?_⟩
    intro name hname
    exact hreserved name (NameSet.mem_ofList.1 (NameSet.mem_toList.1 hname))

namespace Payload

/-- The chain of a sound payload is sound when it is stored again, unless it ends in the set of the
empty name and has no exact deny rule. The exception is there because a list that repeats the empty
name is sound at the end, and its set is stored as the list of this name alone. -/
theorem sound_ofChain_iff {p : Payload} (h : p.Sound) (source : Option String) :
    (ofChain p.chain source).Sound ↔
      (p.chain.endsInEmptyName = true → .deny ∈ Rule.exactPolarities p.chain.rules) := by
  have hentries : (ofChain p.chain source).entries = p.entries.map fun e => Entry.ofRule e.rule :=
    List.map_map
  have hpolarities : Entry.exactPolarities (ofChain p.chain source).entries
      = Rule.exactPolarities p.chain.rules := by
    rw [← Entry.exactPolarities_map_rule]
    exact congrArg (Rule.exactPolarities ·.rules) (chain_ofChain p.chain source)
  constructor
  · intro hagain hend
    rw [← hpolarities]
    exact hagain.anchored ((endsInEmptyName_ofChain p.chain source).trans hend)
  · intro hanchored
    refine ⟨?_, ?_, ?_, ?_, ?_⟩
    · -- The count was right, so the entries can be counted in a word.
      have hsize : p.chain.size = p.entries.length := List.length_map _
      show (UInt64.ofNat p.chain.size).toNat = (ofChain p.chain source).entries.length
      rw [hsize, ← h.counted, UInt64.ofNat_toNat, h.counted, hentries, List.length_map]
    · rw [hentries]
      exact fun hnil => h.nonempty (List.map_eq_nil_iff.1 hnil)
    · intro e he
      rw [hentries] at he
      obtain ⟨stored, hstored, rfl⟩ := List.mem_map.1 he
      exact Entry.sound_ofRule_rule (h.entries stored hstored)
    · rw [hpolarities]
      show (Rule.exactPolarities (p.entries.map Entry.rule)).Nodup
      rw [Entry.exactPolarities_map_rule]
      exact h.nodup
    · rw [hpolarities, endsInEmptyName_ofChain]
      exact hanchored

end Payload

/-! ### The second load -/

/-- A blob of two entries, with wide numbers and bytes that follow. Of two denied names the second
is stored first and last, and the other entry allows the empty name. -/
def Blob.withUnsortedNames : List UInt8 :=
  [0x55, 0x4D, 0x46, 0x4C, 0x01, 0x00, 0x01, 0x00, 0x00, 0x00, 0x00, 0x00, 0x18, 0x00, 0x00, 0x00,
    0xB8, 0xB8, 0x51, 0x7A, 0xC3, 0xB8, 0x0B, 0xFB, 0x0C, 0x6C, 0xE1, 0xF7, 0xB2, 0x26, 0xD8, 0x9E,
    0xFB, 0x02, 0x00, 0x00, 0x02, 0xFC, 0x01, 0x00, 0x00, 0x00, 0x01, 0x03, 0x01, 0x62, 0x01, 0x61,
    0x01, 0x62, 0x01, 0x00, 0x02, 0x00, 0x00, 0xFF, 0x07]

/-- A blob whose only entry allows the empty name and holds it twice. -/
def Blob.withRepeatedEmptyName : List UInt8 :=
  [0x55, 0x4D, 0x46, 0x4C, 0x01, 0x00, 0x01, 0x00, 0x00, 0x00, 0x00, 0x00, 0x08, 0x00, 0x00, 0x00,
    0x6F, 0x40, 0xAA, 0x5E, 0x93, 0xDF, 0x0C, 0xC8, 0xBE, 0xD0, 0x75, 0xD7, 0x88, 0x70, 0xF4, 0x1F,
    0x01, 0x00, 0x01, 0x01, 0x00, 0x02, 0x00, 0x00]

/-- A blob whose only entry allows the empty name and holds it once. -/
def Blob.withEmptyName : List UInt8 :=
  [0x55, 0x4D, 0x46, 0x4C, 0x01, 0x00, 0x01, 0x00, 0x00, 0x00, 0x00, 0x00, 0x07, 0x00, 0x00, 0x00,
    0xC8, 0x22, 0x83, 0x86, 0x91, 0x45, 0xE7, 0xE0, 0x7A, 0x35, 0x9B, 0x54, 0x05, 0x24, 0x5B, 0xF0,
    0x01, 0x00, 0x01, 0x01, 0x00, 0x01, 0x00]

namespace Chain

/-- A chain is loaded from its own blob exactly when its payload is sound. Header and decoder give
the payload back in any case, so only the judgement is left. -/
theorem ofBlob_toBlob_iff {c : Chain} {source : Option String} {bytes : List UInt8}
    (h : c.toBlob source = .ok bytes) : ofBlob bytes = .ok c ↔ (Payload.ofChain c source).Sound := by
  have hread := readPayload_of_toBlob h []
  rw [List.append_nil] at hread
  rw [ofBlob_eq_ok_iff]
  constructor
  · intro ⟨p, hp, hsound, _⟩
    rw [hread] at hp
    cases hp
    exact hsound
  · intro hsound
    exact ⟨_, hread, hsound, Payload.chain_ofChain c source⟩

/-- There is room for a loaded chain, unless the hash of a specification is recorded and the blob
was nearly as long as one can be. The payload that is written is no longer than the one that was
read, but for the recorded hash. -/
theorem length_write_lt_of_ofBlob {bytes : List UInt8} {c : Chain} (h : ofBlob bytes = .ok c)
    {source : Option String} (hroom : source = none ∨ bytes.length < 2 ^ 32) :
    (Payload.ofChain c source).write.length < 2 ^ 32 := by
  obtain ⟨p, hp, hsound, rfl⟩ := ofBlob_eq_ok_iff.1 h
  obtain ⟨payload, hunwrap, hdecode⟩ := Blob.readPayload_eq_ok_iff.1 hp
  obtain ⟨hheader, hshort⟩ := Blob.length_of_unwrap hunwrap
  have hwrite := Payload.length_write_le_of_decode hdecode
  -- A hash takes 32 bytes, and so did the header of the blob.
  cases source with
  | none =>
    have hagain : (Payload.ofChain p.chain none).write.length ≤ p.write.length + 0 :=
      Payload.length_write_ofChain_le hsound none
    omega
  | some text =>
    have hagain : (Payload.ofChain p.chain (some text)).write.length ≤ p.write.length + 32 :=
      Payload.length_write_ofChain_le hsound (some text)
    have hblob : bytes.length < 2 ^ 32 := hroom.resolve_left (by simp)
    have hlong : 32 + payload.length ≤ bytes.length := hheader
    omega

/-- A loaded chain can be stored and loaded again exactly when it does not end in the set of the
empty name, or has an exact deny rule, and there is room for its payload. There is, unless the hash
of a specification is recorded for a blob of 4 GiB or more. -/
theorem reload_iff {bytes : List UInt8} {c : Chain} (h : ofBlob bytes = .ok c)
    (source : Option String) :
    ((∃ again, c.toBlob source = .ok again ∧ ofBlob again = .ok c) ↔
      (c.rules.getLast? = some (.exact .allow (.singleton "")) →
        ∃ names, .exact .deny names ∈ c.rules) ∧
      (Payload.ofChain c source).write.length < 2 ^ 32) ∧
    (source = none ∨ bytes.length < 2 ^ 32 → (Payload.ofChain c source).write.length < 2 ^ 32) := by
  refine ⟨?_, length_write_lt_of_ofBlob h⟩
  have hanchored : (Payload.ofChain c source).Sound ↔
      (c.rules.getLast? = some (.exact .allow (.singleton "")) →
        ∃ names, .exact .deny names ∈ c.rules) := by
    obtain ⟨p, -, hsound, rfl⟩ := ofBlob_eq_ok_iff.1 h
    rw [Payload.sound_ofChain_iff hsound, endsInEmptyName_iff, Rule.mem_exactPolarities]
  constructor
  · intro ⟨again, hstore, hload⟩
    exact ⟨hanchored.1 ((ofBlob_toBlob_iff hstore).1 hload), (toBlob_eq_ok_iff.1 hstore).1⟩
  · intro ⟨hrule, hlength⟩
    have hstore := toBlob_eq_ok_iff.2 ⟨hlength, rfl⟩
    exact ⟨_, hstore, (ofBlob_toBlob_iff hstore).2 (hanchored.2 hrule)⟩

/-- The denied names of this blob are loaded in order and once each, and so they are stored again.
The second blob is shorter, records a specification, and is loaded as well. -/
theorem reload_unsorted_names :
    ofBlob Blob.withUnsortedNames
        = .ok ⟨[.exact .deny (.ofList ["a", "b"]), .exact .allow (.singleton "")]⟩ ∧
      ∃ again, Chain.toBlob ⟨[.exact .deny (.ofList ["a", "b"]), .exact .allow (.singleton "")]⟩
          (some "!b;!a;;!b") = .ok again ∧
        ofBlob again = .ok ⟨[.exact .deny (.ofList ["a", "b"]), .exact .allow (.singleton "")]⟩ := by
  have h : ofBlob Blob.withUnsortedNames
      = .ok ⟨[.exact .deny (.ofList ["a", "b"]), .exact .allow (.singleton "")]⟩ := by
    decide +kernel
  have hreload := reload_iff h (some "!b;!a;;!b")
  have hdenied : ∃ names, Rule.exact .deny names ∈
      [Rule.exact .deny (.ofList ["a", "b"]), .exact .allow (.singleton "")] :=
    ⟨_, List.mem_cons_self⟩
  exact ⟨h, hreload.1.2 ⟨fun _ => hdenied, hreload.2 (.inr (by decide))⟩⟩

/-- The empty name is stored twice in the only entry of this blob, so the entry passes: what is
refused at the end is a list of the empty name alone. The set is stored as such a list again, and
then no chain is loaded. -/
theorem ofBlob_repeated_name :
    ofBlob Blob.withRepeatedEmptyName = .ok ⟨[.exact .allow (.singleton "")]⟩ ∧
      ∃ again, Chain.toBlob ⟨[.exact .allow (.singleton "")]⟩ none = .ok again ∧
        ofBlob again = .error (.invalid (.finalEmptyName 0)) := by
  refine ⟨by decide +kernel, Blob.withEmptyName, ?_, ?_⟩
  · decide +kernel
  · decide +kernel

end Chain

end ClassFilter
