import ClassFilter.Proofs.Blob.Header
import ClassFilter.Proofs.Payload.Blame
import Mathlib.Data.List.Forall2

/-!
# `ClassFilter.Proofs.Blob.Verdict`: what decides whether a decoded blob is loaded

Once the payload of a blob is decoded, nothing but the payload decides what comes of it.

* `Entry.Stores`, `Payload.stores_chain`: which rule each entry becomes. The chain of a payload has
  them one by one, in the order of the entries.
* `Chain.ofBlob_iff_admissible`: there is a chain if and only if the payload is admissible, which is
  said without an order. Otherwise the first fault is reported. The order is that of `Fault.rank`.
-/

set_option autoImplicit false

namespace ClassFilter

/-! ### The rules that entries become -/

/-- Which rule an entry is stored for. A limit keeps its metric and its bound, and a pattern keeps
its polarity and its text. Only an exact entry is not taken as it stands: its list of class names
may be in any order and repeat a name, and the rule has the set of these names. -/
inductive Entry.Stores : Entry → Rule → Prop
  | limit (metric : Metric) (max : UInt64) : Stores (.limit metric max) (.limit metric max)
  | exact (p : Polarity) {names : List String} {set : NameSet}
    (h : ∀ name, name ∈ set ↔ name ∈ names) : Stores (.exact p names) (.exact p set)
  | package (p : Polarity) (text : String) :
    Stores (.wildcard p .package text) (.wildcard p .package text)
  | hierarchy (p : Polarity) (text : String) :
    Stores (.wildcard p .hierarchy text) (.wildcard p .hierarchy text)
  | stem (p : Polarity) (text : String) : Stores (.wildcard p .stem text) (.wildcard p .stem text)

/-- `Entry.rule` makes the rule that the entry is stored for, for each of the five kinds. -/
theorem Entry.stores_rule (e : Entry) : e.Stores e.rule := by
  cases e with
  | limit metric max => exact .limit metric max
  | exact p names => exact .exact p fun _ => NameSet.mem_ofList
  | wildcard p scope text =>
    cases scope with
    | package => exact .package p text
    | hierarchy => exact .hierarchy p text
    | stem => exact .stem p text

/-- So the chain of a payload has, at each index, the rule that the entry there is stored for. No
entry is left out and none is moved. -/
theorem Payload.stores_chain (p : Payload) : List.Forall₂ Entry.Stores p.entries p.chain.rules := by
  show List.Forall₂ Entry.Stores p.entries (p.entries.map Entry.rule)
  rw [List.forall₂_map_right_iff, List.forall₂_same]
  exact fun e _ => e.stores_rule

/-! ### Loading -/

/-- A blob with one entry of each kind. The two denied class names are out of order, and one of them
is stored twice. -/
def Blob.oneOfEachKind : List UInt8 :=
  [0x55, 0x4D, 0x46, 0x4C, 0x01, 0x00, 0x01, 0x00, 0x00, 0x00, 0x00, 0x00, 0x23, 0x00, 0x00, 0x00,
    0x02, 0x69, 0xBE, 0xD8, 0x5B, 0xFD, 0x83, 0xB0, 0xB3, 0xF0, 0x3E, 0xEA, 0x2C, 0x5C, 0x5C, 0x4F,
    0x05, 0x00, 0x05, 0x00, 0x01, 0x05, 0x01, 0x01, 0x03, 0x03, 0x64, 0x2E, 0x45, 0x03, 0x63, 0x2E,
    0x44, 0x03, 0x64, 0x2E, 0x45, 0x02, 0x00, 0x02, 0x61, 0x2E, 0x03, 0x01, 0x02, 0x62, 0x2E, 0x04,
    0x00, 0x01, 0x63]

/-- A blob whose second entry is a second exact one and holds a star, and whose third names no
package. -/
def Blob.withThreeFaults : List UInt8 :=
  [0x55, 0x4D, 0x46, 0x4C, 0x01, 0x00, 0x01, 0x00, 0x00, 0x00, 0x00, 0x00, 0x13, 0x00, 0x00, 0x00,
    0x85, 0xB5, 0xAE, 0x82, 0x92, 0x71, 0xDF, 0xB0, 0xB9, 0xC1, 0x0F, 0x89, 0x87, 0xA9, 0x1D, 0x94,
    0x03, 0x00, 0x03, 0x01, 0x00, 0x01, 0x03, 0x61, 0x2E, 0x42, 0x01, 0x00, 0x01, 0x01, 0x2A, 0x02,
    0x01, 0x01, 0x62]

namespace Chain

/-- A decoded payload is loaded if and only if it is admissible. Then the chain has, at each index,
the rule that the entry there is stored for. Otherwise the payload is invalid, and the error names
the first fault: the count, then the absence of entries, then the least index whose entry is at
fault, and the last entry at the end. -/
theorem ofBlob_iff_admissible {bytes : List UInt8} {p : Payload}
    (h : Blob.readPayload bytes = .ok p) :
    ((∃ c, ofBlob bytes = .ok c) ↔ p.Admissible) ∧
      (∀ c, ofBlob bytes = .ok c → List.Forall₂ Entry.Stores p.entries c.rules) ∧
      (∀ e, ofBlob bytes = .error e ↔ ∃ f : Fault, e = .invalid f ∧ f.IsFirst p) := by
  have hok : ∀ c, ofBlob bytes = .ok c ↔ p.validate = .ok () ∧ p.chain = c := fun c => by
    rw [Blob.ofBlob_of_readPayload h, Result.mapError_eq_ok_iff, Payload.toChain_eq_ok_iff,
      Payload.validate_eq_ok_iff]
  refine ⟨?_, fun c hc => ?_, fun e => ?_⟩
  · rw [← Payload.validate_eq_ok_iff_admissible]
    exact ⟨fun ⟨c, hc⟩ => ((hok c).1 hc).1, fun hp => ⟨_, (hok _).2 ⟨hp, rfl⟩⟩⟩
  · rw [← ((hok c).1 hc).2]
    exact p.stores_chain
  · rw [Blob.ofBlob_of_readPayload h, Result.mapError_eq_error_iff]
    refine exists_congr fun f => ?_
    rw [Payload.toChain_eq_error_iff, Payload.validate_eq_error_iff, and_comm, eq_comm]

/-- One blob is loaded, and each of its five entries is found as a rule at its index. Of the other
the first of three faults is reported. -/
theorem ofBlob_second_exact_set :
    (∃ c, Blob.readPayload Blob.oneOfEachKind = .ok ⟨5, none, [.limit .arrayLength 5,
          .exact .deny ["d.E", "c.D", "d.E"], .wildcard .allow .package "a.",
          .wildcard .deny .hierarchy "b.", .wildcard .allow .stem "c"]⟩ ∧
        ofBlob Blob.oneOfEachKind = .ok c ∧
        ∃ set, c.rules = [.limit .arrayLength 5, .exact .deny set, .wildcard .allow .package "a.",
            .wildcard .deny .hierarchy "b.", .wildcard .allow .stem "c"] ∧
          ∀ name, name ∈ set ↔ name = "c.D" ∨ name = "d.E") ∧
      Blob.readPayload Blob.withThreeFaults = .ok ⟨3, none,
          [.exact .allow ["a.B"], .exact .allow ["*"], .wildcard .deny .package "b"]⟩ ∧
      ofBlob Blob.withThreeFaults = .error (.invalid (.secondExactSet 1)) := by
  have hkinds : Blob.readPayload Blob.oneOfEachKind = .ok ⟨5, none, [.limit .arrayLength 5,
      .exact .deny ["d.E", "c.D", "d.E"], .wildcard .allow .package "a.",
      .wildcard .deny .hierarchy "b.", .wildcard .allow .stem "c"]⟩ := by
    decide +kernel
  have hfaults : Blob.readPayload Blob.withThreeFaults = .ok ⟨3, none,
      [.exact .allow ["a.B"], .exact .allow ["*"], .wildcard .deny .package "b"]⟩ := by
    decide +kernel
  obtain ⟨hloads, hrules, -⟩ := ofBlob_iff_admissible hkinds
  obtain ⟨-, -, hrefused⟩ := ofBlob_iff_admissible hfaults
  refine ⟨?_, hfaults, (hrefused _).2 ⟨_, rfl, Payload.validate_eq_error_iff.1 (by decide)⟩⟩
  obtain ⟨c, hc⟩ := hloads.2 (Payload.validate_eq_ok_iff_admissible.1 (by decide))
  refine ⟨c, hkinds, hc, ?_⟩
  -- The relation leaves no choice but the set of the denied names.
  have hstores := hrules c hc
  generalize c.rules = rules at hstores ⊢
  obtain _ | ⟨hlimit, _ | ⟨hexact, _ | ⟨hpackage, _ | ⟨hhierarchy, _ | ⟨hstem, _ | _⟩⟩⟩⟩⟩ := hstores
  cases hlimit
  cases hpackage
  cases hhierarchy
  cases hstem
  cases hexact with
  | exact _ hmem =>
    refine ⟨_, rfl, fun name => (hmem name).trans ?_⟩
    simp only [List.mem_cons, List.not_mem_nil, or_false]
    grind

end Chain

end ClassFilter
