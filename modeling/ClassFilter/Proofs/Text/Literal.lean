import ClassFilter.Proofs.Text.Decimal
import Mathlib.Algebra.Group.Int.Defs

/-!
# `ClassFilter.Proofs.Text.Literal`: the grammar of signed literals

`Proofs.Text.Decimal` says which literals denote a given number that is not negative, by
writing the number down. This file says which texts are literals at all, by what their
characters are, and what number a literal denotes:

* `Significant`: digits that begin with one of `1` to `9`.
* `Natural` and `Whole`: the literals without and with a minus, each with its value.
* `positive?_eq_some_iff_significant`: the reader of digits accepts the significant ones.
* `natural_iff_spells`: the literals of a number are its spellings.
* `word?_eq_some_iff`: the reader accepts the literals whose value a signed 64-bit word can
  hold, and gives that value.
-/

set_option autoImplicit false

namespace ClassFilter.Text.Decimal

/-- Digits that do not begin with `0`, at least one. It is said by comparing characters, and no
number is mentioned. -/
def Significant (digits : List Char) : Prop :=
  ∃ first rest, digits = first :: rest ∧ ('1' ≤ first ∧ first ≤ '9') ∧
    ∀ d ∈ rest, '0' ≤ d ∧ d ≤ '9'

/-- The literals of a number that is not negative. A `0` stands alone, without a sign, and other
numbers may have a plus. -/
inductive Natural : List Char → Nat → Prop where
  | zero : Natural ['0'] 0
  | unsigned {digits : List Char} (h : Significant digits) : Natural digits (value digits)
  | plus {digits : List Char} (h : Significant digits) : Natural ('+' :: digits) (value digits)

/-- The literals of a number, with a minus if it is negative. There is no negative zero, because the
digits after a minus are significant. -/
inductive Whole : List Char → Int → Prop where
  | natural {text : List Char} {n : Nat} (h : Natural text n) : Whole text n
  | minus {digits : List Char} (h : Significant digits) :
    Whole ('-' :: digits) (-(value digits : Int))

/-! ### Digits -/

theorem isDigit_iff {c : Char} : c.isDigit = true ↔ '0' ≤ c ∧ c ≤ '9' := by
  rw [Char.isDigit, Bool.and_eq_true, decide_eq_true_iff, decide_eq_true_iff]
  rfl

/-- A digit that is not `0` is one of the others. The reader makes two tests on the first digit,
where the grammar makes one. -/
theorem digit_ne_zero_iff {c : Char} :
    ('0' ≤ c ∧ c ≤ '9') ∧ c ≠ '0' ↔ '1' ≤ c ∧ c ≤ '9' := by
  have hzero : c = '0' ↔ c.toNat = 48 := Char.toNat_inj.symm
  have hle : ∀ a b : Char, a ≤ b ↔ a.toNat ≤ b.toNat := fun a b => UInt32.le_iff_toNat_le
  have h0 : '0'.toNat = 48 := rfl
  have h1 : '1'.toNat = 49 := rfl
  have h9 : '9'.toNat = 57 := rfl
  rw [hle, hle, hle, ne_eq, hzero, h0, h1, h9]
  omega

/-- The reader of digits accepts the significant ones, and gives the number they denote. The empty
list of digits is not accepted. -/
theorem positive?_eq_some_iff_significant {digits : List Char} {n : Nat} :
    positive? digits = some n ↔ Significant digits ∧ value digits = n := by
  cases digits with
  | nil => simp [positive?, Significant]
  | cons d ds =>
    have hsignificant : Significant (d :: ds) ↔
        ('1' ≤ d ∧ d ≤ '9') ∧ ∀ x ∈ ds, '0' ≤ x ∧ x ≤ '9' := by
      constructor
      · rintro ⟨first, rest, heq, hfirst, hrest⟩
        obtain ⟨rfl, rfl⟩ := List.cons.inj heq
        exact ⟨hfirst, hrest⟩
      · rintro ⟨hfirst, hrest⟩
        exact ⟨d, ds, rfl, hfirst, hrest⟩
    simp only [positive?, Option.ite_none_right_eq_some, Bool.and_eq_true, bne_iff_ne,
      List.all_eq_true, Option.some.injEq, isDigit_iff, digit_ne_zero_iff, hsignificant]

/-- Significant digits are those of the number they denote, which is positive. So they are the only
digits of that number. -/
theorem Significant.toDigits_value {digits : List Char} (h : Significant digits) :
    0 < value digits ∧ digits = Nat.toDigits 10 (value digits) :=
  positive?_eq_some_iff.1 (positive?_eq_some_iff_significant.2 ⟨h, rfl⟩)

/-- The digits of a positive number are significant. Zero is left out, as its digit is `0`. -/
theorem significant_toDigits {n : Nat} (hn : 0 < n) : Significant (Nat.toDigits 10 n) :=
  (positive?_eq_some_iff_significant.1 (positive?_eq_some_iff.2 ⟨hn, rfl⟩)).1

/-! ### Literals -/

/-- The literals of a number are its spellings. The one side is said by the characters of the text,
the other by writing the number down. -/
theorem natural_iff_spells {text : List Char} {n : Nat} : Natural text n ↔ Spells text n := by
  constructor
  · intro h
    cases h with
    | zero => exact .inl (Nat.toDigits_zero 10).symm
    | unsigned h => exact .inl h.toDigits_value.2
    | plus h =>
      obtain ⟨hpos, hdigits⟩ := h.toDigits_value
      exact .inr ⟨hpos, congrArg ('+' :: ·) hdigits⟩
  · intro h
    have hvalue := value_toDigits n
    rcases h with rfl | ⟨hpos, rfl⟩
    · rcases Nat.eq_zero_or_pos n with rfl | hpos
      · exact .zero
      · simpa only [hvalue] using Natural.unsigned (significant_toDigits hpos)
    · simpa only [hvalue] using Natural.plus (significant_toDigits hpos)

/-- The reader accepts the literals, with the number each of them denotes. It covers the three signs
and the lone zero, which it tests for first. -/
theorem integer?_eq_some_iff {text : List Char} {v : Int} :
    integer? text = some v ↔ Whole text v := by
  constructor
  · intro h
    unfold integer? at h
    split at h
    · obtain rfl : 0 = v := Option.some.inj h
      exact .natural .zero
    · obtain ⟨n, hn, rfl⟩ := Option.map_eq_some_iff.1 h
      obtain ⟨hdigits, rfl⟩ := positive?_eq_some_iff_significant.1 hn
      exact .natural (.plus hdigits)
    · obtain ⟨n, hn, rfl⟩ := Option.map_eq_some_iff.1 h
      obtain ⟨hdigits, rfl⟩ := positive?_eq_some_iff_significant.1 hn
      exact .minus hdigits
    · obtain ⟨n, hn, rfl⟩ := Option.map_eq_some_iff.1 h
      obtain ⟨hdigits, rfl⟩ := positive?_eq_some_iff_significant.1 hn
      exact .natural (.unsigned hdigits)
  · intro h
    cases h with
    | natural h => exact integer?_eq_some_natCast_iff.2 (natural_iff_spells.1 h)
    | minus h =>
      have hread := positive?_eq_some_iff_significant.2 ⟨h, rfl⟩
      exact Option.map_eq_some_iff.2 ⟨_, hread, rfl⟩

/-- A literal denotes one number, since the reader gives one. The constructors need not be compared
with each other. -/
theorem Whole.unique {text : List Char} {v w : Int} (hv : Whole text v) (hw : Whole text w) :
    v = w :=
  Option.some.inj ((integer?_eq_some_iff.2 hv).symm.trans (integer?_eq_some_iff.2 hw))

/-- The reader accepts the literals that a signed 64-bit word can hold. Others are literals too, but
are refused as malformed. -/
theorem word?_eq_some_iff {text : List Char} {v : Int} :
    word? text = some v ↔ Whole text v ∧ -2 ^ 63 ≤ v ∧ v ≤ 2 ^ 63 - 1 := by
  rw [word?, Option.filter_eq_some_iff, integer?_eq_some_iff, decide_eq_true_iff]
  refine and_congr_right fun _ => ?_
  omega

end ClassFilter.Text.Decimal
