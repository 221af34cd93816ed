import ClassFilter.Text.Decimal
import Mathlib.Algebra.Group.Nat.Defs

/-!
# `ClassFilter.Proofs.Text.Decimal`: which literals denote a number

`Text.Decimal.word?` reads signed literals, and limits are written with `toString`. The
theorems say that the reader accepts exactly two spellings of a number that is not
negative:

* `positive?_eq_some_iff`: digits that do not begin with `0` denote `n` exactly when they
  are the decimal digits of `n`, which is positive.
* `word?_eq_some_natCast_iff`: the literals of `n` are its digits, and a `+` before them
  unless `n` is zero, as long as `n` fits a signed 64-bit word.
* `word?_toDigits_of_le`: so the digits of a number that fits no such word are not read back.

`Spells` names the two spellings. Its definition does not mention the reader.
-/

set_option autoImplicit false

namespace ClassFilter.Text.Decimal

/-- The literals of a number: its digits, and for a positive number a `+` before them. Digits with a
`0` in front are none, as the reader refuses them. -/
def Spells (text : List Char) (n : Nat) : Prop :=
  text = Nat.toDigits 10 n ∨ 0 < n ∧ text = '+' :: Nat.toDigits 10 n

/-- The digits of a number denote it. It compares the reader's value of digits with the library's,
so facts on `Nat.toDigits` can be used. -/
theorem value_toDigits (n : Nat) : value (Nat.toDigits 10 n) = n := by
  have h := Nat.ofDigitChars_ten_toDigits (n := n)
  rwa [Nat.ofDigitChars_eq_foldl] at h

/-- A digit is the character of its value, which is less than ten. The reader subtracts the code of
`0` from that of the digit, and here the way back is given. -/
theorem digitChar_of_isDigit {d : Char} (h : d.isDigit = true) :
    d.toNat - '0'.toNat < 10 ∧ Nat.digitChar (d.toNat - '0'.toNat) = d := by
  have hd : 48 ≤ d.toNat ∧ d.toNat ≤ 57 := by
    simpa [Char.isDigit, UInt32.le_iff_toNat_le] using h
  have hzero : '0'.toNat = 48 := rfl
  rw [hzero]
  have hlt : d.toNat - 48 < 10 := by omega
  refine ⟨hlt, ?_⟩
  rw [← Char.toNat_inj, Nat.toNat_digitChar_of_lt_ten hlt]
  omega

/-- The digits of a number hold nothing else, so neither a sign nor a character that is reserved. -/
theorem not_mem_toDigits {c : Char} (hc : c.isDigit = false) (n : Nat) :
    c ∉ Nat.toDigits 10 n := by
  intro hmem
  rw [Nat.isDigit_of_mem_toDigits (by omega) (by omega) hmem] at hc
  exact Bool.noConfusion hc

/-- The digits of a positive number do not begin with `0`. It covers numbers of one digit, where the
digit itself is not `0`. -/
theorem head?_toDigits_ne_zero {n : Nat} (hn : 0 < n) :
    (Nat.toDigits 10 n).head? ≠ some '0' := by
  -- A longer numeral begins like the numeral without its last digit.
  induction n using Nat.strongRecOn with
  | ind n ih =>
    rcases Nat.lt_or_ge n 10 with hlt | hge
    · rw [Nat.toDigits_of_lt_base hlt]
      simp
      omega
    · rw [Nat.toDigits_of_base_le (by omega) hge]
      have hdiv : 0 < n / 10 := Nat.div_pos hge (by omega)
      have hrec := ih (n / 10) (by omega) hdiv
      cases hfront : Nat.toDigits 10 (n / 10) with
      | nil => exact absurd hfront Nat.toDigits_ne_nil
      | cons d ds =>
        rw [hfront] at hrec
        simpa using hrec

/-- Reading on from a positive number appends its further digits. The number must be positive, since
zero has a digit that would stay in front. -/
theorem toDigits_foldl {ds : List Char} (hdigits : ∀ d ∈ ds, d.isDigit = true) {acc : Nat}
    (hacc : 0 < acc) :
    Nat.toDigits 10 (ds.foldl (fun n d => 10 * n + (d.toNat - '0'.toNat)) acc)
      = Nat.toDigits 10 acc ++ ds := by
  -- The number that was read stays positive, so each step appends one digit to its digits.
  induction ds generalizing acc with
  | nil => simp
  | cons d ds ih =>
    obtain ⟨hlt, hchar⟩ := digitChar_of_isDigit (hdigits d (by simp))
    have hstep : Nat.toDigits 10 (10 * acc + (d.toNat - '0'.toNat)) = Nat.toDigits 10 acc ++ [d] := by
      rw [← Nat.toDigits_append_toDigits (by omega) hacc hlt, Nat.toDigits_of_lt_base hlt, hchar]
    rw [List.foldl_cons, ih (fun x hx => hdigits x (List.mem_cons_of_mem _ hx)) (by omega), hstep,
      List.append_assoc, List.singleton_append]

/-- Digits that do not begin with `0` are those of the number they denote, and this number is
positive. -/
theorem toDigits_value {d : Char} {ds : List Char} (hd : d.isDigit = true) (hne : d ≠ '0')
    (hdigits : ∀ x ∈ ds, x.isDigit = true) :
    0 < value (d :: ds) ∧ Nat.toDigits 10 (value (d :: ds)) = d :: ds := by
  obtain ⟨hlt, hchar⟩ := digitChar_of_isDigit hd
  have hfirst : 0 < d.toNat - '0'.toNat := by
    rcases Nat.eq_zero_or_pos (d.toNat - '0'.toNat) with hzero | hpos
    · rw [hzero] at hchar
      exact absurd hchar.symm hne
    · exact hpos
  have hdigitsEq : Nat.toDigits 10 (value (d :: ds)) = d :: ds := by
    rw [value, List.foldl_cons, Nat.mul_zero, Nat.zero_add, toDigits_foldl hdigits hfirst,
      Nat.toDigits_of_lt_base hlt, hchar, List.singleton_append]
  refine ⟨?_, hdigitsEq⟩
  -- Zero has the digit `0`, which is not the first here.
  rcases Nat.eq_zero_or_pos (value (d :: ds)) with hzero | hpos
  · rw [hzero, Nat.toDigits_zero] at hdigitsEq
    exact absurd (List.cons.inj hdigitsEq).1.symm hne
  · exact hpos

/-- Unsigned literals that do not begin with `0` are the digits of positive numbers. This says what
the reader of digits accepts, and with which value. -/
theorem positive?_eq_some_iff {ds : List Char} {n : Nat} :
    positive? ds = some n ↔ 0 < n ∧ ds = Nat.toDigits 10 n := by
  constructor
  · intro h
    cases ds with
    | nil => simp [positive?] at h
    | cons d ds =>
      simp only [positive?, Option.ite_none_right_eq_some, Bool.and_eq_true, bne_iff_ne, ne_eq,
        List.all_eq_true, Option.some.injEq] at h
      obtain ⟨⟨⟨hd, hne⟩, hds⟩, rfl⟩ := h
      obtain ⟨hpos, hdigits⟩ := toDigits_value hd hne hds
      exact ⟨hpos, hdigits.symm⟩
  · rintro ⟨hn, rfl⟩
    have hhead := head?_toDigits_ne_zero hn
    have hdigits : ∀ d ∈ Nat.toDigits 10 n, d.isDigit = true := fun d hd =>
      Nat.isDigit_of_mem_toDigits (by omega) (by omega) hd
    have hval := value_toDigits n
    cases hds : Nat.toDigits 10 n with
    | nil => exact absurd hds Nat.toDigits_ne_nil
    | cons d ds =>
      rw [hds] at hhead hdigits hval
      have hne : d ≠ '0' := by simpa using hhead
      have hall : ds.all Char.isDigit = true := List.all_eq_true.2 fun x hx =>
        hdigits x (List.mem_cons_of_mem _ hx)
      rw [positive?, hdigits d (by simp), hall, hval]
      simp [hne]

/-- A literal whose value is not negative is a spelling of it. A minus would make the value
negative, as zero takes no sign. -/
theorem integer?_eq_some_natCast_iff {text : List Char} {n : Nat} :
    integer? text = some (n : Int) ↔ Spells text n := by
  -- A sign is no digit, so no digits begin with one.
  have hsign : ∀ c : Char, c.isDigit = false → ∀ ds m, c :: ds ≠ Nat.toDigits 10 m := by
    intro c hc ds m h
    have hnot := not_mem_toDigits hc m
    rw [← h] at hnot
    exact hnot List.mem_cons_self
  unfold integer?
  split
  · -- The digits of a positive number do not begin with a zero.
    constructor
    · intro h
      obtain rfl : n = 0 := by simpa [eq_comm] using h
      exact .inl (Nat.toDigits_zero 10).symm
    · rintro (h | ⟨-, h⟩)
      · rcases Nat.eq_zero_or_pos n with rfl | hn
        · rfl
        · exact absurd (by rw [← h]; rfl) (head?_toDigits_ne_zero hn)
      · exact absurd (List.cons.inj h).1 (by decide)
  · -- After a `+` stand the digits of a positive number.
    rename_i ds
    rw [Option.map_eq_some_iff]
    constructor
    · intro ⟨m, hm, hcast⟩
      obtain rfl : m = n := Int.ofNat_inj.1 hcast
      obtain ⟨hpos, rfl⟩ := positive?_eq_some_iff.1 hm
      exact .inr ⟨hpos, rfl⟩
    · rintro (h | ⟨hpos, h⟩)
      · exact absurd h (hsign '+' rfl ds n)
      · exact ⟨n, positive?_eq_some_iff.2 ⟨hpos, (List.cons.inj h).2⟩, rfl⟩
  · -- After a `-` they denote a negative number.
    rename_i ds
    rw [Option.map_eq_some_iff]
    constructor
    · intro ⟨m, hm, hcast⟩
      have hpos := (positive?_eq_some_iff.1 hm).1
      omega
    · rintro (h | ⟨-, h⟩)
      · exact absurd h (hsign '-' rfl ds n)
      · exact absurd (List.cons.inj h).1 (by decide)
  · -- Without a sign the digits stand alone.
    rename_i hzero hplus hminus
    rw [Option.map_eq_some_iff]
    constructor
    · intro ⟨m, hm, hcast⟩
      obtain rfl : m = n := Int.ofNat_inj.1 hcast
      exact .inl (positive?_eq_some_iff.1 hm).2
    · rintro (rfl | ⟨-, h⟩)
      · rcases Nat.eq_zero_or_pos n with rfl | hn
        · exact absurd (Nat.toDigits_zero 10) hzero
        · exact ⟨n, positive?_eq_some_iff.2 ⟨hn, rfl⟩, rfl⟩
      · exact absurd h (hplus _)

/-- The literals that a signed 64-bit word can hold and that are not negative. Such a value may be
the bound of a limit. -/
theorem word?_eq_some_natCast_iff {text : List Char} {n : Nat} :
    word? text = some (n : Int) ↔ n < 2 ^ 63 ∧ Spells text n := by
  rw [word?, Option.filter_eq_some_iff, integer?_eq_some_natCast_iff, decide_eq_true_iff, and_comm]
  refine and_congr_left fun _ => ?_
  omega

/-- A builder writes any 64-bit bound in digits, but the reader takes signed words only. So the
digits of a number that is too large for one are no literal, and the limit is refused. -/
theorem word?_toDigits_of_le {n : Nat} (h : 2 ^ 63 ≤ n) : word? (Nat.toDigits 10 n) = none := by
  have hread : integer? (Nat.toDigits 10 n) = some (n : Int) :=
    integer?_eq_some_natCast_iff.2 (.inl rfl)
  rw [word?, hread, Option.filter_some, if_neg]
  rw [decide_eq_true_iff]
  omega

end ClassFilter.Text.Decimal
