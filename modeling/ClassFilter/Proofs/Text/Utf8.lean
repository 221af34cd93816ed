import ClassFilter.Text.Utf8
import ClassFilter.Proofs.Result

/-!
# `ClassFilter.Proofs.Text.Utf8`: a text is read back from its bytes

`String.utf8EncodeChar` cuts a code point into groups of six bits, and `Text.Utf8.first`
puts them together again. The theorems follow one character, then a list of them:

* `mayFollow_iff`: the second byte of a sequence, as bounds on numbers.
* `first_two`, `first_three`, `first_four`: the sequences of two to four bytes.
* `first_utf8EncodeChar`: the bytes of a character are read as that character, whatever
  follows them.
* `decode_encode`: so the bytes of a text are read as that text.
* `length_encode_le_of_decode`: a text that is read from bytes needs no more bytes than
  these to be written.
* `encode_prefix_encode_iff`: a text stands in front of another where its bytes do.
-/

set_option autoImplicit false

namespace ClassFilter.Text.Utf8

/-! ### Bytes as numbers -/

/-- A number below 256 is the number of its byte. Each byte of an encoding is given as such a
number. -/
theorem toNat_ofNat_of_lt {n : Nat} (h : n < 256) : (UInt8.ofNat n).toNat = n := by
  rw [UInt8.toNat_ofNat']
  exact Nat.mod_eq_of_lt h

theorem isContinuation_iff {b : UInt8} :
    isContinuation b = true ↔ 0x80 ≤ b.toNat ∧ b.toNat ≤ 0xBF := by
  simp [isContinuation, UInt8.le_iff_toNat_le]

/-- The second byte is a continuation byte, and four first bytes narrow its range. They exclude
encodings that are too long, surrogates, and numbers that are too large. -/
theorem mayFollow_iff {b0 b1 : UInt8} :
    mayFollow b0 b1 = true ↔
      (0x80 ≤ b1.toNat ∧ b1.toNat ≤ 0xBF) ∧
        (b0.toNat = 0xE0 → 0xA0 ≤ b1.toNat) ∧ (b0.toNat = 0xED → b1.toNat ≤ 0x9F) ∧
        (b0.toNat = 0xF0 → 0x90 ≤ b1.toNat) ∧ (b0.toNat = 0xF4 → b1.toNat ≤ 0x8F) := by
  have heq : ∀ n : UInt8, b0 = n ↔ b0.toNat = n.toNat := fun n => UInt8.toNat_inj.symm
  have hconst : (0xE0 : UInt8).toNat = 0xE0 ∧ (0xED : UInt8).toNat = 0xED ∧
      (0xF0 : UInt8).toNat = 0xF0 ∧ (0xF4 : UInt8).toNat = 0xF4 := ⟨rfl, rfl, rfl, rfl⟩
  unfold mayFollow
  simp only [heq, hconst]
  -- At most one of the four premises holds, and it is the test of the branch.
  split
  · simp [UInt8.le_iff_toNat_le]
    omega
  · split
    · simp [UInt8.le_iff_toNat_le]
      omega
    · split
      · simp [UInt8.le_iff_toNat_le]
        omega
      · split
        · simp [UInt8.le_iff_toNat_le]
          omega
        · rw [isContinuation_iff]
          omega

theorem widthOf_eq (b : UInt8) :
    widthOf b =
      if b.toNat < 0x80 then 1
      else if 0xC2 ≤ b.toNat ∧ b.toNat ≤ 0xDF then 2
      else if 0xE0 ≤ b.toNat ∧ b.toNat ≤ 0xEF then 3
      else if 0xF0 ≤ b.toNat ∧ b.toNat ≤ 0xF4 then 4
      else 0 := by
  simp [widthOf, UInt8.lt_iff_toNat_lt, UInt8.le_iff_toNat_le]

/-! ### The bytes of a character -/

/-- A byte below 128 is a character, whatever follows it. This is the first branch of the
decoder. -/
theorem first_one {b : UInt8} (h : b.toNat < 0x80) (rest : List UInt8) :
    first b rest = .char (Char.ofNat b.toNat) 1 := by
  have hwidth : widthOf b = 1 := by
    rw [widthOf_eq, if_pos h]
  simp only [first, hwidth]

/-- Two bytes hold five and six bits. The first byte is at least 0xC2, as lower ones would encode
what fits one byte. -/
theorem first_two {b0 b1 : UInt8} (h0 : 0xC2 ≤ b0.toNat ∧ b0.toNat ≤ 0xDF)
    (h1 : 0x80 ≤ b1.toNat ∧ b1.toNat ≤ 0xBF) (rest : List UInt8) :
    first b0 (b1 :: rest) = .char (Char.ofNat (b0.toNat % 32 * 64 + b1.toNat % 64)) 2 := by
  have hwidth : widthOf b0 = 2 := by
    rw [widthOf_eq, if_neg (by omega), if_pos h0]
  have hfollow : mayFollow b0 b1 = true := mayFollow_iff.2 (by omega)
  simp only [first, hwidth, if_pos hfollow]
  rfl

/-- Three bytes hold four, six and six bits. The second byte is in a narrower range after two of the
first bytes. -/
theorem first_three {b0 b1 b2 : UInt8} (h0 : 0xE0 ≤ b0.toNat ∧ b0.toNat ≤ 0xEF)
    (h1 : mayFollow b0 b1 = true) (h2 : 0x80 ≤ b2.toNat ∧ b2.toNat ≤ 0xBF) (rest : List UInt8) :
    first b0 (b1 :: b2 :: rest)
      = .char (Char.ofNat ((b0.toNat % 16 * 64 + b1.toNat % 64) * 64 + b2.toNat % 64)) 3 := by
  have hwidth : widthOf b0 = 3 := by
    rw [widthOf_eq, if_neg (by omega), if_neg (by omega), if_pos h0]
  simp only [first, hwidth, if_pos h1, if_pos (isContinuation_iff.2 h2)]
  rfl

/-- Four bytes hold three, six, six and six bits. The first byte is at most 0xF4, since characters
end at 0x10FFFF. -/
theorem first_four {b0 b1 b2 b3 : UInt8} (h0 : 0xF0 ≤ b0.toNat ∧ b0.toNat ≤ 0xF4)
    (h1 : mayFollow b0 b1 = true) (h2 : 0x80 ≤ b2.toNat ∧ b2.toNat ≤ 0xBF)
    (h3 : 0x80 ≤ b3.toNat ∧ b3.toNat ≤ 0xBF) (rest : List UInt8) :
    first b0 (b1 :: b2 :: b3 :: rest)
      = .char (Char.ofNat (((b0.toNat % 8 * 64 + b1.toNat % 64) * 64 + b2.toNat % 64) * 64
          + b3.toNat % 64)) 4 := by
  have hwidth : widthOf b0 = 4 := by
    rw [widthOf_eq, if_neg (by omega), if_neg (by omega), if_neg (by omega), if_pos h0]
  simp only [first, hwidth, if_pos h1, if_pos (isContinuation_iff.2 h2),
    if_pos (isContinuation_iff.2 h3)]
  rfl

/-- The bytes of a character are read as that character, whatever follows them. There is one case
for each length of an encoding, and in each the groups of six bits are put together again. -/
theorem first_utf8EncodeChar (c : Char) (rest : List UInt8) :
    ∃ b bs, String.utf8EncodeChar c = b :: bs ∧ first b (bs ++ rest) = .char c (bs.length + 1) := by
  have hvalid : c.val.toNat < 0xD800 ∨ 0xDFFF < c.val.toNat ∧ c.val.toNat < 0x110000 := c.valid
  have hbyte : ∀ n, n < 256 → (UInt8.ofNat n).toNat = n := fun n hn => toNat_ofNat_of_lt hn
  unfold String.utf8EncodeChar
  have hchar : Char.ofNat c.val.toNat = c := Char.ofNat_toNat c
  dsimp only
  generalize c.val.toNat = v at hvalid hchar
  by_cases hone : v ≤ 0x7F
  · rw [if_pos hone]
    refine ⟨_, [], rfl, ?_⟩
    have hb := hbyte v (by omega)
    rw [first_one (by rw [hb]; omega), hb, hchar]
    rfl
  by_cases htwo : v ≤ 0x7FF
  · rw [if_neg hone, if_pos htwo]
    refine ⟨_, _, rfl, ?_⟩
    have hb0 := hbyte (v / 64 % 32 + 0xC0) (by omega)
    have hb1 := hbyte (v % 64 + 0x80) (by omega)
    have hvalue : (v / 64 % 32 + 0xC0) % 32 * 64 + (v % 64 + 0x80) % 64 = v := by omega
    rw [List.cons_append, first_two (by rw [hb0]; omega) (by rw [hb1]; omega), hb0, hb1, hvalue,
      hchar]
    rfl
  by_cases hthree : v ≤ 0xFFFF
  · rw [if_neg hone, if_neg htwo, if_pos hthree]
    refine ⟨_, _, rfl, ?_⟩
    have hb0 := hbyte (v / 4096 % 16 + 0xE0) (by omega)
    have hb1 := hbyte (v / 64 % 64 + 0x80) (by omega)
    have hb2 := hbyte (v % 64 + 0x80) (by omega)
    -- The bounds on the second byte are those of the shortest form, and of no surrogate.
    have hfollow : mayFollow (UInt8.ofNat (v / 4096 % 16 + 0xE0))
        (UInt8.ofNat (v / 64 % 64 + 0x80)) = true := by
      rw [mayFollow_iff, hb0, hb1]
      omega
    have hvalue : ((v / 4096 % 16 + 0xE0) % 16 * 64 + (v / 64 % 64 + 0x80) % 64) * 64
        + (v % 64 + 0x80) % 64 = v := by omega
    rw [List.cons_append, List.cons_append,
      first_three (by rw [hb0]; omega) hfollow (by rw [hb2]; omega), hb0, hb1, hb2, hvalue, hchar]
    rfl
  · rw [if_neg hone, if_neg htwo, if_neg hthree]
    refine ⟨_, _, rfl, ?_⟩
    have hb0 := hbyte (v / 262144 % 8 + 0xF0) (by omega)
    have hb1 := hbyte (v / 4096 % 64 + 0x80) (by omega)
    have hb2 := hbyte (v / 64 % 64 + 0x80) (by omega)
    have hb3 := hbyte (v % 64 + 0x80) (by omega)
    -- Here they are those of the shortest form, and of the last code point.
    have hfollow : mayFollow (UInt8.ofNat (v / 262144 % 8 + 0xF0))
        (UInt8.ofNat (v / 4096 % 64 + 0x80)) = true := by
      rw [mayFollow_iff, hb0, hb1]
      omega
    have hvalue : (((v / 262144 % 8 + 0xF0) % 8 * 64 + (v / 4096 % 64 + 0x80) % 64) * 64
        + (v / 64 % 64 + 0x80) % 64) * 64 + (v % 64 + 0x80) % 64 = v := by omega
    rw [List.cons_append, List.cons_append, List.cons_append,
      first_four (by rw [hb0]; omega) hfollow (by rw [hb2]; omega) (by rw [hb3]; omega), hb0, hb1,
      hb2, hb3, hvalue, hchar]
    rfl

/-! ### The bytes of a text -/

/-- Bytes that belong to a character that was read already are passed over. The decoder counts them
down and moves its offset on. -/
theorem decodeFrom_append (offset : Nat) (bs rest : List UInt8) :
    decodeFrom offset bs.length (bs ++ rest) = decodeFrom (offset + bs.length) 0 rest := by
  induction bs generalizing offset with
  | nil => rfl
  | cons b bs ih =>
    show decodeFrom (offset + 1) bs.length (bs ++ rest) = _
    rw [ih, List.length_cons, Nat.add_assoc, Nat.add_comm 1]

/-- A character is read, and its other bytes are passed over. What follows is read in the same way
from there. -/
theorem decodeFrom_cons {offset width : Nat} {b : UInt8} {c : Char} {rest : List UInt8}
    (h : first b rest = .char c width) :
    decodeFrom offset 0 (b :: rest)
      = (decodeFrom (offset + 1) (width - 1) rest).map (c :: ·) := by
  simp only [decodeFrom, h]

/-- The bytes of characters are read one character after another, from any offset. The induction is
on the characters. -/
theorem decodeFrom_flatMap (offset : Nat) (cs : List Char) :
    decodeFrom offset 0 (cs.flatMap String.utf8EncodeChar) = .ok cs := by
  induction cs generalizing offset with
  | nil => rfl
  | cons c cs ih =>
    obtain ⟨b, bs, hbytes, hfirst⟩ := first_utf8EncodeChar c (cs.flatMap String.utf8EncodeChar)
    rw [List.flatMap_cons, hbytes, List.cons_append, decodeFrom_cons hfirst, Nat.add_sub_cancel,
      decodeFrom_append, ih]
    rfl

/-- A text is read back from its bytes. It is the case of `decodeFrom_flatMap` that starts at the
first byte. -/
theorem decode_encode (text : String) : decode (encode text) = .ok text := by
  rw [decode, encode, decodeFrom_flatMap]
  show Except.ok (String.ofList text.toList) = .ok text
  rw [String.ofList_toList]

/-! ### The length of a text -/

theorem toNat_charOfNat_le (n : Nat) : (Char.ofNat n).toNat ≤ n := by
  unfold Char.ofNat
  by_cases h : n.isValidChar
  · rw [dif_pos h]
    exact Nat.le_refl n
  · rw [dif_neg h]
    exact Nat.zero_le n

/-- A character takes no more bytes than the range of its number allows. A number that is no
character counts too, as `Char.ofNat` makes it the one of number zero. -/
theorem utf8Size_charOfNat_le {n width : Nat}
    (h : width = 1 ∧ n < 0x80 ∨ width = 2 ∧ n < 0x800 ∨ width = 3 ∧ n < 0x10000 ∨ width = 4) :
    (Char.ofNat n).utf8Size ≤ width := by
  have hn : (Char.ofNat n).val.toNat ≤ n := toNat_charOfNat_le n
  unfold Char.utf8Size
  simp only [UInt32.le_iff_toNat_le, UInt32.toNat_ofNatLT]
  split
  · omega
  split
  · omega
  split <;> omega

/-- A character is read from no fewer bytes than are needed to write it. This goes through the
branches of the decoder, where the test on bytes gives the range of the number. -/
theorem utf8Size_le_of_first {b : UInt8} {rest : List UInt8} {c : Char} {width : Nat}
    (h : first b rest = .char c width) : c.utf8Size ≤ width ∧ width ≤ rest.length + 1 := by
  have hlow : ∀ x : UInt8, low6 x < 64 := fun x => Nat.mod_lt _ (by decide)
  -- Each way to read a character bounds its number, and shows the bytes that it was read from.
  unfold first at h
  split at h
  · rename_i hwidth
    have hone : b.toNat < 0x80 := by
      rw [widthOf_eq] at hwidth
      grind
    cases h
    exact ⟨utf8Size_charOfNat_le (.inl ⟨rfl, hone⟩), Nat.le_add_left 1 _⟩
  · cases h
  · rename_i b1 _ _
    split at h
    · cases h
      have h1 := hlow b1
      exact ⟨utf8Size_charOfNat_le (.inr (.inl ⟨rfl, by omega⟩)), by simp⟩
    · cases h
  · cases h
  · rename_i b1 _ _
    split at h
    · split at h
      · cases h
      · rename_i b2 _
        split at h
        · cases h
          have h1 := hlow b1
          have h2 := hlow b2
          exact ⟨utf8Size_charOfNat_le (.inr (.inr (.inl ⟨rfl, by omega⟩))), by simp⟩
        · cases h
    · cases h
  · cases h
  · split at h
    · split at h
      · cases h
      split at h
      · split at h
        · cases h
        split at h
        · cases h
          exact ⟨utf8Size_charOfNat_le (.inr (.inr (.inr rfl))), by simp⟩
        · cases h
      · cases h
    · cases h
  · cases h

/-- Characters are read from no fewer bytes than are needed to write them. The first `skip`
bytes belong to a character that was read before. -/
theorem length_flatMap_le_of_decodeFrom {offset skip : Nat} {bytes : List UInt8} {cs : List Char}
    (hskip : skip ≤ bytes.length) (h : decodeFrom offset skip bytes = .ok cs) :
    (cs.flatMap String.utf8EncodeChar).length + skip ≤ bytes.length := by
  induction bytes generalizing offset skip cs with
  | nil =>
    cases h
    simpa using hskip
  | cons b rest ih =>
    cases skip with
    | succ k =>
      have hrest := ih (Nat.le_of_succ_le_succ hskip) h
      rw [List.length_cons]
      omega
    | zero =>
      cases hfirst : first b rest with
      | broken length =>
        simp only [decodeFrom, hfirst] at h
        cases h
      | cut =>
        simp only [decodeFrom, hfirst] at h
        cases h
      | char c width =>
        -- The other bytes of this character are what the rest has to skip.
        obtain ⟨hsize, hwidth⟩ := utf8Size_le_of_first hfirst
        rw [decodeFrom_cons hfirst] at h
        obtain ⟨more, hmore, rfl⟩ := Result.map_eq_ok_iff.1 h
        have hrest := ih (by omega) hmore
        rw [List.flatMap_cons, List.length_append, String.length_utf8EncodeChar, List.length_cons]
        omega

/-- A text is read from no fewer bytes than are needed to write it. With it the text of a stored
entry needs no more room when it is stored again. -/
theorem length_encode_le_of_decode {bytes : List UInt8} {text : String}
    (h : decode bytes = .ok text) : (encode text).length ≤ bytes.length := by
  obtain ⟨cs, hcs, rfl⟩ := Result.map_eq_ok_iff.1 h
  rw [encode, String.toList_ofList]
  exact length_flatMap_le_of_decodeFrom (Nat.zero_le _) hcs

/-! ### The bytes of one character among others -/

/-- A byte below 128 is a character of its own, and no part of a longer sequence. So a search for
such a byte finds the character and nothing else. -/
theorem eq_of_mem_utf8EncodeChar {b : UInt8} (hb : b.toNat < 0x80) {c : Char}
    (h : b ∈ String.utf8EncodeChar c) : c = Char.ofNat b.toNat := by
  have hvalid : c.val.toNat < 0xD800 ∨ 0xDFFF < c.val.toNat ∧ c.val.toNat < 0x110000 := c.valid
  have hchar : Char.ofNat c.val.toNat = c := Char.ofNat_toNat c
  -- The bytes of a longer sequence are 128 or more.
  have hhigh : ∀ n, 0x80 ≤ n → n < 256 → b ≠ UInt8.ofNat n := by
    intro n hlow hn heq
    rw [heq, toNat_ofNat_of_lt hn] at hb
    omega
  unfold String.utf8EncodeChar at h
  dsimp only at h
  generalize c.val.toNat = v at hvalid hchar h
  split at h
  · rw [List.mem_singleton.1 h, toNat_ofNat_of_lt (by omega), hchar]
  · split at h
    · simp only [List.mem_cons, List.not_mem_nil, or_false] at h
      rcases h with h | h <;> exact absurd h (hhigh _ (by omega) (by omega))
    · split at h
      · simp only [List.mem_cons, List.not_mem_nil, or_false] at h
        rcases h with h | h | h <;> exact absurd h (hhigh _ (by omega) (by omega))
      · simp only [List.mem_cons, List.not_mem_nil, or_false] at h
        rcases h with h | h | h | h <;> exact absurd h (hhigh _ (by omega) (by omega))

/-- Characters stand in front where their bytes do, since no character is read from the bytes of
another. The induction is on the characters in front. -/
theorem prefix_of_prefix_flatMap {cs ds : List Char}
    (h : cs.flatMap String.utf8EncodeChar <+: ds.flatMap String.utf8EncodeChar) : cs <+: ds := by
  induction cs generalizing ds with
  | nil => exact List.nil_prefix
  | cons c cs ih =>
    obtain ⟨rest, hrest⟩ := h
    obtain ⟨b, bs, hc, hfirst⟩ := first_utf8EncodeChar c (cs.flatMap String.utf8EncodeChar ++ rest)
    rw [List.flatMap_cons, hc, List.append_assoc, List.cons_append] at hrest
    cases ds with
    | nil => cases hrest
    | cons d ds =>
      obtain ⟨b', bs', hd, hfirst'⟩ := first_utf8EncodeChar d (ds.flatMap String.utf8EncodeChar)
      rw [List.flatMap_cons, hd, List.cons_append] at hrest
      obtain ⟨rfl, htail⟩ := List.cons.inj hrest
      -- Reading the same bytes gives one first character, so the two characters agree.
      rw [htail, hfirst'] at hfirst
      obtain ⟨rfl, -⟩ := First.char.inj hfirst
      obtain ⟨-, rfl⟩ := List.cons.inj (hc.symm.trans hd)
      exact List.cons_prefix_cons.2 ⟨rfl, ih ⟨rest, List.append_cancel_left htail⟩⟩

theorem encode_append (front back : String) :
    encode (front ++ back) = encode front ++ encode back := by
  rw [encode, String.toList_append, List.flatMap_append]
  rfl

/-- A text stands in front of another just where its bytes do. So a front of a class name can be
compared on either. -/
theorem encode_prefix_encode_iff {front text : String} :
    encode front <+: encode text ↔ front.toList <+: text.toList := by
  refine ⟨prefix_of_prefix_flatMap, ?_⟩
  intro ⟨rest, hrest⟩
  refine ⟨rest.flatMap String.utf8EncodeChar, ?_⟩
  rw [encode, encode, ← hrest, List.flatMap_append]

end ClassFilter.Text.Utf8
