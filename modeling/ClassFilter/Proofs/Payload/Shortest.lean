import ClassFilter.Proofs.Payload.Sound
import ClassFilter.Proofs.Wire.Shortest
import Mathlib.Data.List.Flatten
import Mathlib.Data.List.Perm.Subperm

/-!
# `ClassFilter.Proofs.Payload.Shortest`: storing a loaded chain again takes no more room

A payload can be larger than it needs to be. Numbers may be written wide, class names may
be repeated, and bytes may follow. A chain that is stored again loses all of this:

* `Payload.length_write_le_of_decode`: a payload needs no more bytes than it was read
  from.
* `NameSet.subperm_ofList`, `Entry.length_write_ofRule_le`: an entry whose names are sorted
  and free of repeats needs no more bytes than before.
* `Payload.length_write_ofChain_le`: so only the hash of a specification can make the
  payload of a loaded chain longer than the one it was loaded from.
-/

set_option autoImplicit false

namespace ClassFilter

open Wire (Spends)

/-! ### Reading -/

@[simp] theorem Metric.index_ofIndex (i : Fin 4) : (Metric.ofIndex i).index = i := by
  revert i
  decide

namespace Entry

/-- A polarity and a text, behind a tag of one byte. The size that is left is that of the entry
without its tag. -/
theorem spends_readWildcard (scope : Scope) :
    Spends (readWildcard scope) fun e => e.write.length - 1 := by
  refine Spends.bool.bind fun deny => Spends.text.bind fun text => Spends.pure ?_
  have htag : (Wire.Writer.number (tag (.wildcard (polarityOf deny) scope text)).val).length = 1 := by
    cases scope <;> rfl
  rw [write, List.length_append, List.length_append, htag]
  show 1 + (1 + _) - 1 - 1 - _ = 0
  omega

/-- An entry is read from no fewer bytes than are needed to write it, since its numbers may be wider
than they need to be but not narrower. -/
theorem spends_read : Spends read fun e => e.write.length := by
  -- The tag selects the reader of the fields, and has one byte when it is written.
  refine (Spends.tag 5).bind fun tag => ?_
  split
  · refine (Spends.tag 4).bind fun metric => (Spends.number .word).bind fun max => Spends.pure ?_
    have hmax : (UInt64.ofNat max).toNat ≤ max := by
      rw [UInt64.toNat_ofNat']
      exact Nat.mod_le _ _
    have hnumber := Wire.Writer.length_number_mono hmax
    simp only [write, List.length_append, Metric.index_ofIndex]
    show 1 + _ - 1 - _ - _ = 0
    omega
  · refine Spends.bool.bind fun deny => (Spends.list Spends.text).bind fun names => Spends.pure ?_
    simp only [write, List.length_append]
    show 1 + (1 + _) - 1 - 1 - _ = 0
    omega
  · exact spends_readWildcard .package
  · exact spends_readWildcard .hierarchy
  · exact spends_readWildcard .stem

end Entry

namespace Payload

/-- A payload is read from no fewer bytes than are needed to write it. The count is kept as a word,
which is no larger than the number that was read for it. -/
theorem spends_read : Spends read fun p => p.write.length := by
  have hdigest : Spends (Wire.Reader.option (Wire.Reader.times Wire.Reader.byte 32))
      fun d => (Wire.Writer.option Subtype.val d).length := Spends.option (Spends.bytes 32)
  refine (Spends.number .word).bind fun count => hdigest.bind fun d =>
    (Spends.list Entry.spends_read).bind fun entries => Spends.pure ?_
  have hcount : (UInt64.ofNat count).toNat ≤ count := by
    rw [UInt64.toNat_ofNat']
    exact Nat.mod_le _ _
  have hnumber := Wire.Writer.length_number_mono hcount
  simp only [write, List.length_append]
  omega

/-- A payload needs no more bytes than it was read from, so writing it again takes no more room than
it had. -/
theorem length_write_le_of_decode {bytes : List UInt8} {p : Payload} (h : decode bytes = .ok p) :
    p.write.length ≤ bytes.length := by
  obtain ⟨⟨q, rest⟩, hrun, hq⟩ := Result.map_eq_ok_iff.1 h
  have hspent := spends_read bytes q rest hrun
  rw [show q = p from hq] at hspent
  exact Nat.le_of_add_right_le hspent

end Payload

/-! ### Storing again -/

/-- Each name of a set stands in the list that it was made from, and has its own place. Repetitions
in the list are what the set has less. -/
theorem NameSet.subperm_ofList (names : List String) :
    (NameSet.ofList names).toList.Subperm names := by
  refine List.subperm_of_subset ?_ fun name hname => ?_
  · exact (NameSet.ofList names).sorted.imp String.ne_of_lt
  · exact NameSet.mem_ofList.1 (NameSet.mem_toList.1 hname)

/-- Fewer values, in any order, need no more bytes. The number of values is written too, and a
smaller one needs no more room. -/
theorem Wire.Writer.length_list_le_of_subperm {α : Type} {w : α → List UInt8} {xs ys : List α}
    (h : xs.Subperm ys) : (Wire.Writer.list w xs).length ≤ (Wire.Writer.list w ys).length := by
  obtain ⟨zs, hperm, hsub⟩ := h
  have hcount := Wire.Writer.length_number_mono (hperm.length_eq ▸ hsub.length_le)
  have hbytes : (xs.flatMap w).length = (zs.flatMap w).length :=
    (hperm.symm.flatMap_right w).length_eq
  have hfewer : (zs.flatMap w).length ≤ (ys.flatMap w).length := (hsub.flatMap w).length_le
  rw [list, list, List.length_append, List.length_append]
  omega

namespace Entry

/-- An entry that is made from the rule of another needs no more bytes. Only exact entries differ,
by sorting and dropping names. -/
theorem length_write_ofRule_le (e : Entry) : (ofRule e.rule).write.length ≤ e.write.length := by
  cases e with
  | limit metric max => exact Nat.le_refl _
  | wildcard p scope text => exact Nat.le_refl _
  | exact p names =>
    have hlist := Wire.Writer.length_list_le_of_subperm (w := Wire.Writer.text)
      (NameSet.subperm_ofList names)
    simp only [rule, ofRule, write, List.length_append, tag]
    omega

/-- A list of entries that are made from the rules of others needs no more bytes, as none of them
does. -/
theorem length_flatMap_write_le (es : List Entry) :
    ((es.map fun e => ofRule e.rule).flatMap write).length ≤ (es.flatMap write).length := by
  induction es with
  | nil => exact Nat.le_refl _
  | cons e es ih =>
    have hfirst := length_write_ofRule_le e
    rw [List.map_cons, List.flatMap_cons, List.flatMap_cons, List.length_append, List.length_append]
    omega

end Entry

namespace Payload

/-- A hash that is recorded needs 33 bytes with the mark that it is there, and an absent one the
mark alone. So recording one takes 32 more. -/
theorem length_option_digest (d : Option Digest) :
    (Wire.Writer.option Subtype.val d).length = if d.isSome then 33 else 1 := by
  cases d with
  | none => rfl
  | some digest =>
    show digest.val.length + 1 = 33
    rw [digest.property]

/-- Storing a chain again takes no more room, apart from a hash that is recorded now. The count is
that of the same entries, and a hash that was there before is not kept. -/
theorem length_write_ofChain_le {p : Payload} (h : p.Sound) (source : Option String) :
    (ofChain p.chain source).write.length ≤ p.write.length + if source.isSome then 32 else 0 := by
  have hentries : (ofChain p.chain source).entries = p.entries.map fun e => Entry.ofRule e.rule :=
    List.map_map
  have hsize : p.chain.size = p.entries.length := List.length_map _
  -- The count was right, so it is the same.
  have hcount : (ofChain p.chain source).ruleCount = p.ruleCount := by
    show UInt64.ofNat p.chain.size = p.ruleCount
    rw [hsize, ← h.counted, UInt64.ofNat_toNat]
  have hbytes := Entry.length_flatMap_write_le p.entries
  have hdigest : (ofChain p.chain source).sourceDigest.isSome = source.isSome := Option.isSome_map
  rw [write, write, hcount, hentries]
  simp only [Wire.Writer.list, List.length_append, List.length_map, length_option_digest, hdigest]
  split <;> split <;> omega

end Payload

end ClassFilter
