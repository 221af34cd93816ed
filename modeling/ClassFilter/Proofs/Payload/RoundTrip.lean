import ClassFilter.Payload
import ClassFilter.Proofs.Wire.RoundTrip

/-!
# `ClassFilter.Proofs.Payload.RoundTrip`: a payload is read back from its bytes

A payload is read field by field, so the theorems follow the fields:

* `Entry.reads_write`: an entry, by its kind.
* `Payload.reads_write`: a payload. What follows its bytes is left over.
* `Payload.decode_write`: so a payload is decoded from its bytes and whatever follows.

Nothing is assumed about the entries, which need not make a chain. The bytes must be
fewer than `2 ^ 64`, so that each length in them fits its field.
-/

set_option autoImplicit false

namespace ClassFilter

open Wire (Reads)

namespace Entry

@[simp] theorem polarityOf_denies (p : Polarity) : polarityOf (denies p) = p := by
  cases p <;> rfl

/-- The tag comes first, so an entry has a byte. A list of entries is thus no longer than its bytes,
and its length fits its field. -/
theorem write_ne_nil (e : Entry) : e.write ≠ [] := fun h =>
  Wire.Writer.number_ne_nil _ (List.append_eq_nil_iff.1 h).1

/-- A polarity and a text are read back with their scope. The three kinds of patterns share it, as
they differ in their tag only. -/
theorem reads_wildcard {p : Polarity} {scope : Scope} {text : String}
    (h : (Wire.Writer.text text).length < 2 ^ 64) :
    Reads (readWildcard scope) (Wire.Writer.bool (denies p) ++ Wire.Writer.text text)
      (.wildcard p scope text) := by
  refine (Reads.bool (denies p)).bind ((Reads.text h).bind_nil ?_)
  rw [polarityOf_denies]
  exact Reads.pure _

/-- An entry is read back from its bytes, by its kind. Nothing is asked about the texts but that
their bytes can be counted. -/
theorem reads_write {e : Entry} (h : e.write.length < 2 ^ 64) : Reads read e.write e := by
  -- The tag selects the reader of the fields.
  refine (Reads.tag e.tag (by omega)).bind ?_
  cases e with
  | limit metric max =>
    refine (Reads.tag metric.index (by omega)).bind ((Reads.word max).bind_nil ?_)
    rw [Metric.ofIndex_index, UInt64.ofNat_toNat]
    exact Reads.pure _
  | exact p names =>
    have hlist : (Wire.Writer.list Wire.Writer.text names).length < 2 ^ 64 := by
      simp only [write, List.length_append] at h
      omega
    have hread : Reads (Wire.Reader.list Wire.Reader.text)
        (Wire.Writer.list Wire.Writer.text names) names :=
      Reads.list hlist (fun s _ => Wire.Writer.text_ne_nil s) fun s _ hs => Reads.text hs
    refine (Reads.bool (denies p)).bind (hread.bind_nil ?_)
    rw [polarityOf_denies]
    exact Reads.pure _
  | wildcard p scope text =>
    have htext : (Wire.Writer.text text).length < 2 ^ 64 := by
      simp only [write, List.length_append] at h
      omega
    cases scope <;> exact reads_wildcard htext

end Entry

namespace Payload

/-- A payload is read back from its bytes, field by field: the count, the hash of the source if
there is one, and the entries. -/
theorem reads_write {p : Payload} (h : p.write.length < 2 ^ 64) : Reads read p.write p := by
  have hentries : (Wire.Writer.list Entry.write p.entries).length < 2 ^ 64 := by
    simp only [write, List.length_append] at h
    omega
  have hread : Reads (Wire.Reader.list Entry.read)
      (Wire.Writer.list Entry.write p.entries) p.entries :=
    Reads.list hentries (fun e _ => e.write_ne_nil) fun e _ he => Entry.reads_write he
  have hdigest : Reads (Wire.Reader.option (Wire.Reader.times Wire.Reader.byte 32))
      (Wire.Writer.option Subtype.val p.sourceDigest) p.sourceDigest :=
    Reads.option fun d _ => Reads.bytes d.val d.property
  refine (Reads.word p.ruleCount).bind (hdigest.bind (hread.bind_nil ?_))
  rw [UInt64.ofNat_toNat]
  exact Reads.pure _

/-- A payload is decoded from its bytes, and bytes that follow do not matter. The decoder stops
behind the last entry. -/
theorem decode_write {p : Payload} (h : p.write.length < 2 ^ 64) (rest : List UInt8) :
    decode (p.write ++ rest) = .ok p := by
  show (read (p.write ++ rest)).map Prod.fst = .ok p
  rw [reads_write h rest]
  rfl

end Payload

end ClassFilter
