import ClassFilter.Proofs.Blob.Damage

/-!
# `ClassFilter.Proofs.Blob.Stages`: the stages that a blob is read in

A blob is read in six stages, and two operations read it: one takes the chain, the other compares
the source. They share the stages and differ in what they do with the payload that comes out.

* `Blob.Fails`: what makes a stage fail, and with which error. Nothing is assumed about the stages
  before it, so that several may fail for the same bytes. Two stages report missing bytes, so an
  error does not tell its stage.
* `Blob.fails_of_readPayload`, `Blob.readPayload_of_first`: the error that is reported is that of a
  stage that fails, and it is that of the first.
* `Blob.readPayload_eq_error_iff`: so a payload is read unless a stage fails, and the first one that
  does is reported.
* `Blob.overwrite`, `Blob.unwrap_overwrite`: the fields that no stage reads and the bytes behind the
  payload have no influence, if no bytes are missing.
* `Blob.readers_agree`: what holds of both operations for all bytes.
-/

set_option autoImplicit false

namespace ClassFilter.Blob

/-! ### The stages -/

/-- A stage of reading a blob. The first five look at the header, and the last decodes the
payload. -/
inductive Stage where
  | size | letters | layout | announced | checksum | payload

/-- The place of a stage in the order in which they are taken. The stages are compared by it and not
by their constructors. -/
@[simp]
def Stage.rank : Stage → Nat
  | size => 0
  | letters => 1
  | layout => 2
  | announced => 3
  | checksum => 4
  | payload => 5

/-- The length of the payload that the header announces. It is read off the bytes 12 to 16 whether
the blob has them or not. -/
def announcedLength (bytes : List UInt8) : Nat :=
  LittleEndian.value (slice bytes 12 16)

/-- The announced part of the bytes behind the header. If fewer are there, it is all of them, and
the stage before the checksum has failed. -/
def announcedPart (bytes : List UInt8) : List UInt8 :=
  (bytes.drop headerLength).take (announcedLength bytes)

/-- What makes a stage fail, and the error. Each case is stated of the bytes alone and does not
assume that the stages before it pass, so that several may fail at once. -/
inductive Fails (bytes : List UInt8) : Stage → BlobError → Prop
  | size (h : bytes.length < headerLength) :
    Fails bytes .size (.truncated headerLength bytes.length)
  | letters (h : slice bytes 0 4 ≠ magic) : Fails bytes .letters .badMagic
  | layout (h : LittleEndian.value (slice bytes 4 6) ≠ layoutVersion) :
    Fails bytes .layout (.incompatibleLayout (LittleEndian.value (slice bytes 4 6)))
  | announced (h : (bytes.drop headerLength).length < announcedLength bytes) :
    Fails bytes .announced
      (.truncated (announcedLength bytes) (bytes.drop headerLength).length)
  | checksum (h : checksum (announcedPart bytes) ≠ slice bytes 16 32) :
    Fails bytes .checksum .digestMismatch
  | payload {e : Wire.DecodeError} (h : Payload.decode (announcedPart bytes) = .error e) :
    Fails bytes .payload (.payload e)

/-- Whether an error is that of the first stage that fails. It is said by the rank and over all
stages, and so does not repeat the sequence of checks. -/
def IsFirst (bytes : List UInt8) (e : BlobError) : Prop :=
  ∃ stage, Fails bytes stage e ∧ ∀ other e', Fails bytes other e' → stage.rank ≤ other.rank

/-- If a stage fails, there is a first, since the ranks are natural numbers. Its error may be
another than the given one. -/
theorem exists_isFirst {bytes : List UInt8} {stage : Stage} {e : BlobError}
    (h : Fails bytes stage e) : ∃ first, IsFirst bytes first := by
  obtain ⟨least, ⟨first, hfirst⟩, hmin⟩ :=
    Result.exists_least Stage.rank (p := fun other => ∃ e', Fails bytes other e') ⟨e, h⟩
  exact ⟨first, least, hfirst, fun other e' hother => hmin other ⟨e', hother⟩⟩

/-- The checks of the header, one after the other. It is the definition with its steps written as
branches, in which the named parts can be rewritten. -/
theorem unwrap_eq (bytes : List UInt8) :
    unwrap bytes =
      if bytes.length < headerLength then .error (.truncated headerLength bytes.length)
      else if slice bytes 0 4 ≠ magic then .error .badMagic
      else if LittleEndian.value (slice bytes 4 6) ≠ layoutVersion then
        .error (.incompatibleLayout (LittleEndian.value (slice bytes 4 6)))
      else if (bytes.drop headerLength).length < announcedLength bytes then
        .error (.truncated (announcedLength bytes) (bytes.drop headerLength).length)
      else if checksum (announcedPart bytes) ≠ slice bytes 16 32 then .error .digestMismatch
      else .ok (announcedPart bytes) := rfl

/-- The checks of the header and the decoder, one after the other. Each branch is a stage, so the
two directions of `readPayload_eq_error_iff` go through them in this order. -/
theorem readPayload_eq (bytes : List UInt8) :
    readPayload bytes =
      if bytes.length < headerLength then .error (.truncated headerLength bytes.length)
      else if slice bytes 0 4 ≠ magic then .error .badMagic
      else if LittleEndian.value (slice bytes 4 6) ≠ layoutVersion then
        .error (.incompatibleLayout (LittleEndian.value (slice bytes 4 6)))
      else if (bytes.drop headerLength).length < announcedLength bytes then
        .error (.truncated (announcedLength bytes) (bytes.drop headerLength).length)
      else if checksum (announcedPart bytes) ≠ slice bytes 16 32 then .error .digestMismatch
      else (Payload.decode (announcedPart bytes)).mapError .payload := by
  rw [readPayload, unwrap_eq]
  split_ifs <;> rfl

/-- The error that is reported is that of a stage that fails. It does not say yet that it is the
first, which `readPayload_of_first` adds. -/
theorem fails_of_readPayload {bytes : List UInt8} {e : BlobError}
    (h : readPayload bytes = .error e) : ∃ stage, Fails bytes stage e := by
  rw [readPayload_eq] at h
  split at h
  · cases h
    exact ⟨_, .size ‹_›⟩
  split at h
  · cases h
    exact ⟨_, .letters ‹_›⟩
  split at h
  · cases h
    exact ⟨_, .layout ‹_›⟩
  split at h
  · cases h
    exact ⟨_, .announced ‹_›⟩
  split at h
  · cases h
    exact ⟨_, .checksum ‹_›⟩
  obtain ⟨e', hdecode, rfl⟩ := Result.mapError_eq_error_iff.1 h
  exact ⟨_, .payload hdecode⟩

/-- The error of the first stage that fails is reported. The stages of lower rank pass, so their
branches are not taken, and that of the stage itself is. -/
theorem readPayload_of_first {bytes : List UInt8} {e : BlobError} (h : IsFirst bytes e) :
    readPayload bytes = .error e := by
  obtain ⟨stage, hfails, hfirst⟩ := h
  have hpasses : ∀ other e', other.rank < stage.rank → ¬ Fails bytes other e' :=
    fun other e' hlt hother => Nat.not_le_of_lt hlt (hfirst other e' hother)
  -- Each test passes if it comes before the stage that fails first.
  have hsize : 0 < stage.rank → ¬ bytes.length < headerLength :=
    fun hr hlt => hpasses .size _ hr (.size hlt)
  have hletters : 1 < stage.rank → ¬ slice bytes 0 4 ≠ magic :=
    fun hr hne => hpasses .letters _ hr (.letters hne)
  have hlayout : 2 < stage.rank → ¬ LittleEndian.value (slice bytes 4 6) ≠ layoutVersion :=
    fun hr hne => hpasses .layout _ hr (.layout hne)
  have hannounced :
      3 < stage.rank → ¬ (bytes.drop headerLength).length < announcedLength bytes :=
    fun hr hlt => hpasses .announced _ hr (.announced hlt)
  have hchecksum : 4 < stage.rank → ¬ checksum (announcedPart bytes) ≠ slice bytes 16 32 :=
    fun hr hne => hpasses .checksum _ hr (.checksum hne)
  rw [readPayload_eq]
  cases hfails with
  | size hlt => exact if_pos hlt
  | letters hne => rw [if_neg (hsize (by simp)), if_pos hne]
  | layout hne => rw [if_neg (hsize (by simp)), if_neg (hletters (by simp)), if_pos hne]
  | announced hlt =>
    rw [if_neg (hsize (by simp)), if_neg (hletters (by simp)), if_neg (hlayout (by simp)),
      if_pos hlt]
  | checksum hne =>
    rw [if_neg (hsize (by simp)), if_neg (hletters (by simp)), if_neg (hlayout (by simp)),
      if_neg (hannounced (by simp)), if_pos hne]
  | payload hdecode =>
    rw [if_neg (hsize (by simp)), if_neg (hletters (by simp)), if_neg (hlayout (by simp)),
      if_neg (hannounced (by simp)), if_neg (hchecksum (by simp)), hdecode]
    rfl

/-- No payload is read if and only if a stage fails, and the error is that of the first. There is
one first stage, so this determines the error. -/
theorem readPayload_eq_error_iff {bytes : List UInt8} {e : BlobError} :
    readPayload bytes = .error e ↔ IsFirst bytes e := by
  refine ⟨fun h => ?_, readPayload_of_first⟩
  obtain ⟨stage, hfails⟩ := fails_of_readPayload h
  obtain ⟨first, hfirst⟩ := exists_isFirst hfails
  obtain rfl : first = e := Except.error.inj ((readPayload_of_first hfirst).symm.trans h)
  exact hfirst

/-! ### Bytes that no stage reads -/

/-- The bytes with another field between the layout and the length, and with more at their end. The
field stands for the version of the writer and the reserved bytes. -/
def overwrite (bytes field rest : List UInt8) : List UInt8 :=
  bytes.take 6 ++ field ++ bytes.drop 12 ++ rest

/-- A field that ends in the front of a blob is found there. It is used for the letters and the
layout, before the bytes that are overwritten. -/
theorem slice_append_of_le {front rest : List UInt8} {start stop : Nat}
    (h : stop ≤ front.length) : slice (front ++ rest) start stop = slice front start stop := by
  rw [slice, slice, List.drop_append, List.take_append_of_le_length]
  rw [List.length_drop]
  omega

/-- A field that begins behind the front of a blob is found behind another front of the same length
as well. -/
theorem slice_append_of_ge {front front' rest : List UInt8} {start stop : Nat}
    (hlength : front'.length = front.length) (h : front.length ≤ start) :
    slice (front' ++ rest) start stop = slice (front ++ rest) start stop := by
  rw [slice, slice, List.drop_append, List.drop_append, List.drop_eq_nil_of_le h,
    List.drop_eq_nil_of_le (hlength ▸ h), hlength]

/-- The fields before what is overwritten are kept, as they end at offset 6 or earlier. These are
the letters and the layout. -/
theorem slice_overwrite_of_le {bytes field rest : List UInt8} (hlong : headerLength ≤ bytes.length)
    {start stop : Nat} (hstop : stop ≤ 6) :
    slice (overwrite bytes field rest) start stop = slice bytes start stop := by
  have hfront : stop ≤ (bytes.take 6).length := by
    rw [List.length_take]
    have hsize : 32 ≤ bytes.length := hlong
    omega
  rw [overwrite, List.append_assoc, List.append_assoc, slice_append_of_le hfront]
  conv_rhs => rw [← List.take_append_drop 6 bytes, slice_append_of_le hfront]

section

variable {bytes field : List UInt8} (hfield : field.length = 6)
  (hlong : headerLength ≤ bytes.length) (rest : List UInt8)

include hfield hlong

/-- What is overwritten has the length of what was there, so the offsets of all that follows stay
the same. -/
theorem length_take_append_field : (bytes.take 6 ++ field).length = 12 := by
  rw [List.length_append, List.length_take, hfield]
  have hsize : 32 ≤ bytes.length := hlong
  omega

/-- The fields behind what is overwritten are kept, from offset 12 to the end of the header. These
are the length and the checksum. -/
theorem slice_overwrite_of_ge {start stop : Nat} (hstart : 12 ≤ start) (hstop : stop ≤ 32) :
    slice (overwrite bytes field rest) start stop = slice bytes start stop := by
  have hcut := length_take_append_field hfield hlong
  have hsize : 32 ≤ bytes.length := hlong
  have htwelve : (bytes.take 12).length = 12 := List.length_take_of_le (by omega)
  have hstop : stop ≤ (bytes.take 6 ++ field ++ bytes.drop 12).length := by
    rw [List.length_append, hcut, List.length_drop]
    omega
  rw [overwrite, slice_append_of_le hstop,
    slice_append_of_ge (hcut.trans htwelve.symm) (htwelve.trans_le hstart),
    List.take_append_drop]

/-- The payload follows the header as before, and the bytes that are added stand behind all of
it. -/
theorem drop_overwrite :
    (overwrite bytes field rest).drop headerLength = bytes.drop headerLength ++ rest := by
  have hcut := length_take_append_field hfield hlong
  have hsize : 32 ≤ bytes.length := hlong
  have hnil : (bytes.take 6 ++ field).drop headerLength = [] :=
    List.drop_eq_nil_of_le (by rw [hcut]; decide)
  rw [overwrite, List.append_assoc, List.drop_append, hnil, hcut, List.nil_append,
    List.drop_append_of_le_length, List.drop_drop]
  · rfl
  · rw [List.length_drop]
    show 32 - 12 ≤ _
    omega

theorem announcedLength_overwrite :
    announcedLength (overwrite bytes field rest) = announcedLength bytes := by
  rw [announcedLength, slice_overwrite_of_ge hfield hlong rest (by decide) (by decide)]
  rfl

/-- If the announced part is there, it is not moved and nothing is added to it. Otherwise the added
bytes could complete it, which is why a blob with missing bytes is excluded. -/
theorem announcedPart_overwrite
    (hpresent : announcedLength bytes ≤ (bytes.drop headerLength).length) :
    announcedPart (overwrite bytes field rest) = announcedPart bytes := by
  rw [announcedPart, announcedLength_overwrite hfield hlong, drop_overwrite hfield hlong,
    List.take_append_of_le_length hpresent]
  rfl

end

/-- What is not read has no influence, unless bytes are missing. The hypothesis says that unwrapping
does not ask for more, for then the header is whole and the announced bytes are there. -/
theorem unwrap_overwrite {bytes field : List UInt8} (hfield : field.length = 6)
    (h : ∀ needed present, unwrap bytes ≠ .error (.truncated needed present))
    (rest : List UInt8) : unwrap (overwrite bytes field rest) = unwrap bytes := by
  have hsize : ¬ bytes.length < headerLength := fun hlt => h _ _ (unwrap_of_length_lt hlt)
  have hlong : headerLength ≤ bytes.length := Nat.le_of_not_lt hsize
  have hbody := drop_overwrite hfield hlong rest
  have hsize' : ¬ (overwrite bytes field rest).length < headerLength := by
    rw [overwrite, List.length_append, List.length_append, length_take_append_field hfield hlong,
      List.length_drop]
    show ¬ _ < 32
    have : 32 ≤ bytes.length := hlong
    omega
  rw [unwrap_eq, unwrap_eq bytes, slice_overwrite_of_le hlong (by decide),
    slice_overwrite_of_le hlong (by decide),
    slice_overwrite_of_ge hfield hlong rest (by decide) (by decide),
    announcedLength_overwrite hfield hlong, if_neg hsize, if_neg hsize']
  refine ite_congr rfl (fun _ => rfl) fun hletters => ite_congr rfl (fun _ => rfl) fun hlayout => ?_
  -- No other stage before this one fails, so the announced bytes are not missing.
  have hpresent : ¬ (bytes.drop headerLength).length < announcedLength bytes := by
    intro hlt
    refine h (announcedLength bytes) (bytes.drop headerLength).length ?_
    rw [unwrap_eq, if_neg hsize, if_neg hletters, if_neg hlayout, if_pos hlt]
  have hpresent' : ¬ ((overwrite bytes field rest).drop headerLength).length
      < announcedLength bytes := by
    rw [hbody, List.length_append]
    omega
  rw [if_neg hpresent, if_neg hpresent',
    announcedPart_overwrite hfield hlong rest (Nat.le_of_not_lt hpresent)]

/-! ### The two readers -/

/-- Loading fails with another error than that of an invalid payload just if no payload is read, and
the error is the same. -/
theorem ofBlob_eq_error_iff {bytes : List UInt8} {e : BlobError} (he : ∀ f, e ≠ .invalid f) :
    Chain.ofBlob bytes = .error e ↔ readPayload bytes = .error e := by
  rw [Chain.ofBlob, Result.bind_eq_error_iff]
  refine or_iff_left ?_
  rintro ⟨p, -, h⟩
  obtain ⟨f, -, rfl⟩ := Result.mapError_eq_error_iff.1 h
  exact he f rfl

/-- The comparison fails just if no payload is read. Whether the payload is valid is not asked, as
the chain is not needed. -/
theorem matchesSource_eq_error_iff {bytes : List UInt8} {source : String} {e : BlobError} :
    matchesSource bytes source = .error e ↔ readPayload bytes = .error e := by
  rw [matchesSource, Result.bind_eq_error_iff]
  refine or_iff_left ?_
  rintro ⟨p, -, h⟩
  cases h

/-- No stage reports an invalid payload, since this is told only of a payload that was decoded. So
the two sorts of errors do not overlap. -/
theorem Fails.ne_invalid {bytes : List UInt8} {stage : Stage} {e : BlobError}
    (h : Fails bytes stage e) (f : Fault) : e ≠ .invalid f := by
  rintro rfl
  cases h

/-- The comparison fails where loading fails for something else than an invalid payload, and with
the same error. -/
theorem matchesSource_eq_error_iff_ofBlob {bytes : List UInt8} {source : String} {e : BlobError} :
    matchesSource bytes source = .error e ↔
      Chain.ofBlob bytes = .error e ∧ ∀ f, e ≠ .invalid f := by
  rw [matchesSource_eq_error_iff]
  constructor
  · intro h
    obtain ⟨stage, hfails⟩ := fails_of_readPayload h
    exact ⟨(ofBlob_eq_error_iff hfails.ne_invalid).2 h, hfails.ne_invalid⟩
  · exact fun ⟨h, he⟩ => (ofBlob_eq_error_iff he).1 h

/-- The comparison succeeds where loading succeeds or the payload is invalid. The blob of a refused
chain can thus still be told to be current. -/
theorem exists_matchesSource_eq_ok_iff {bytes : List UInt8} {source : String} :
    (∃ b, matchesSource bytes source = .ok b) ↔
      (∃ c, Chain.ofBlob bytes = .ok c) ∨ ∃ f, Chain.ofBlob bytes = .error (.invalid f) := by
  cases hread : readPayload bytes with
  | error e =>
    obtain ⟨hload, hmatch⟩ := refused_of_readPayload hread
    obtain ⟨stage, hfails⟩ := fails_of_readPayload hread
    rw [hload, hmatch source]
    refine iff_of_false (fun ⟨b, hb⟩ => nomatch hb) ?_
    rintro (⟨c, hc⟩ | ⟨f, hf⟩)
    · cases hc
    · exact hfails.ne_invalid f (Except.error.inj hf)
  | ok p =>
    refine iff_of_true ⟨_, by rw [matchesSource, hread]; rfl⟩ ?_
    rw [ofBlob_of_readPayload hread]
    cases p.toChain with
    | ok c => exact .inl ⟨c, rfl⟩
    | error f => exact .inr ⟨f, rfl⟩

/-- What both readers make of a blob depends only on what is unwrapped. With `unwrap_overwrite` the
bytes that no stage reads are left out for both. -/
theorem readPayload_congr {bytes other : List UInt8} (h : unwrap other = unwrap bytes) :
    Chain.ofBlob other = Chain.ofBlob bytes ∧
      ∀ source, matchesSource other source = matchesSource bytes source := by
  have hread : readPayload other = readPayload bytes := by
    rw [readPayload, readPayload, h]
  refine ⟨?_, fun source => ?_⟩
  · rw [Chain.ofBlob, Chain.ofBlob, hread]
  · rw [matchesSource, matchesSource, hread]

/-- The two readers agree on all bytes. The source is compared unless the chain is refused for
something else than an invalid payload, and then the error is the same. That error is the one of the
first stage that fails. The fields that no stage reads and the bytes at the end have no influence on
either reader, unless bytes are missing. -/
theorem readers_agree (bytes : List UInt8) :
    (∀ source e, matchesSource bytes source = .error e ↔
      Chain.ofBlob bytes = .error e ∧ ∀ f, e ≠ .invalid f) ∧
    (∀ source, (∃ b, matchesSource bytes source = .ok b) ↔
      (∃ c, Chain.ofBlob bytes = .ok c) ∨ ∃ f, Chain.ofBlob bytes = .error (.invalid f)) ∧
    (∀ e, (∀ f, e ≠ .invalid f) → (Chain.ofBlob bytes = .error e ↔ IsFirst bytes e)) ∧
    ((∀ needed present, Chain.ofBlob bytes ≠ .error (.truncated needed present)) →
      ∀ field rest, field.length = 6 →
        Chain.ofBlob (overwrite bytes field rest) = Chain.ofBlob bytes ∧
          ∀ source, matchesSource (overwrite bytes field rest) source
            = matchesSource bytes source) := by
  refine ⟨fun source e => matchesSource_eq_error_iff_ofBlob,
    fun source => exists_matchesSource_eq_ok_iff, fun e he => ?_, fun h field rest hfield => ?_⟩
  · rw [ofBlob_eq_error_iff he, readPayload_eq_error_iff]
  · -- Missing bytes would be noticed by the header.
    have hunwrap : ∀ needed present, unwrap bytes ≠ .error (.truncated needed present) :=
      fun needed present hmissing => h needed present (refused_of_unwrap hmissing).1
    exact readPayload_congr (unwrap_overwrite hfield hunwrap rest)

/-- A blob that records no source and has no entry. Its payload is decoded and then refused, so it
tells the two readers apart. -/
def withoutEntries : List UInt8 :=
  [0x55, 0x4D, 0x46, 0x4C, 0x01, 0x00, 0x01, 0x00, 0x00, 0x00, 0x00, 0x00, 0x03, 0x00, 0x00, 0x00,
    0x91, 0x52, 0x5F, 0xF0, 0x0A, 0x37, 0x55, 0xA8, 0xDF, 0x93, 0xC6, 0x26, 0xB5, 0x9F, 0x6E, 0x36,
    0x00, 0x00, 0x00]

/-- The source of a blob without an entry is compared all the same. A later writer and one more byte
make no difference to its refusal. Of 32 zeros the letters are reported, though the layout and the
checksum are wrong as well. -/
theorem readers_agree_no_rules :
    Chain.ofBlob withoutEntries = .error (.invalid .noRules) ∧
    (∃ b, matchesSource withoutEntries "" = .ok b) ∧
    Chain.ofBlob (overwrite withoutEntries [0x02, 0x00, 0xFF, 0xFF, 0xFF, 0xFF] [0x07])
      = .error (.invalid .noRules) ∧
    IsFirst (List.replicate 32 0) .badMagic := by
  have h : Chain.ofBlob withoutEntries = .error (.invalid .noRules) := by
    decide +kernel
  obtain ⟨-, hcompared, -, hunread⟩ := readers_agree withoutEntries
  obtain ⟨-, -, hfirst, -⟩ := readers_agree (List.replicate 32 0)
  have hother := (hunread (fun needed present => by rw [h]; simp)
    [0x02, 0x00, 0xFF, 0xFF, 0xFF, 0xFF] [0x07] rfl).1
  have hletters := (hfirst .badMagic (by simp)).1 (by decide)
  exact ⟨h, (hcompared "").2 (.inr ⟨_, h⟩), hother.trans h, hletters⟩

end ClassFilter.Blob
