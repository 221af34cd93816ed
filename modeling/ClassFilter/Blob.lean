import ClassFilter.IoFault
import ClassFilter.Payload.Fault

/-!
# `ClassFilter.Blob`: chains kept as bytes

A blob is a header of 32 bytes and a payload:

    0..4    the letters UMFL
    4..6    version of the layout
    6..8    version of the writer, not read
    8..12   zero, not read
    12..16  length of the payload
    16..32  the first 16 bytes of the payload's hash
    32..    the payload

All numbers are little-endian. `unwrap` checks the header and hands out the payload.
Bytes after the announced payload do not matter.
-/

set_option autoImplicit false

namespace ClassFilter

/-- Why no chain came from a blob: the header is not one that can be read, the payload is not the
one that the header vouches for, it cannot be decoded, it makes no chain, or the file could not be
read. `truncated` has the number of bytes that are needed, for the header or as announced, and how
many there are. -/
inductive BlobError where
  | badMagic
  | incompatibleLayout (found : Nat)
  | digestMismatch
  | truncated (needed present : Nat)
  | payload (e : Wire.DecodeError)
  | invalid (fault : Fault)
  | unreadable (fault : IoFault)
deriving DecidableEq, Repr

/-- Why a chain was not kept. A chain has a blob unless its payload is too long, so what goes wrong
is mostly the writing of the file. -/
structure StoreError where
  fault : IoFault
deriving DecidableEq, Repr

/-- The error in words, which says that it was about writing and not about reading. -/
def StoreError.message (e : StoreError) : String :=
  "cannot write filter blob: " ++ e.fault.message

namespace Blob

/-- The letters UMFL, which begin every blob. They are looked at before any other field. -/
def magic : List UInt8 := [0x55, 0x4D, 0x46, 0x4C]

/-- The layout that this library writes and reads. A blob of another layout is refused before its
length and checksum are looked at. -/
def layoutVersion : Nat := 1

/-- The version that this library writes for information. No reader looks at it. -/
def writerVersion : Nat := 1

/-- The length of a header, whatever the payload is. Fewer bytes are no header, and not even the
letters are looked at. -/
def headerLength : Nat := 32

/-- The part of a payload's hash that the header holds, which is its first half. -/
def checksum (payload : List UInt8) : List UInt8 :=
  (Blake3.hash payload).val.take 16

/-- The bytes of a blob from one offset up to another. Where the blob ends too early the slice is
shorter. -/
def slice (bytes : List UInt8) (start stop : Nat) : List UInt8 :=
  (bytes.drop start).take (stop - start)

/-- The header of a payload: letters, layout, writer, four bytes that are reserved, length, and
checksum. Numbers are least significant byte first. -/
def header (payload : List UInt8) : List UInt8 :=
  magic ++ LittleEndian.bytes 2 layoutVersion ++ LittleEndian.bytes 2 writerVersion ++
    LittleEndian.bytes 4 0 ++ LittleEndian.bytes 4 payload.length ++ checksum payload

/-- The payload with its header, if the header can announce its length. This is the only way in
which making a blob can fail. -/
def wrap (payload : List UInt8) : Except StoreError (List UInt8) :=
  if payload.length < 0x100000000 then .ok (header payload ++ payload)
  else .error ⟨.payloadTooLarge⟩

end Blob

/-- The error in words. What went wrong with the payload or the chain in it is said in their own
words. -/
def BlobError.message : BlobError → String
  | .badMagic => "not a filter blob: magic bytes differ"
  | .incompatibleLayout found =>
    "filter blob layout v" ++ toString found ++ " is not readable by this build (expects v" ++
      toString Blob.layoutVersion ++ ")"
  | .digestMismatch => "filter blob is corrupt: payload digest differs"
  | .truncated needed present =>
    "filter blob is truncated: need " ++ toString needed ++ " bytes, have " ++ toString present
  | .payload e => "cannot decode filter payload: " ++ e.message
  | .invalid fault => "filter blob holds an invalid chain: " ++ fault.message
  | .unreadable fault => "cannot read filter blob: " ++ fault.message

namespace Blob

/-- The payload that the header vouches for. The tests are made in a fixed order: letters, layout,
announced length, checksum. Bytes after the payload are ignored. -/
def unwrap (bytes : List UInt8) : Except BlobError (List UInt8) :=
  if bytes.length < headerLength then
    .error (.truncated headerLength bytes.length)
  else if slice bytes 0 4 ≠ magic then
    .error .badMagic
  else
    let layout := LittleEndian.value (slice bytes 4 6)
    if layout ≠ layoutVersion then
      .error (.incompatibleLayout layout)
    else
      let announced := LittleEndian.value (slice bytes 12 16)
      let body := bytes.drop headerLength
      if body.length < announced then
        .error (.truncated announced body.length)
      else if checksum (body.take announced) ≠ slice bytes 16 32 then
        .error .digestMismatch
      else
        .ok (body.take announced)

/-- The payload of a blob, read but not judged. Both readers of blobs begin with this, so they
report the same errors up to here. -/
def readPayload (bytes : List UInt8) : Except BlobError Payload := do
  let payload ← unwrap bytes
  (Payload.decode payload).mapError .payload

/-- Whether the blob records exactly this specification as its source. The chain in the blob is not
judged, so the answer is given for a blob that holds no valid chain as well. -/
def matchesSource (bytes : List UInt8) (source : String) : Except BlobError Bool := do
  let payload ← readPayload bytes
  return payload.sourceDigest == some (Payload.digestOf source)

end Blob

namespace Chain

/-- The chain as a blob. A source is recorded by its hash, and nothing is asked about whether the
chain comes from it. -/
def toBlob (c : Chain) (source : Option String) : Except StoreError (List UInt8) :=
  Blob.wrap (Payload.ofChain c source).write

/-- The chain of a blob. The payload is judged after it was read to its end, so faults of its
content are reported last. -/
def ofBlob (bytes : List UInt8) : Except BlobError Chain := do
  let payload ← Blob.readPayload bytes
  payload.toChain.mapError .invalid

/-- The chain of a blob file, given what reading the file gave. A file that cannot be read is an
error of its own kind. -/
def ofBlobFile (content : Except IoFault (List UInt8)) : Except BlobError Chain := do
  let bytes ← content.mapError .unreadable
  ofBlob bytes

/-- The chain as a blob file. `store` writes the bytes, or says why it cannot. A payload that is too
long is found before anything is written. -/
def toBlobFile {α : Type} (c : Chain) (source : Option String)
    (store : List UInt8 → Except IoFault α) : Except StoreError α := do
  let bytes ← c.toBlob source
  (store bytes).mapError StoreError.mk

end Chain

end ClassFilter
