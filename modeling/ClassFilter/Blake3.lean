import ClassFilter.LittleEndian

/-!
# `ClassFilter.Blake3`: the BLAKE3 hash

The plain hash, without a key, of 32 bytes. The input is cut into chunks of 1024 bytes
and each chunk into blocks of 64. The blocks of a chunk are compressed one after
another. The chunks are the leaves of a binary tree in which every left subtree is
full, and the last compression, at the root, gives the hash.

Nothing else in the library looks inside `hash`: all it needs is that equal inputs give
equal results of 32 bytes.
-/

set_option autoImplicit false

namespace ClassFilter

/-- Thirty-two bytes that stand for a text or a byte string. The length is a part of the type, so a
stored hash has no length of its own. -/
abbrev Digest := { bytes : List UInt8 // bytes.length = 32 }

namespace Blake3

/-- The eight words carried from one compression to the next. A subtree is represented by those of
its root. -/
abbrev Chaining := Vector UInt32 8

/-- The sixteen words of a block, or of the state of a compression. Mixing addresses them by index,
which is in range by type. -/
abbrev Block := Vector UInt32 16

/-- The chaining value before the first block, which is also that of every parent. The second half
of a compression's state begins with four of these words. -/
def start : Chaining :=
  #v[0x6A09E667, 0xBB67AE85, 0x3C6EF372, 0xA54FF53A,
    0x510E527F, 0x9B05688C, 0x1F83D9AB, 0x5BE0CD19]

/-- Marks the first block of a chunk. A chunk of one block has this mark and that of its last
block. -/
def chunkStart : UInt32 := 1

/-- Marks the last block of a chunk, so that a chunk is not taken for the beginning of a longer
one. -/
def chunkEnd : UInt32 := 2

/-- Marks the block of a parent node, so that two chaining values are not taken for the text of a
chunk. -/
def parentBlock : UInt32 := 4

/-- Marks the last compression of all. It is added when the whole tree is known, and no other
compression has it. -/
def rootBlock : UInt32 := 8

/-- The words of a block in the order in which the next round takes them. Each round takes all
sixteen. -/
def permute (m : Block) : Block :=
  #v[m[2], m[6], m[3], m[10], m[7], m[0], m[4], m[13],
    m[1], m[11], m[12], m[5], m[9], m[14], m[15], m[8]]

/-- The word turned right by `n` bits. The rounds turn by 16, 12, 8 and 7 only, so no count is zero
or too large. -/
def rotateRight (x n : UInt32) : UInt32 :=
  (x >>> n) ||| (x <<< (32 - n))

/-- Mixes two words of the block into four of the state. Additions wrap around at 32 bits. -/
def mix (v : Block) (a b c d : Fin 16) (x y : UInt32) : Block :=
  let va := v[a] + v[b] + x
  let vd := rotateRight (v[d] ^^^ va) 16
  let vc := v[c] + vd
  let vb := rotateRight (v[b] ^^^ vc) 12
  let va := va + vb + y
  let vd := rotateRight (vd ^^^ va) 8
  let vc := vc + vd
  let vb := rotateRight (vb ^^^ vc) 7
  (((v.set a va).set b vb).set c vc).set d vd

/-- Mixes a whole block into the columns and then the diagonals of the state. The eight pairs of
words are taken in order. -/
def round (v m : Block) : Block :=
  let v := mix v 0 4 8 12 m[0] m[1]
  let v := mix v 1 5 9 13 m[2] m[3]
  let v := mix v 2 6 10 14 m[4] m[5]
  let v := mix v 3 7 11 15 m[6] m[7]
  let v := mix v 0 5 10 15 m[8] m[9]
  let v := mix v 1 6 11 12 m[10] m[11]
  let v := mix v 2 7 8 13 m[12] m[13]
  mix v 3 4 9 14 m[14] m[15]

/-- So many rounds, with the block permuted between one and the next. A compression has seven. -/
def rounds : Nat → Block → Block → Block
  | 0, v, _ => v
  | n + 1, v, m => rounds n (round v m) (permute m)

/-- A compression that is still to be done: what it takes in, but for the mark of the root, which is
known only at the end. -/
structure Node where
  chaining : Chaining
  block : Block
  counter : UInt64
  length : UInt32
  flags : UInt32

/-- The compression with these marks added. Of the state after the rounds the two halves are
combined, which gives the first eight words of the output. -/
def Node.compress (n : Node) (marks : UInt32) : Chaining :=
  let h := n.chaining
  let v : Block :=
    #v[h[0], h[1], h[2], h[3], h[4], h[5], h[6], h[7],
      start[0], start[1], start[2], start[3],
      n.counter.toUInt32, (n.counter >>> 32).toUInt32, n.length, n.flags ||| marks]
  let w := rounds 7 v n.block
  #v[w[0] ^^^ w[8], w[1] ^^^ w[9], w[2] ^^^ w[10], w[3] ^^^ w[11],
    w[4] ^^^ w[12], w[5] ^^^ w[13], w[6] ^^^ w[14], w[7] ^^^ w[15]]

/-- The words of at most 64 bytes. Missing bytes are zero; how many there were is an input of the
compression of its own. -/
def blockOf (bytes : List UInt8) : Block :=
  Vector.ofFn fun i => UInt32.ofNat (LittleEndian.value ((bytes.drop (4 * i)).take 4))

/-- The first `size` bytes, the next `size` bytes and so on, `count` times. The recursion is on the
count, so it is structural. -/
def pieces (size : Nat) : Nat → List UInt8 → List (List UInt8)
  | 0, _ => []
  | count + 1, bytes => bytes.take size :: pieces size count (bytes.drop size)

/-- All of a byte list in pieces of one size, of which the last may be shorter. The empty list has
no piece, so a chunk without bytes gets its one block from `chunkNode`. -/
def cut (size : Nat) (bytes : List UInt8) : List (List UInt8) :=
  pieces size ((bytes.length + size - 1) / size) bytes

/-- The last compression of a chunk. Those of the blocks before it are done, because only the last
of all may get the mark of the root. -/
def chunkFrom (counter : UInt64) (chaining : Chaining) (flags : UInt32) (block : List UInt8) :
    List (List UInt8) → Node
  | [] => ⟨chaining, blockOf block, counter, UInt32.ofNat block.length, flags ||| chunkEnd⟩
  | next :: rest =>
    let done : Node := ⟨chaining, blockOf block, counter, UInt32.ofNat block.length, flags⟩
    chunkFrom counter (done.compress 0) 0 next rest

/-- The node of a chunk of at most 1024 bytes. Its place among the chunks is an input of every
compression in it. -/
def chunkNode (index : Nat) (bytes : List UInt8) : Node :=
  match cut 64 bytes with
  | [] => chunkFrom (UInt64.ofNat index) start chunkStart [] []
  | block :: rest => chunkFrom (UInt64.ofNat index) start chunkStart block rest

/-- The node above two subtrees. Its block is their chaining values, and its own chaining value
begins anew. -/
def parentNode (left right : Chaining) : Node :=
  ⟨start, (left ++ right).cast rfl, 0, 64, parentBlock⟩

/-- Lays a finished subtree on the stack of full subtrees, smallest on top. `count` numbers the
subtrees of its size, itself included: an even one completes a subtree of twice the size with the
one on top. -/
def lay : List Chaining → Chaining → Nat → List Chaining
  | [], right, _ => [right]
  | left :: stack, right, count =>
    if count % 2 = 0 then lay stack ((parentNode left right).compress 0) (count / 2)
    else right :: left :: stack

/-- The root's node, given the stack of the chunks before, and the chunks that are left, of which
`chunk` is the first. The last chunk is joined with what is on the stack, from the top down. -/
def rootFrom (stack : List Chaining) (index : Nat) (chunk : List UInt8) :
    List (List UInt8) → Node
  | [] =>
    stack.foldl (fun right left => parentNode left (right.compress 0)) (chunkNode index chunk)
  | next :: rest =>
    rootFrom (lay stack ((chunkNode index chunk).compress 0) (index + 1)) (index + 1) next rest

/-- The bytes of a chaining value, each word least significant byte first. There are thirty-two of
them, which is what a hash has. -/
def bytesOf (c : Chaining) : List UInt8 :=
  c.toList.flatMap fun w => LittleEndian.bytes 4 w.toNat

theorem length_bytesOf (c : Chaining) : (bytesOf c).length = 32 := by
  simp [bytesOf, List.length_flatMap, List.map_const']

/-- The root's node of a byte string. One chunk is its own root; of several the root is above all of
them. -/
def rootOf (bytes : List UInt8) : Node :=
  match cut 1024 bytes with
  | [] => rootFrom [] 0 [] []
  | chunk :: rest => rootFrom [] 0 chunk rest

/-- The hash of a byte string. A header holds half of that of its payload, and a payload that of its
specification. -/
def hash (bytes : List UInt8) : Digest :=
  ⟨bytesOf ((rootOf bytes).compress rootBlock), length_bytesOf _⟩

end Blake3

end ClassFilter
