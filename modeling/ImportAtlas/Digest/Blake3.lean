import ImportAtlas.Bytes.Word

/-!
# BLAKE3

The 32-byte BLAKE3 digest of a byte string. The input is cut into chunks of 1024
bytes, each chunk into blocks of 64. The blocks of a chunk are compressed in
sequence, and chunks are joined in a binary tree whose left halves are full.
-/

namespace ImportAtlas.Blake3

def chunkSize : Nat := 1024

def blockSize : Nat := 64

/-- The words a chaining value starts from. -/
def initial : Array UInt32 :=
  #[0x6a09e667, 0xbb67ae85, 0x3c6ef372, 0xa54ff53a, 0x510e527f, 0x9b05688c, 0x1f83d9ab, 0x5be0cd19]

/-- How the message words move between rounds. -/
def permutation : List Nat := [2, 6, 3, 10, 7, 0, 4, 13, 1, 11, 12, 5, 9, 14, 15, 8]

def chunkStart : UInt32 := 1

def chunkEnd : UInt32 := 2

def parentFlag : UInt32 := 4

def rootFlag : UInt32 := 8

def rotateRight (x : UInt32) (count : UInt32) : UInt32 :=
  (x >>> count) ||| (x <<< (32 - count))

/-- Mixes two message words into four words of the state. -/
def mix (state : Array UInt32) (a b c d : Nat) (x y : UInt32) : Array UInt32 :=
  let va := state.getD a 0 + state.getD b 0 + x
  let vd := rotateRight (state.getD d 0 ^^^ va) 16
  let vc := state.getD c 0 + vd
  let vb := rotateRight (state.getD b 0 ^^^ vc) 12
  let va := va + vb + y
  let vd := rotateRight (vd ^^^ va) 8
  let vc := vc + vd
  let vb := rotateRight (vb ^^^ vc) 7
  (((state.setIfInBounds a va).setIfInBounds b vb).setIfInBounds c vc).setIfInBounds d vd

/-- Mixes all message words in, down the columns and then along the diagonals. -/
def round (state message : Array UInt32) : Array UInt32 :=
  let word (i : Nat) := message.getD i 0
  let state := mix state 0 4 8 12 (word 0) (word 1)
  let state := mix state 1 5 9 13 (word 2) (word 3)
  let state := mix state 2 6 10 14 (word 4) (word 5)
  let state := mix state 3 7 11 15 (word 6) (word 7)
  let state := mix state 0 5 10 15 (word 8) (word 9)
  let state := mix state 1 6 11 12 (word 10) (word 11)
  let state := mix state 2 7 8 13 (word 12) (word 13)
  mix state 3 4 9 14 (word 14) (word 15)

/-- The given number of rounds, with the message words moved in between. -/
def rounds : Nat → Array UInt32 → Array UInt32 → Array UInt32
  | 0, state, _ => state
  | count + 1, state, message =>
    rounds count (round state message) ((permutation.map fun i => message.getD i 0).toArray)

/-- A compression that is yet to be done, and may turn out to be that of the root. -/
structure Node where
  chaining : Array UInt32
  message : Array UInt32
  counter : Nat
  length : Nat
  flags : UInt32

/-- The eight words a node comes to. -/
def Node.compress (node : Node) (extraFlags : UInt32) : Array UInt32 :=
  let start := node.chaining ++ initial.extract 0 4
    ++ #[UInt32.ofNat node.counter, UInt32.ofNat (node.counter / 0x100000000),
      UInt32.ofNat node.length, node.flags ||| extraFlags]
  let state := rounds 7 start node.message
  ((List.range 8).map fun i => state.getD i 0 ^^^ state.getD (i + 8) 0).toArray

def Node.chainingValue (node : Node) : Array UInt32 :=
  node.compress 0

/-- The bytes in runs of `size`, of which the last may be shorter; no bytes are one empty run. -/
def runs (size : Nat) (bytes : Bytes) : List Bytes :=
  if size = 0 ∨ bytes.length ≤ size then [bytes]
  else bytes.take size :: runs size (bytes.drop size)
termination_by bytes.length
decreasing_by
  simp only [List.length_drop]
  omega

/-- The message words of a block, with zeros behind its end. -/
def messageWords (block : Bytes) : Array UInt32 :=
  let padded := block ++ List.replicate (blockSize - block.length) 0
  ((runs 4 padded).map fun word => UInt32.ofNat (Word.decode word)).toArray

/-- Compresses the blocks of a chunk in sequence, up to the last. -/
def chunkNodeFrom (counter : Nat) (chaining : Array UInt32) (flags : UInt32) : List Bytes → Node
  | [] => ⟨chaining, messageWords [], counter, 0, flags ||| chunkEnd⟩
  | [block] => ⟨chaining, messageWords block, counter, block.length, flags ||| chunkEnd⟩
  | block :: blocks =>
    let node : Node := ⟨chaining, messageWords block, counter, block.length, flags⟩
    chunkNodeFrom counter node.chainingValue 0 blocks

/-- The node of the chunk with the given number. -/
def chunkNode (counter : Nat) (chunk : Bytes) : Node :=
  chunkNodeFrom counter initial chunkStart (runs blockSize chunk)

/-- The node above two others. -/
def parentNode (left right : Node) : Node :=
  ⟨initial, left.chainingValue ++ right.chainingValue, 0, blockSize, parentFlag⟩

/-- The largest power of two below `count`. -/
def leftCount (count : Nat) : Nat :=
  Nat.pow 2 (Nat.log2 (count - 1))

theorem leftCount_lt {count : Nat} (h : 2 ≤ count) : leftCount count < count := by
  have h : leftCount count ≤ count - 1 := Nat.log2_self_le (by omega)
  omega

theorem leftCount_pos (count : Nat) : 0 < leftCount count :=
  Nat.pow_pos (by decide)

/-- The tree over the chunks from number `counter` on. -/
def treeNode (counter : Nat) (chunks : List Bytes) : Node :=
  if _h : chunks.length < 2 then chunkNode counter (chunks.headD [])
  else
    let half := leftCount chunks.length
    parentNode (treeNode counter (chunks.take half)) (treeNode (counter + half) (chunks.drop half))
termination_by chunks.length
decreasing_by
  · have : leftCount chunks.length < chunks.length := leftCount_lt (by omega)
    simp only [List.length_take]
    omega
  · have := leftCount_pos chunks.length
    simp only [List.length_drop]
    omega

/-- The digest of `bytes`. -/
def digest (bytes : Bytes) : Bytes :=
  ((treeNode 0 (runs chunkSize bytes)).compress rootFlag).toList.flatMap fun word =>
    Word.encode 4 word.toNat

/-- A byte as two hexadecimal digits. -/
def hexByte (byte : UInt8) : List Char :=
  [Nat.digitChar (byte.toNat / 16), Nat.digitChar (byte.toNat % 16)]

/-- The digest of `bytes` in hexadecimal digits. -/
def hexDigest (bytes : Bytes) : String :=
  String.ofList ((digest bytes).flatMap hexByte)

end ImportAtlas.Blake3
