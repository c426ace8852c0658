import ImageTriage.Bytes.Basic
import ImageTriage.Text.Numeral

/-!
# BLAKE3

A message is cut into chunks of 1024 bytes, and each chunk into blocks of 64. The blocks of a chunk
are mixed one after the other into a chaining value; the chunks are the leaves of a binary tree,
whose inner nodes mix the chaining values of their two parts. The left part of an inner node is as
large as a power of two allows. The digest is the first half of the last mixing, marked as the root.
-/

namespace ImageTriage.Digest.Blake3

/-- Eight words: the state between blocks, and what a node hands to its parent. -/
abbrev Chaining := Vector UInt32 8

/-- Sixteen words: a block, or the state inside a mixing. -/
abbrev Block := Vector UInt32 16

/-- The chaining value before the first block. -/
def initial : Chaining :=
  #v[0x6a09e667, 0xbb67ae85, 0x3c6ef372, 0xa54ff53a, 0x510e527f, 0x9b05688c, 0x1f83d9ab, 0x5be0cd19]

/-- Marks of a mixing. -/
def chunkStart : UInt32 := 1
def chunkEnd : UInt32 := 2
def parent : UInt32 := 4
def root : UInt32 := 8

/-- The number of bytes of a chunk. -/
def chunkSize : Nat := 1024

/-- The word rotated right. -/
def rotate (w n : UInt32) : UInt32 := (w >>> n) ||| (w <<< (32 - n))

/-- Mixes two words of a block into four words of the state. -/
def quarter (s : Block) (a b c d : Fin 16) (x y : UInt32) : Block :=
  let s := s.set a (s[a] + s[b] + x)
  let s := s.set d (rotate (s[d] ^^^ s[a]) 16)
  let s := s.set c (s[c] + s[d])
  let s := s.set b (rotate (s[b] ^^^ s[c]) 12)
  let s := s.set a (s[a] + s[b] + y)
  let s := s.set d (rotate (s[d] ^^^ s[a]) 8)
  let s := s.set c (s[c] + s[d])
  s.set b (rotate (s[b] ^^^ s[c]) 7)

/-- One round: the columns of the state, then its diagonals. -/
def round (s m : Block) : Block :=
  let s := quarter s 0 4 8 12 m[0] m[1]
  let s := quarter s 1 5 9 13 m[2] m[3]
  let s := quarter s 2 6 10 14 m[4] m[5]
  let s := quarter s 3 7 11 15 m[6] m[7]
  let s := quarter s 0 5 10 15 m[8] m[9]
  let s := quarter s 1 6 11 12 m[10] m[11]
  let s := quarter s 2 7 8 13 m[12] m[13]
  quarter s 3 4 9 14 m[14] m[15]

/-- The order of the words of a block in the next round. -/
def permute (m : Block) : Block :=
  #v[m[2], m[6], m[3], m[10], m[7], m[0], m[4], m[13], m[1], m[11], m[12], m[5], m[9], m[14], m[15],
    m[8]]

/-- A mixing that is yet to be done. -/
structure Node where
  chaining : Chaining
  block : Block
  /-- The number of the chunk; zero for an inner node. -/
  counter : UInt64
  /-- The number of bytes in the block. -/
  length : UInt32
  marks : UInt32

namespace Node

/-- The first half of the mixing. -/
def output (n : Node) : Chaining :=
  let chain := n.chaining
  let start : Block :=
    #v[chain[0], chain[1], chain[2], chain[3], chain[4], chain[5], chain[6], chain[7],
      initial[0], initial[1], initial[2], initial[3], n.counter.toUInt32,
      (n.counter >>> 32).toUInt32, n.length, n.marks]
  let (s, _) := Nat.repeat (fun (s, m) => (round s m, permute m)) 7 (start, n.block)
  Vector.ofFn fun k => s[k.val] ^^^ s[k.val + 8]

/-- The inner node above two parts. -/
def join (left right : Node) : Node where
  chaining := initial
  block := (left.output ++ right.output).cast rfl
  counter := 0
  length := 64
  marks := parent

end Node

/-- The sixteen little-endian words of the block at offset `i`; bytes past the end are zero. -/
def readBlock (b : Bytes) (i stop : Nat) : Block :=
  Vector.ofFn fun k =>
    let byte (j : Nat) : Nat :=
      let place := i + 4 * k.val + j
      if place < stop then ((b[place]?).getD 0).toNat else 0
    UInt32.ofNat (byte 0 + 256 * (byte 1 + 256 * (byte 2 + 256 * byte 3)))

/-- The mixing of the last block of a chunk, its other blocks mixed in before. -/
def chunk (b : Bytes) (number : Nat) : Node :=
  let start := chunkSize * number
  let stop := min (start + chunkSize) b.size
  let blocks := max 1 ((stop - start + 63) / 64)
  let node (chaining : Chaining) (k : Nat) : Node :=
    { chaining
      block := readBlock b (start + 64 * k) stop
      counter := UInt64.ofNat number
      length := UInt32.ofNat (min 64 (stop - (start + 64 * k)))
      marks := (if k = 0 then chunkStart else 0) ||| (if k + 1 = blocks then chunkEnd else 0) }
  node ((List.range (blocks - 1)).foldl (fun c k => (node c k).output) initial) (blocks - 1)

/-- The number of chunks in the left part of a tree over `n` chunks: the largest power of two below
`n`. -/
def leftCount (n : Nat) : Nat := 1 <<< (n - 1).log2

theorem leftCount_lt {n : Nat} (h : 2 ≤ n) : leftCount n < n := by
  have := Nat.log2_self_le (n := n - 1) (by omega)
  rw [leftCount, Nat.one_shiftLeft]
  omega

theorem leftCount_pos (n : Nat) : 0 < leftCount n := by
  rw [leftCount, Nat.one_shiftLeft]
  exact Nat.two_pow_pos _

/-- The tree over `n` chunks from the given one on. -/
def tree (b : Bytes) (first n : Nat) : Node :=
  if _h : 2 ≤ n then
    (tree b first (leftCount n)).join (tree b (first + leftCount n) (n - leftCount n))
  else
    chunk b first
termination_by n
decreasing_by
  · exact leftCount_lt _h
  · have := leftCount_pos n
    omega

/-- The thirty-two bytes of the digest. -/
def bytes (message : Bytes) : List UInt8 :=
  let top := tree message 0 (max 1 ((message.size + chunkSize - 1) / chunkSize))
  let words := { top with marks := top.marks ||| root }.output
  words.toList.flatMap fun w => Bytes.leBytes 4 w.toNat

/-- The digest as sixty-four lower-case hexadecimal digits. -/
def hex (message : Bytes) : String := Text.hexOfBytes (bytes message)

theorem length_bytes (message : Bytes) : (bytes message).length = 32 := by
  simp [bytes, List.map_const']

end ImageTriage.Digest.Blake3
