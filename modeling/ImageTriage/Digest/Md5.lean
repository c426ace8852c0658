import ImageTriage.Digest.Padding
import ImageTriage.Text.Numeral

/-!
# MD5

Four 32-bit words are mixed with the sixteen little-endian words of each block in sixty-four steps.
-/

namespace ImageTriage.Digest.Md5

/-- The words carried from block to block. -/
structure State where
  a : UInt32
  b : UInt32
  c : UInt32
  d : UInt32
  deriving DecidableEq, Repr

/-- The words before the first block. -/
def initial : State := ⟨0x67452301, 0xefcdab89, 0x98badcfe, 0x10325476⟩

/-- Word `k` is the integer part of 2 ^ 32 times the absolute sine of `k + 1`. -/
def sines : Array UInt32 :=
  #[0xd76aa478, 0xe8c7b756, 0x242070db, 0xc1bdceee, 0xf57c0faf, 0x4787c62a, 0xa8304613,
    0xfd469501, 0x698098d8, 0x8b44f7af, 0xffff5bb1, 0x895cd7be, 0x6b901122, 0xfd987193,
    0xa679438e, 0x49b40821, 0xf61e2562, 0xc040b340, 0x265e5a51, 0xe9b6c7aa, 0xd62f105d,
    0x02441453, 0xd8a1e681, 0xe7d3fbc8, 0x21e1cde6, 0xc33707d6, 0xf4d50d87, 0x455a14ed,
    0xa9e3e905, 0xfcefa3f8, 0x676f02d9, 0x8d2a4c8a, 0xfffa3942, 0x8771f681, 0x6d9d6122,
    0xfde5380c, 0xa4beea44, 0x4bdecfa9, 0xf6bb4b60, 0xbebfbc70, 0x289b7ec6, 0xeaa127fa,
    0xd4ef3085, 0x04881d05, 0xd9d4d039, 0xe6db99e5, 0x1fa27cf8, 0xc4ac5665, 0xf4292244,
    0x432aff97, 0xab9423a7, 0xfc93a039, 0x655b59c3, 0x8f0ccc92, 0xffeff47d, 0x85845dd1,
    0x6fa87e4f, 0xfe2ce6e0, 0xa3014314, 0x4e0811a1, 0xf7537e82, 0xbd3af235, 0x2ad7d2bb,
    0xeb86d391]

/-- The rotations of the four rounds; each round repeats its four. -/
def rotations : Array (Array UInt32) :=
  #[#[7, 12, 17, 22], #[5, 9, 14, 20], #[4, 11, 16, 23], #[6, 10, 15, 21]]

/-- The word rotated left. -/
def rotate (w n : UInt32) : UInt32 := (w <<< n) ||| (w >>> (32 - n))

/-- The mixing function of a step, and the word of the block that it takes. -/
def mix (s : State) (k : Nat) : UInt32 × Nat :=
  match k / 16 with
  | 0 => ((s.b &&& s.c) ||| (~~~s.b &&& s.d), k % 16)
  | 1 => ((s.d &&& s.b) ||| (~~~s.d &&& s.c), (5 * k + 1) % 16)
  | 2 => (s.b ^^^ s.c ^^^ s.d, (3 * k + 5) % 16)
  | _ => (s.c ^^^ (s.b ||| ~~~s.d), 7 * k % 16)

/-- Step `k` on the block at offset `i`. -/
def step (m : Bytes) (i : Nat) (s : State) (k : Nat) : State :=
  let (f, word) := mix s k
  let sum := s.a + f + (sines[k]?).getD 0 + (m.u32? (i + 4 * word)).getD 0
  let amount := ((rotations[k / 16]?).bind (·[k % 4]?)).getD 0
  ⟨s.d, s.b + rotate sum amount, s.b, s.c⟩

/-- Mixes in the block at offset `i`. -/
def absorb (m : Bytes) (s : State) (i : Nat) : State :=
  let t := (List.range 64).foldl (step m i) s
  ⟨s.a + t.a, s.b + t.b, s.c + t.c, s.d + t.d⟩

/-- The sixteen bytes of the digest. -/
def bytes (message : Bytes) : List UInt8 :=
  let padded := pad 64 (Bytes.leBytes 8 (8 * message.size)) message
  let s := (blockStarts 64 padded.size).foldl (absorb padded) initial
  [s.a, s.b, s.c, s.d].flatMap fun w => Bytes.leBytes 4 w.toNat

/-- The digest as thirty-two lower-case hexadecimal digits. -/
def hex (message : Bytes) : String := Text.hexOfBytes (bytes message)

theorem length_bytes (message : Bytes) : (bytes message).length = 16 := by
  simp [bytes]

end ImageTriage.Digest.Md5
