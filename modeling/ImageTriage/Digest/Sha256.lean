import ImageTriage.Digest.Padding
import ImageTriage.Text.Numeral

/-!
# SHA-256

Eight 32-bit words are mixed with a schedule of sixty-four words, which each block of sixteen
big-endian words is drawn out to.
-/

namespace ImageTriage.Digest.Sha256

/-- The words carried from block to block. -/
structure State where
  a : UInt32
  b : UInt32
  c : UInt32
  d : UInt32
  e : UInt32
  f : UInt32
  g : UInt32
  h : UInt32
  deriving DecidableEq, Repr

namespace State

/-- The words, in order. -/
def toList (s : State) : List UInt32 := [s.a, s.b, s.c, s.d, s.e, s.f, s.g, s.h]

/-- The sums of the words. -/
def add (s t : State) : State :=
  ⟨s.a + t.a, s.b + t.b, s.c + t.c, s.d + t.d, s.e + t.e, s.f + t.f, s.g + t.g, s.h + t.h⟩

end State

/-- The words before the first block: the fractional parts of the square roots of the first eight
primes. -/
def initial : State :=
  ⟨0x6a09e667, 0xbb67ae85, 0x3c6ef372, 0xa54ff53a, 0x510e527f, 0x9b05688c,
    0x1f83d9ab, 0x5be0cd19⟩

/-- The constants of the rounds: the fractional parts of the cube roots of the first sixty-four
primes. -/
def roots : Array UInt32 :=
  #[0x428a2f98, 0x71374491, 0xb5c0fbcf, 0xe9b5dba5, 0x3956c25b, 0x59f111f1, 0x923f82a4,
    0xab1c5ed5, 0xd807aa98, 0x12835b01, 0x243185be, 0x550c7dc3, 0x72be5d74, 0x80deb1fe,
    0x9bdc06a7, 0xc19bf174, 0xe49b69c1, 0xefbe4786, 0x0fc19dc6, 0x240ca1cc, 0x2de92c6f,
    0x4a7484aa, 0x5cb0a9dc, 0x76f988da, 0x983e5152, 0xa831c66d, 0xb00327c8, 0xbf597fc7,
    0xc6e00bf3, 0xd5a79147, 0x06ca6351, 0x14292967, 0x27b70a85, 0x2e1b2138, 0x4d2c6dfc,
    0x53380d13, 0x650a7354, 0x766a0abb, 0x81c2c92e, 0x92722c85, 0xa2bfe8a1, 0xa81a664b,
    0xc24b8b70, 0xc76c51a3, 0xd192e819, 0xd6990624, 0xf40e3585, 0x106aa070, 0x19a4c116,
    0x1e376c08, 0x2748774c, 0x34b0bcb5, 0x391c0cb3, 0x4ed8aa4a, 0x5b9cca4f, 0x682e6ff3,
    0x748f82ee, 0x78a5636f, 0x84c87814, 0x8cc70208, 0x90befffa, 0xa4506ceb, 0xbef9a3f7,
    0xc67178f2]

/-- The word rotated right. -/
def rotate (w n : UInt32) : UInt32 := (w >>> n) ||| (w <<< (32 - n))

/-- The next word of a schedule of which all words so far are given. -/
def scheduled (w : Array UInt32) : UInt32 :=
  let back (n : Nat) : UInt32 := (w[w.size - n]?).getD 0
  let x := back 15
  let y := back 2
  back 16 + (rotate x 7 ^^^ rotate x 18 ^^^ (x >>> 3)) + back 7
    + (rotate y 17 ^^^ rotate y 19 ^^^ (y >>> 10))

/-- The schedule of the block at offset `i`. -/
def schedule (m : Bytes) (i : Nat) : Array UInt32 :=
  let block := (Array.range 16).map fun k => UInt32.ofNat ((m.beNat? (i + 4 * k) 4).getD 0)
  Nat.repeat (fun w => w.push (scheduled w)) 48 block

/-- One round, with a constant and a word of the schedule. -/
def round (s : State) (root word : UInt32) : State :=
  let t := s.h + (rotate s.e 6 ^^^ rotate s.e 11 ^^^ rotate s.e 25)
    + ((s.e &&& s.f) ^^^ (~~~s.e &&& s.g)) + root + word
  let u := (rotate s.a 2 ^^^ rotate s.a 13 ^^^ rotate s.a 22)
    + ((s.a &&& s.b) ^^^ (s.a &&& s.c) ^^^ (s.b &&& s.c))
  ⟨t + u, s.a, s.b, s.c, s.d + t, s.e, s.f, s.g⟩

/-- Mixes in the block at offset `i`. -/
def absorb (m : Bytes) (s : State) (i : Nat) : State :=
  s.add ((roots.zip (schedule m i)).foldl (fun t p => round t p.1 p.2) s)

/-- The thirty-two bytes of the digest. -/
def bytes (message : Bytes) : List UInt8 :=
  let padded := pad 64 (Bytes.beBytes 8 (8 * message.size)) message
  let s := (blockStarts 64 padded.size).foldl (absorb padded) initial
  s.toList.flatMap fun w => Bytes.beBytes 4 w.toNat

/-- The digest as sixty-four lower-case hexadecimal digits. -/
def hex (message : Bytes) : String := Text.hexOfBytes (bytes message)

theorem length_bytes (message : Bytes) : (bytes message).length = 32 := by
  simp [bytes, State.toList, Bytes.length_beBytes]

end ImageTriage.Digest.Sha256
