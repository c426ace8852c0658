import ImageTriage.Bytes.Basic
import ImageTriage.Fault

/-!
# UTF-8 text in a file

Names in a file are bytes up to a zero byte or to a bound. `Bytes.cstring?` accepts only well-formed
UTF-8. `Utf8.decodeLossy` accepts anything: each longest run of bytes that could begin a character
but does not finish one is read as U+FFFD.
-/

namespace ImageTriage

/-- The text from offset `i` up to the first zero byte, at most `bound` bytes of it. There is none
when `i` is past the end of the file or the bytes are not UTF-8. -/
def Bytes.cstring? (b : Bytes) (i bound : Nat) : Option String :=
  if i ≤ b.size then
    String.fromUTF8? (b.extract i (i + b.zeroFree i (min bound (b.size - i))))
  else
    none

/-- The text that `cstring?` finds, or the fault that it is no text. -/
def Bytes.cstring (b : Bytes) (i bound : Nat) : Except Fault String :=
  orFault .textEncoding (b.cstring? i bound)

namespace Utf8

/-- What stands for bytes that are no character. -/
def replacement : Char := Char.ofNat 0xFFFD

/-- How a byte may begin a character: the bits it contributes, the range of the byte after it, and
the number of bytes after it. -/
structure Lead where
  bits : Nat
  low : UInt8
  high : UInt8
  tail : Nat

/-- The lead of a character of two to four bytes. -/
def Lead.of? (b : UInt8) : Option Lead :=
  if 0xC2 ≤ b ∧ b ≤ 0xDF then some ⟨b.toNat - 0xC0, 0x80, 0xBF, 1⟩
  else if b = 0xE0 then some ⟨0, 0xA0, 0xBF, 2⟩
  else if b = 0xED then some ⟨0xD, 0x80, 0x9F, 2⟩
  else if 0xE1 ≤ b ∧ b ≤ 0xEF then some ⟨b.toNat - 0xE0, 0x80, 0xBF, 2⟩
  else if b = 0xF0 then some ⟨0, 0x90, 0xBF, 3⟩
  else if b = 0xF4 then some ⟨4, 0x80, 0x8F, 3⟩
  else if 0xF1 ≤ b ∧ b ≤ 0xF3 then some ⟨b.toNat - 0xF0, 0x80, 0xBF, 3⟩
  else none

/-- Finishes a character whose bytes so far are worth `bits`: `tail` more bytes, the first of them
from `low` to `high`. Answers the character, or `replacement` where the run breaks off, and what
follows the bytes it took. -/
def finish (bits : Nat) (low high : UInt8) : Nat → List UInt8 → Char × List UInt8
  | 0, rest => (Char.ofNat bits, rest)
  | _ + 1, [] => (replacement, [])
  | tail + 1, b :: rest =>
    if low ≤ b ∧ b ≤ high then finish (bits * 64 + (b.toNat - 0x80)) 0x80 0xBF tail rest
    else (replacement, b :: rest)

theorem length_finish_le (bits : Nat) (low high : UInt8) (tail : Nat) (rest : List UInt8) :
    (finish bits low high tail rest).2.length ≤ rest.length := by
  induction tail generalizing bits low high rest with
  | zero => simp [finish]
  | succ tail ih =>
    cases rest with
    | nil => simp [finish]
    | cons b rest =>
      unfold finish
      split
      · exact Nat.le_trans (ih ..) (by simp)
      · simp

/-- The first character of `b :: rest`, or `replacement`, and what follows the bytes it took. -/
def next (b : UInt8) (rest : List UInt8) : Char × List UInt8 :=
  if b < 0x80 then (Char.ofNat b.toNat, rest)
  else
    match Lead.of? b with
    | some lead => finish lead.bits lead.low lead.high lead.tail rest
    | none => (replacement, rest)

theorem length_next_le (b : UInt8) (rest : List UInt8) : (next b rest).2.length ≤ rest.length := by
  unfold next
  split
  · simp
  · split
    · exact length_finish_le ..
    · simp

/-- The characters of any bytes, with `replacement` for what is not UTF-8. -/
def chars : List UInt8 → List Char
  | [] => []
  | b :: rest => (next b rest).1 :: chars (next b rest).2
termination_by bs => bs.length
decreasing_by
  have := length_next_le b rest
  simp only [List.length_cons]
  omega

/-- The text of any bytes, with U+FFFD for what is not UTF-8. -/
def decodeLossy (bs : List UInt8) : String := String.ofList (chars bs)

end Utf8

end ImageTriage
