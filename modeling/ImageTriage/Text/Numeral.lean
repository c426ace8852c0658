/-!
# Numerals and padding

Hexadecimal numerals with a least width, the hexadecimal text of a run of bytes, and text padded to
a column. Widths are least widths: longer text is kept whole.
-/

namespace ImageTriage.Text

/-- `s` with blanks after it, up to `width` characters. -/
def padRight (width : Nat) (s : String) : String :=
  s.pushn ' ' (width - s.length)

/-- `s` with copies of `fill` before it, up to `width` characters. -/
def padLeft (fill : Char) (width : Nat) (s : String) : String :=
  String.ofList (List.replicate (width - s.length) fill) ++ s

/-- The lower-case hexadecimal numeral of `n`, with leading zeros up to `width` digits. -/
def hex (width n : Nat) : String :=
  padLeft '0' width (String.ofList (Nat.toDigits 16 n))

/-- The upper-case hexadecimal numeral of `n`, with leading zeros up to `width` digits. -/
def hexUpper (width n : Nat) : String :=
  padLeft '0' width (String.ofList ((Nat.toDigits 16 n).map Char.toUpper))

/-- The lower-case hexadecimal digit of a number below 16. -/
def hexDigit (n : Nat) : Char :=
  if n < 10 then Char.ofNat (48 + n) else Char.ofNat (87 + n)

/-- The upper-case hexadecimal digit of a number below 16. -/
def hexDigitUpper (n : Nat) : Char :=
  if n < 10 then Char.ofNat (48 + n) else Char.ofNat (55 + n)

/-- Two lower-case digits per byte, in order. -/
def hexOfBytes (bs : List UInt8) : String :=
  String.ofList (bs.flatMap fun b => [hexDigit (b.toNat / 16), hexDigit (b.toNat % 16)])

/-- Two upper-case digits per byte, in order. -/
def hexOfBytesUpper (bs : List UInt8) : String :=
  String.ofList (bs.flatMap fun b => [hexDigitUpper (b.toNat / 16), hexDigitUpper (b.toNat % 16)])

/-- The numeral of `n` after the mark `0x`. -/
def hexMarked (width n : Nat) : String := "0x" ++ hex width n

end ImageTriage.Text
