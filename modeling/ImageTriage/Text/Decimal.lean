import ImageTriage.Text.Numeral

/-!
# Decimal numerals with fixed places

A binary floating-point number is an integer times a power of two, so rounding it to a number of
decimal places is exact arithmetic on natural numbers. A value halfway between two numerals goes to
the even one.
-/

namespace ImageTriage.Text

/-- The quotient rounded to the nearest natural number, a half to the even neighbour. -/
def roundHalfEven (num den : Nat) : Nat :=
  let q := num / den
  let r := num % den
  if 2 * r < den then q
  else if den < 2 * r then q + 1
  else if q % 2 = 0 then q else q + 1

/-- The decimal numeral of `n` when the last `places` digits stand after the point. -/
def decimal (places n : Nat) : String :=
  let unit := Nat.pow 10 places
  if places = 0 then toString n
  else toString (n / unit) ++ "." ++ padLeft '0' places (toString (n % unit))

/-- The exact value of a finite number without its sign: `m / d` with `m` and `d` natural. -/
def magnitude (x : Float) : Nat × Nat :=
  let bits := x.toBits.toNat
  let exponent := bits >>> 52 % 2048
  let fraction := bits % 1 <<< 52
  let mantissa := if exponent = 0 then fraction else fraction + 1 <<< 52
  let exponent := if exponent = 0 then 1 else exponent
  if 1075 ≤ exponent then (mantissa <<< (exponent - 1075), 1)
  else (mantissa, 1 <<< (1075 - exponent))

/-- The numeral of a finite number with the given number of decimal places. -/
def fixed (places : Nat) (x : Float) : String :=
  let (num, den) := magnitude x
  let sign := if x.toBits.toNat < 1 <<< 63 then "" else "-"
  sign ++ decimal places (roundHalfEven (num * Nat.pow 10 places) den)

end ImageTriage.Text
