/-!
# Binary floating point

A binary format keeps numbers `significand · 2 ^ exponent` with a bounded significand and a bounded
exponent. A positive quotient is rounded to the nearest number of the format, a tie going to the
even significand; beyond the largest number lies infinity. All arithmetic is on natural numbers,
so nothing is rounded twice.
-/

namespace Reassembly.Number

/-- Divide and round to the nearest natural number, a half to the even one. -/
def roundDiv (num den : Nat) : Nat :=
  let q := num / den
  let twice := 2 * (num % den)
  if twice < den then q
  else if den < twice then q + 1
  else if q % 2 = 0 then q
  else q + 1

/-- A binary floating-point format. -/
structure BinaryFormat where
  /-- The number of bits that a number takes. -/
  width : Nat
  /-- The number of bits of a full significand. -/
  precision : Nat
  /-- The exponent of the smallest positive number, negated. -/
  lowest : Nat
  /-- The exponent that the largest number has over its significand. -/
  highest : Nat

/-- The format of 64 bits. -/
def binary64 : BinaryFormat := ⟨64, 53, 1074, 971⟩

/-- The format of 32 bits. -/
def binary32 : BinaryFormat := ⟨32, 24, 149, 104⟩

/-- A number of a format that is not negative: `finite s e` stands for `s · 2 ^ (e - lowest)`. -/
inductive Magnitude
  | finite (significand exponent : Nat)
  | infinite
  deriving Repr, DecidableEq

namespace BinaryFormat

/-- The number with the given significand, which may be one too large by a rounding, above the
lowest exponent by `exponent`. -/
def normalize (format : BinaryFormat) (significand exponent : Nat) : Magnitude :=
  let (significand, exponent) :=
    if significand = Nat.pow 2 format.precision then (significand / 2, exponent + 1)
    else (significand, exponent)
  if format.lowest + format.highest < exponent then .infinite else .finite significand exponent

/-- Round the positive quotient `num / den` to the format.

Scaled by the lowest exponent, the quotient is cut to `precision` bits by dropping `exponent` of
them; a quotient of fewer bits keeps them all. -/
def round (format : BinaryFormat) (num den : Nat) : Magnitude :=
  let scaled := num * Nat.pow 2 format.lowest
  let exponent := (scaled / den).log2 + 1 - format.precision
  format.normalize (roundDiv scaled (den * Nat.pow 2 exponent)) exponent

/-- The exact value of a finite number as a quotient. -/
def quotient (format : BinaryFormat) (significand exponent : Nat) : Nat × Nat :=
  (significand * Nat.pow 2 exponent, Nat.pow 2 format.lowest)

/-- The bits of a number, without its sign. -/
def bits (format : BinaryFormat) : Magnitude → Nat
  | .infinite => (format.lowest + format.highest + 2) * Nat.pow 2 (format.precision - 1)
  | .finite significand exponent =>
    if significand < Nat.pow 2 (format.precision - 1) then significand
    else exponent * Nat.pow 2 (format.precision - 1) + significand

/-- The bit that holds the sign. -/
def signBit (format : BinaryFormat) : Nat := Nat.pow 2 (format.width - 1)

/-- Digits that a number of any format has at most before or behind the point, with room. -/
def decimalReach : Nat := 400

/-- Round `digits · 10 ^ (up - down)` to the format. Numbers far beyond its ends are not computed:
they are infinite, or zero. -/
def ofDecimal (format : BinaryFormat) (digits up down : Nat) : Magnitude :=
  let width := (Nat.toDigits 10 digits).length
  if digits = 0 then .finite 0 0
  else if down + decimalReach < width + up then .infinite
  else if width + up + decimalReach < down then .finite 0 0
  else if down ≤ up then format.round (digits * Nat.pow 10 (up - down)) 1
  else format.round digits (Nat.pow 10 (down - up))

end BinaryFormat

end Reassembly.Number
