import Reassembly.Number.Binary

/-!
# Numbers in text

Reading whole numbers and floating-point numbers from their decimal texts. Digits are those of
ASCII. A whole number may have a sign, a minus only where negative numbers are meant, and must lie
within its bounds. A floating-point number may have a sign, a point with digits on at least one
side, and an exponent; infinity and "not a number" are read in any case.
-/

namespace Reassembly.Number

/-- The value of a decimal digit. -/
def digit? (c : Char) : Option Nat := if c.isDigit then some (c.toNat - '0'.toNat) else none

/-- The number that a sequence of digits continues. -/
def digitsFrom : (value : Nat) → List Char → Option Nat
  | value, [] => some value
  | value, c :: rest =>
    match digit? c with
    | some d => digitsFrom (value * 10 + d) rest
    | none => none

/-- The number that a non-empty sequence of digits writes. -/
def digits? (chars : List Char) : Option Nat :=
  if chars.isEmpty then none else digitsFrom 0 chars

/-- The number below a bound that is written, perhaps with a plus. -/
def natural? (bound : Nat) (chars : List Char) : Option Nat :=
  (digits? (if chars.head? = some '+' then chars.tail else chars)).filter (· < bound)

/-- The number that is written, perhaps with a sign: at least `-bound` and below `bound`. -/
def integer? (bound : Nat) (chars : List Char) : Option Int :=
  if chars.head? = some '-' then
    ((digits? chars.tail).filter (· ≤ bound)).map fun n => -(n : Int)
  else (natural? bound chars).map Int.ofNat

/-- A floating-point number: not a number, or a sign and a magnitude. -/
inductive Floating
  | nan
  | signed (negative : Bool) (magnitude : Magnitude)
  deriving Repr, DecidableEq

/-- The exponent that follows the digits of a number, negative or not. -/
def exponent? : List Char → Option (Bool × Nat)
  | [] => some (false, 0)
  | c :: rest =>
    if c = 'e' ∨ c = 'E' then
      match rest with
      | '-' :: rest => (digits? rest).map (true, ·)
      | '+' :: rest => (digits? rest).map (false, ·)
      | rest => (digits? rest).map (false, ·)
    else none

/-- The magnitude that a decimal text without a sign writes. -/
def decimal? (format : BinaryFormat) (chars : List Char) : Option Magnitude :=
  let whole := chars.takeWhile Char.isDigit
  let afterWhole := chars.dropWhile Char.isDigit
  let (fraction, rest) :=
    match afterWhole with
    | '.' :: rest => (rest.takeWhile Char.isDigit, rest.dropWhile Char.isDigit)
    | rest => ([], rest)
  match digits? (whole ++ fraction), exponent? rest with
  | some digits, some (false, up) => some (format.ofDecimal digits up fraction.length)
  | some digits, some (true, down) => some (format.ofDecimal digits 0 (fraction.length + down))
  | _, _ => none

/-- The number that a text without a sign writes, given its sign. -/
def unsigned? (format : BinaryFormat) (negative : Bool) (chars : List Char) : Option Floating :=
  let word := String.ofList (chars.map Char.toLower)
  if word = "inf" ∨ word = "infinity" then some (.signed negative .infinite)
  else if word = "nan" then some .nan
  else (decimal? format chars).map (.signed negative)

/-- The floating-point number that a text writes. -/
def floating? (format : BinaryFormat) : List Char → Option Floating
  | '-' :: rest => unsigned? format true rest
  | '+' :: rest => unsigned? format false rest
  | chars => unsigned? format false chars

/-- The bits of a number, when it is one. -/
def Floating.bits? (format : BinaryFormat) : Floating → Option Nat
  | nan => none
  | signed negative magnitude =>
    some (format.bits magnitude + if negative then format.signBit else 0)

end Reassembly.Number
