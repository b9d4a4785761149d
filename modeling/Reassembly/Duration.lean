import Reassembly.Number.Text
import Reassembly.Text.Split

/-!
# Durations

Durations are counted in nanoseconds and lie below 2^64 seconds. A duration is written as a number
and a unit: hours, minutes, seconds, or milliseconds, with seconds understood when there is no unit.
The number is read and scaled as a 64-bit floating-point number, and the result is rounded to the
nearest nanosecond, a half to the even one.
-/

namespace Reassembly

/-- A span of time, in nanoseconds. -/
structure Duration where
  nanoseconds : Nat
  deriving Repr, DecidableEq, Inhabited

namespace Duration

/-- The number of nanoseconds of a second. -/
def perSecond : Nat := 1000000000

/-- The longest duration. -/
def longest : Duration := ⟨0x10000000000000000 * perSecond - 1⟩

/-- A duration of whole seconds and nanoseconds. -/
def ofParts (seconds nanoseconds : Nat) : Duration := ⟨seconds * perSecond + nanoseconds⟩

/-- A duration of whole seconds. -/
def ofSeconds (seconds : Nat) : Duration := ofParts seconds 0

/-- A duration of whole milliseconds. -/
def ofMilliseconds (milliseconds : Nat) : Duration := ⟨milliseconds * 1000000⟩

/-- The whole seconds of a duration. -/
def seconds (duration : Duration) : Nat := duration.nanoseconds / perSecond

/-- The nanoseconds of a duration beyond its whole seconds. -/
def subseconds (duration : Duration) : Nat := duration.nanoseconds % perSecond

/-- The whole milliseconds of a duration. -/
def milliseconds (duration : Duration) : Nat := duration.nanoseconds / 1000000

/-- A multiple of a duration, or the longest duration if that is less. -/
def scale (duration : Duration) (factor : Nat) : Duration :=
  ⟨min (duration.nanoseconds * factor) longest.nanoseconds⟩

/-- A span of time is too long to be a duration. -/
inductive TooLong
  | mk
  deriving Repr, DecidableEq

/-- What a unit makes of a number of seconds: it is multiplied by the first factor and divided by
the second. -/
def unit? (name : String) : Option (Nat × Nat) :=
  if name = "" ∨ name = "s" ∨ name = "sec" ∨ name = "secs" then some (1, 1)
  else if name = "ms" then some (1, 1000)
  else if name = "m" ∨ name = "min" ∨ name = "mins" then some (60, 1)
  else if name = "h" then some (3600, 1)
  else none

open Number

/-- The duration of a floating-point number of seconds. -/
def ofFloating : Magnitude → Except TooLong Duration
  | .infinite => .error .mk
  | .finite significand exponent =>
    let (num, den) := binary64.quotient significand exponent
    let nanoseconds := roundDiv (num * perSecond) den
    if longest.nanoseconds < nanoseconds then .error .mk else .ok ⟨nanoseconds⟩

/-- A number of units as a number of seconds. -/
def inSeconds (significand exponent : Nat) (unit : Nat × Nat) : Magnitude :=
  let (num, den) := binary64.quotient significand exponent
  binary64.round (num * unit.1) (den * unit.2)

/-- Read a duration. A text that writes none is told from one that writes too long a span. -/
def read (text : String) : Except TooLong (Option Duration) :=
  let chars := Text.trim text.toList
  let isNumber := fun (c : Char) => c.isDigit || c = '.'
  let unit := unit? (String.ofList (Text.trim (chars.dropWhile isNumber)))
  match decimal? binary64 (chars.takeWhile isNumber), unit with
  | some (.finite significand exponent), some unit =>
    (ofFloating (inSeconds significand exponent unit)).map some
  | _, _ => .ok none

end Duration

end Reassembly
