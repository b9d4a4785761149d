import Reassembly.Bytes

/-!
# Percent-encoding

A byte that must not stand for itself in some part of a URL is written as a percent sign and two
hexadecimal digits. Controls and all bytes of characters beyond ASCII are written so everywhere;
which other characters are depends on the part. Decoding leaves a percent sign alone that no two
digits follow.
-/

namespace Reassembly.Percent

/-- The character of a hexadecimal digit, in upper case. -/
def digit (n : Nat) : Char := Char.ofNat (if n < 10 then 48 + n else 55 + n)

/-- The value of a hexadecimal digit. -/
def digit? (c : Char) : Option Nat :=
  let n := c.toNat
  if 48 ≤ n ∧ n ≤ 57 then some (n - 48)
  else if 65 ≤ n ∧ n ≤ 70 then some (n - 55)
  else if 97 ≤ n ∧ n ≤ 102 then some (n - 87)
  else none

/-- A byte as a percent sign and two digits. -/
def ofByte (b : UInt8) : List Char := ['%', digit (b.toNat / 16), digit (b.toNat % 16)]

/-- A character stands for itself nowhere in a URL. -/
def isForeign (c : Char) : Bool := c.toNat < 0x20 || 0x7f ≤ c.toNat

/-- Encode the characters that a part of a URL reserves. -/
def encode (reserves : Char → Bool) (chars : List Char) : List Char :=
  chars.flatMap fun c =>
    if isForeign c || reserves c then (Bytes.ofText c.toString).flatMap ofByte else [c]

/-- The bytes that percent-encoded bytes stand for. -/
def decode : Bytes → Bytes
  | 0x25 :: high :: low :: rest =>
    match digit? (Char.ofNat high.toNat), digit? (Char.ofNat low.toNat) with
    | some h, some l => UInt8.ofNat (16 * h + l) :: decode rest
    | _, _ => 0x25 :: decode (high :: low :: rest)
  | b :: rest => b :: decode rest
  | [] => []

/-- The bytes that a percent-encoded text stands for. -/
def bytesOf (chars : List Char) : Bytes := decode (Bytes.ofText (String.ofList chars))

/-- The text that a percent-encoded text stands for, when its bytes encode one. -/
def textOf? (chars : List Char) : Option String := Bytes.toText? (bytesOf chars)

/-- A fragment reserves these characters. -/
def inFragment (c : Char) : Bool := c ∈ [' ', '"', '<', '>', '\x60']

/-- A path reserves these characters. -/
def inPath (c : Char) : Bool := inFragment c || c ∈ ['#', '?', '\x7b', '\x7d']

/-- A single segment of a path reserves these characters. -/
def inSegment (c : Char) : Bool := inPath c || c ∈ ['/', '%', '\\']

/-- A query reserves these characters. -/
def inQuery (c : Char) : Bool := c ∈ [' ', '"', '#', '<', '>', '\x27']

/-- User information reserves these characters. -/
def inUserInfo (c : Char) : Bool :=
  inPath c || c ∈ ['/', ':', ';', '=', '@', '[', '\\', ']', '^', '|']

end Reassembly.Percent
