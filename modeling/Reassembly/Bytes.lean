/-!
# Byte strings

Byte strings are lists of bytes, first byte first, so that every codec of this library is a
function on lists. This file holds the few readings of a byte string that more than one codec
needs: numbers in either byte order, and the UTF-8 text it may encode.
-/

namespace Reassembly

/-- A byte string, first byte first. -/
abbrev Bytes := List UInt8

namespace Bytes

/-- The UTF-8 encoding of a text. -/
def ofText (text : String) : Bytes := text.toUTF8.data.toList

/-- The text that a byte string encodes, when it is well-formed UTF-8. -/
def toText? (bytes : Bytes) : Option String := String.fromUTF8? ⟨bytes.toArray⟩

/-- The number written with its most significant byte first. -/
def bigEndian (bytes : Bytes) : Nat := bytes.foldl (fun n b => n * 256 + b.toNat) 0

/-- The number written with its least significant byte first. -/
def littleEndian : Bytes → Nat
  | [] => 0
  | b :: rest => b.toNat + 256 * littleEndian rest

/-- The low `width` bytes of a number, least significant first. -/
def ofNatLittleEndian : (width n : Nat) → Bytes
  | 0, _ => []
  | width + 1, n => UInt8.ofNat n :: ofNatLittleEndian width (n / 256)

/-- The low `width` bytes of a number, most significant first. -/
def ofNatBigEndian (width n : Nat) : Bytes := (ofNatLittleEndian width n).reverse

/-- Writing a number takes exactly the requested number of bytes. -/
@[simp] theorem length_ofNatLittleEndian (width n : Nat) :
    (ofNatLittleEndian width n).length = width := by
  induction width generalizing n with
  | zero => rfl
  | succ width ih => simp [ofNatLittleEndian, ih]

/-- Writing a number takes exactly the requested number of bytes. -/
@[simp] theorem length_ofNatBigEndian (width n : Nat) :
    (ofNatBigEndian width n).length = width := by
  simp [ofNatBigEndian]

/-- A text is read back from its own encoding. -/
@[simp] theorem toText?_ofText (text : String) : toText? (ofText text) = some text := by
  have valid : (ByteArray.mk (ofText text).toArray).IsValidUTF8 := text.isValidUTF8
  rw [toText?, String.fromUTF8?, dif_pos valid]
  rfl

end Bytes

end Reassembly
