import Reassembly.Retrieval.Error

/-!
# Byte ranges

A range of bytes is asked for by its first byte and, unless it runs to the end of the file, by its
last. A range is normalized once the size of the file is known: one that ends with the file's last
byte or later then runs to the end, and keeps the last byte that it was asked for.
-/

namespace Reassembly

/-- A range of bytes of a file. -/
structure ByteRange where
  /-- The first byte. -/
  start : Nat
  /-- The last byte, as asked for. -/
  last : Option Nat
  /-- The range runs to the end of the file, whatever its last byte. -/
  toEnd : Bool
  deriving Repr, DecidableEq

namespace ByteRange

/-- The range from one byte through another, or to the end of the file. -/
def between (start : Nat) (last : Option Nat) : Except RetrievalError ByteRange :=
  match last with
  | none => .ok ⟨start, none, true⟩
  | some last => if last < start then .error (.invalidRange start last) else .ok ⟨start, some last, false⟩

/-- The range of the given parts. When it is said whether it runs to the end of the file, the parts
are taken as they are. -/
def ofParts (start : Nat) (last : Option Nat) (toEnd : Option Bool) : Except RetrievalError ByteRange :=
  match toEnd with
  | some toEnd => .ok ⟨start, last, toEnd⟩
  | none => between start last

/-- The range from a byte to the end of the file. -/
def starting (start : Nat) : ByteRange := ⟨start, none, true⟩

/-- The whole file. -/
def full : ByteRange := starting 0

instance : Inhabited ByteRange := ⟨full⟩

/-- Let the range run to the end of the file. -/
def throughEnd (range : ByteRange) : ByteRange := { range with toEnd := true }

/-- The last byte of a range that does not run to the end of the file. -/
def bound? (range : ByteRange) : Option Nat := if range.toEnd then none else range.last

/-- The end of the bytes that a range has in a file of the given size: one past its last byte, and
never before its first. -/
def stop (range : ByteRange) (size : Nat) : Nat :=
  match range.bound? with
  | some last => if size ≤ last then size else max range.start (last + 1)
  | none => size

/-- Refuse a range that starts beyond the end of a file, and let one that reaches the end of the
file run to it. -/
def normalize (range : ByteRange) (fileId : String) (size : Nat) : Except RetrievalError ByteRange :=
  if size < range.start then .error (.rangeBeyondEnd fileId range.start size)
  else
    match range.last with
    | some last => .ok (if size ≤ last then range.throughEnd else range)
    | none => .ok range

end ByteRange

end Reassembly
