import Reassembly.Bytes
import Reassembly.ByteRange

/-!
# Blocks and fragments

A block is the data of one chunk. A fragment is the part of a block that lies in a range of bytes:
a range that starts strictly inside the block cuts its front, one that ends inside it cuts its
back, and a range that ends before it starts leaves nothing.
-/

namespace Reassembly

/-- The data of one chunk of a file, or a part of it, at its place in the file. -/
structure Block where
  fileId : String
  number : Nat
  offset : Nat
  data : Bytes
  deriving Repr, DecidableEq

namespace Block

/-- The number of bytes of a block. -/
def length (block : Block) : Nat := block.data.length

/-- The offset after a block. -/
def stop (block : Block) : Nat := block.offset + block.length

/-- The bytes that a range cuts off the front of a block. -/
def cutFront (block : Block) (range : ByteRange) : Nat :=
  if block.offset < range.start ∧ range.start < block.stop then range.start - block.offset else 0

/-- The bytes that a range leaves before it cuts off the back of a block. -/
def cutBack (block : Block) (range : ByteRange) : Nat :=
  match range.bound? with
  | some last =>
    if block.offset ≤ last ∧ last < block.stop then last - block.offset + 1 else block.length
  | none => block.length

/-- The part of a block that lies in a range. -/
def clip (block : Block) (range : ByteRange) : Block :=
  let front := block.cutFront range
  { block with
    offset := block.offset + front
    data := (block.data.take (block.cutBack range)).drop front }

/-- A block without data. -/
def isEmpty (block : Block) : Bool := block.data.isEmpty

end Block

end Reassembly
