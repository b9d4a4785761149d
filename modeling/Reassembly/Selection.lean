import Reassembly.ByteRange
import Reassembly.Layout

/-!
# Selections

A retrieval names the chunks that it wants by their numbers, or by a range of bytes. Numbers select
in the order given, repetitions included, and no numbers at all select every chunk. A range selects
the contiguous run of chunks from the first that ends after the range's first byte through the
first that ends after its last.
-/

namespace Reassembly.Layout

/-- The chunk of a number, when the file has one. -/
def chunk? (layout : Layout) (number : Nat) : Option Chunk :=
  match number with
  | 0 => none
  | i + 1 => layout.chunks[i]?

/-- The chunk of a number. -/
def chunk (layout : Layout) (number : Nat) : Except RetrievalError Chunk :=
  match layout.chunk? number with
  | some chunk => .ok chunk
  | none => .error (.blockOutOfRange layout.fileId number layout.count)

/-- The chunks of the given numbers. -/
def selectNumbers (layout : Layout) (numbers : Option (List Nat)) : Except RetrievalError (List Chunk) :=
  match numbers with
  | none => .ok layout.chunks
  | some [] => .ok layout.chunks
  | some numbers => numbers.mapM layout.chunk

/-- The chunks through the first that ends after the given byte. -/
def throughByte (last : Nat) : List Chunk → List Chunk
  | [] => []
  | chunk :: rest => if last < chunk.stop then [chunk] else chunk :: throughByte last rest

/-- The chunks that a range selects. -/
def overlapping (chunks : List Chunk) (range : ByteRange) : List Chunk :=
  let reached :=
    match range.bound? with
    | some last => throughByte last chunks
    | none => chunks
  reached.dropWhile fun chunk => chunk.stop ≤ range.start

/-- The range normalized to the file, and the chunks that it selects. -/
def selectRange (layout : Layout) (range : ByteRange) :
    Except RetrievalError (ByteRange × List Chunk) := do
  let range ← range.normalize layout.fileId layout.size
  return (range, overlapping layout.chunks range)

end Reassembly.Layout
