import Reassembly.Codec.Snappy

/-!
# Writing raw Snappy blocks

A block is planned piece by piece: 65536 bytes at a time are searched greedily for four-byte
repetitions through a hash table of earlier positions, stepping faster the longer nothing is
found. The plan is a list of elements. It is written only after it has been checked to expand to
the data; otherwise the data is written as one literal, so what is written never depends on the
search being right.
-/

namespace Reassembly.Snappy

/-- The most bytes that are searched together; repetitions do not reach from piece to piece. -/
def pieceSize : Nat := 65536

/-- How far the search stays away from the end of a piece. -/
def margin : Nat := 15

/-- The shortest piece that is searched at all. -/
def minSearched : Nat := 17

/-- A piece under search: its bytes, and by how far a hash is shifted to index its table. -/
structure Piece where
  data : Array UInt8
  shift : UInt32

/-- The number of bits that index the table of a piece: enough for its size, between 8 and 14. -/
def tableBits (size : Nat) : Nat :=
  ((List.range' 8 6).find? fun bits => size ≤ Nat.pow 2 bits).getD 14

namespace Piece

/-- The four bytes from a position on, low byte first. -/
def word (piece : Piece) (i : Nat) : UInt32 :=
  (piece.data.getD i 0).toUInt32 ||| ((piece.data.getD (i + 1) 0).toUInt32 <<< 8) |||
    ((piece.data.getD (i + 2) 0).toUInt32 <<< 16) ||| ((piece.data.getD (i + 3) 0).toUInt32 <<< 24)

/-- The table index of the four bytes from a position on. -/
def hash (piece : Piece) (i : Nat) : Nat := ((piece.word i * 0x1e35a7bd) >>> piece.shift).toNat

/-- The last position from which the search goes on. -/
def limit (piece : Piece) : Nat := piece.data.size - margin

/-- How many bytes from `j` on repeat those from `i` on. -/
def common (piece : Piece) (i j : Nat) : Nat :=
  if h : j < piece.data.size then
    if piece.data.getD i 0 = piece.data[j] then piece.common (i + 1) (j + 1) + 1 else 0
  else 0
termination_by piece.data.size - j

/-- The bytes between two positions. -/
def slice (piece : Piece) (start stop : Nat) : Bytes := (piece.data.extract start stop).toList

/-- The literal between two positions, in front of what is planned later. -/
def literal (piece : Piece) (start stop : Nat) (earlier : List Element) : List Element :=
  if start < stop then .literal (piece.slice start stop) :: earlier else earlier

end Piece

/-- What the search does next: look for a repetition, `skip` of 32 steps having been taken and
the four bytes ahead hashing to `next`, or repeat from a position that is known to match. -/
inductive Pursuit
  | seek (skip next : Nat)
  | follow (candidate : Nat)

/-- The weight of a pursuit at one position: a seek turns into a follow, never back. -/
def Pursuit.weight : Pursuit → Nat
  | .seek .. => 1
  | .follow _ => 0

/-- Search a piece from position `s` on. `emitted` is where the planned elements end, and
`earlier` holds them, latest first. -/
def search (piece : Piece) (table : Array Nat) (s emitted : Nat) (pursuit : Pursuit)
    (earlier : List Element) : List Element :=
  match pursuit with
  | .seek skip next =>
    let ahead := s + (skip / 32 + 1)
    if h : ahead ≤ piece.limit then
      let candidate := table.getD next 0
      let table := table.setIfInBounds next s
      if piece.word s = piece.word candidate then
        search piece table s s (.follow candidate) (piece.literal emitted s earlier)
      else
        search piece table ahead emitted (.seek (skip + (skip / 32 + 1)) (piece.hash ahead)) earlier
    else piece.literal emitted piece.data.size earlier
  | .follow candidate =>
    let length := 4 + piece.common (candidate + 4) (s + 4)
    let stop := s + length
    let earlier := .copy (s - candidate) length :: earlier
    if h : stop < piece.limit then
      let table := table.setIfInBounds (piece.hash (stop - 1)) (stop - 1)
      let index := piece.hash stop
      let candidate := table.getD index 0
      let table := table.setIfInBounds index stop
      if piece.word stop = piece.word candidate then
        search piece table stop stop (.follow candidate) earlier
      else
        search piece table (stop + 1) stop (.seek 0 (piece.hash (stop + 1))) earlier
    else piece.literal stop piece.data.size earlier
termination_by 2 * (piece.data.size - s) + pursuit.weight
decreasing_by
  all_goals simp only [Pursuit.weight, Piece.limit, margin] at *
  all_goals omega

/-- The elements of one piece. -/
def planPiece (data : Array UInt8) : List Element :=
  if data.size < minSearched then (⟨data, 0⟩ : Piece).literal 0 data.size []
  else
    let bits := tableBits data.size
    let piece : Piece := ⟨data, UInt32.ofNat (32 - bits)⟩
    (search piece (Array.replicate (Nat.pow 2 bits) 0) 1 0 (.seek 0 (piece.hash 1)) []).reverse

/-- Split a byte string into parts of `size` bytes, the last of which may be shorter. -/
def split (size : Nat) (data : Bytes) : List Bytes :=
  if data = [] ∨ size = 0 then []
  else data.take size :: split size (data.drop size)
termination_by data.length
decreasing_by
  have := List.length_pos_iff.mpr (not_or.mp ‹¬(data = [] ∨ size = 0)›).1
  simp only [List.length_drop]
  omega

/-- The elements of a whole block. -/
def plan (data : Bytes) : List Element :=
  (split pieceSize data).flatMap fun piece => planPiece piece.toArray

/-- An element that can be written behind `written` bytes so that it reads back. -/
def Element.fits (written : Nat) : Element → Bool
  | .literal data => data.length ≠ 0
  | .copy offset length => 1 ≤ offset && offset ≤ written && offset < 65536 && 4 ≤ length

/-- How many bytes an element writes. -/
def Element.length : Element → Nat
  | .literal data => data.length
  | .copy _ length => length

/-- Every element fits behind those before it. -/
def fitFrom : (written : Nat) → List Element → Bool
  | _, [] => true
  | written, element :: rest => element.fits written && fitFrom (written + element.length) rest

/-- The elements that are written for a block: the plan when it is sound, one literal otherwise. -/
def elementsOf (data : Bytes) : List Element :=
  let planned := plan data
  if fitFrom 0 planned && (expand planned).toList == data then planned
  else if data = [] then [] else [.literal data]

/-- Write a block. -/
def encode (data : Bytes) : Bytes :=
  writeVarint maxGroups data.length ++ (elementsOf data).flatMap Element.encode

end Reassembly.Snappy
