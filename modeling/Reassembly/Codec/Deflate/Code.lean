import Reassembly.Codec.Deflate.BitStream

/-!
# Canonical prefix codes

A canonical code is given by the code length of every symbol. Codes of one length are consecutive
numbers in symbol order, and follow on the codes that are one bit shorter. Reading keeps the first
code of the current length and how many symbols have shorter codes, so no tree and no table of
codes is built: the number of symbols of each length and the symbols in code order suffice.
-/

namespace Reassembly.Deflate

open Reader

/-- The longest code that deflate knows. -/
def maxCodeLength : Nat := 15

/-- A canonical code. -/
structure Code where
  /-- How many symbols have codes of length 1, 2 and so on. -/
  counts : List Nat
  /-- The symbols that have codes, shortest code first and in symbol order within a length. -/
  symbols : Array Nat

/-- How many symbols have a code of the given length. -/
def countLength (lengths : List Nat) (length : Nat) : Nat := lengths.count length

/-- The symbols whose code has the given length. -/
def symbolsOfLength (lengths : List Nat) (length : Nat) : List Nat :=
  (lengths.zipIdx.filter fun p => p.1 = length).map Prod.snd

/-- The longest length that occurs. -/
def longest (lengths : List Nat) : Nat := lengths.foldl max 0

/-- How much of the code space of words of `maxCodeLength` bits the lengths take. -/
def occupied (lengths : List Nat) : Nat :=
  lengths.foldl (fun space length =>
    if length = 0 then space else space + Nat.pow 2 (maxCodeLength - length)) 0

/-- The lengths take the code space exactly. -/
def isComplete (lengths : List Nat) : Bool := occupied lengths = Nat.pow 2 maxCodeLength

/-- The lengths take more than the code space. -/
def isOversubscribed (lengths : List Nat) : Bool := Nat.pow 2 maxCodeLength < occupied lengths

/-- The code of the given lengths. It is read at least one bit deep, so that a code without
symbols still asks for the bit that it refuses. -/
def Code.ofLengths (lengths : List Nat) : Code :=
  let depths := List.range' 1 (max (longest lengths) 1)
  ⟨depths.map (countLength lengths), (depths.flatMap (symbolsOfLength lengths)).toArray⟩

/-- The code of literals or of distances. It may leave code space unused only while no code is
longer than one bit. -/
def Code.ofLengths? (lengths : List Nat) : Option Code :=
  if isOversubscribed lengths then none
  else if 1 < longest lengths ∧ ¬ isComplete lengths then none
  else some (Code.ofLengths lengths)

/-- The code of code lengths, which uses the whole code space. -/
def Code.ofCompleteLengths? (lengths : List Nat) : Option Code :=
  if isComplete lengths then some (Code.ofLengths lengths) else none

/-- Which codes a decoder makes of the lengths that a block gives, and which lengths it refuses.
Decoders agree where the lengths take the code space exactly. Where they take less of it one
decoder goes by the longest code, another by how many symbols have codes at all. -/
structure Dialect where
  /-- The code of code lengths. -/
  lengthCode? : List Nat → Option Code
  /-- The code of literals or of distances. -/
  symbolCode? : List Nat → Option Code

/-- The dialect in which payloads are read. -/
def Dialect.standard : Dialect := ⟨Code.ofCompleteLengths?, Code.ofLengths?⟩

/-- Read one symbol. `counts` starts with the next length; `code` holds the bits read so far,
`first` the first code of this length, both before the next bit is added, and `index` the number
of symbols with shorter codes. -/
def readSymbolFrom (symbols : Array Nat) :
    (counts : List Nat) → (code first index : Nat) → BitReader Nat
  | [], _, _, _ => refuse .corrupt
  | count :: counts, code, first, index => do
    let b ← bit
    let code := 2 * code + b.toNat
    let first := 2 * first
    if code < first + count then
      match symbols[index + (code - first)]? with
      | some symbol => return symbol
      | none => refuse .corrupt
    else readSymbolFrom symbols counts code (first + count) (index + count)

/-- Read one symbol. -/
def Code.read (code : Code) : BitReader Nat := readSymbolFrom code.symbols code.counts 0 0 0

/-- Reading a symbol takes at least one bit. -/
theorem consumes_readSymbolFrom (symbols : Array Nat) (counts : List Nat) (code first index : Nat) :
    Consumes (readSymbolFrom symbols counts code first index) := by
  induction counts generalizing code first index with
  | nil => exact Consumes.refuse _
  | cons count counts ih =>
    refine consumes_bit.bind fun b => ?_
    dsimp only
    split
    · split
      · exact Shrinks.pure _
      · exact Shrinks.refuse _
    · exact (ih _ _ _).shrinks

/-- Reading a symbol takes at least one bit. -/
theorem Code.consumes_read (code : Code) : Consumes code.read := consumes_readSymbolFrom _ _ _ _ _

end Reassembly.Deflate
