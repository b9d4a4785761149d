import Reassembly.Codec.Deflate.Code

/-!
# Deflate

A deflate stream is a sequence of blocks, the last of which is marked. A block is stored, or coded
with codes for literals and lengths and for distances; the codes are fixed or described in the
block. A copy repeats bytes from at most 32768 places back. In front of the data stands a window
of zero bytes, so a distance that reaches before the start repeats zeros.

Only stored blocks are written.
-/

namespace Reassembly.Deflate

open Reader

/-- The shortest length of each length symbol from 257 on, with its number of extra bits. -/
def lengthTable : List (Nat × Nat) :=
  [(3, 0), (4, 0), (5, 0), (6, 0), (7, 0), (8, 0), (9, 0), (10, 0), (11, 1), (13, 1), (15, 1),
    (17, 1), (19, 2), (23, 2), (27, 2), (31, 2), (35, 3), (43, 3), (51, 3), (59, 3), (67, 4),
    (83, 4), (99, 4), (115, 4), (131, 5), (163, 5), (195, 5), (227, 5), (258, 0)]

/-- The shortest distance of each distance symbol, with its number of extra bits. -/
def distanceTable : List (Nat × Nat) :=
  [(1, 0), (2, 0), (3, 0), (4, 0), (5, 1), (7, 1), (9, 2), (13, 2), (17, 3), (25, 3), (33, 4),
    (49, 4), (65, 5), (97, 5), (129, 6), (193, 6), (257, 7), (385, 7), (513, 8), (769, 8),
    (1025, 9), (1537, 9), (2049, 10), (3073, 10), (4097, 11), (6145, 11), (8193, 12), (12289, 12),
    (16385, 13), (24577, 13)]

/-- One step of a coded block. -/
inductive Token
  | literal (b : UInt8)
  | copy (length distance : Nat)
  | endOfBlock

/-- Read a value given by a table entry and its extra bits; a symbol without an entry is refused. -/
def readExtra : Option (Nat × Nat) → BitReader Nat
  | none => refuse .corrupt
  | some (base, width) => do return base + (← bits width)

/-- Reading extra bits shrinks. -/
theorem shrinks_readExtra (entry : Option (Nat × Nat)) : Shrinks (readExtra entry) := by
  cases entry with
  | none => exact Shrinks.refuse _
  | some p => exact (shrinks_bits _).bind fun _ => Shrinks.pure _

/-- Read the copy that a length symbol announces. -/
def readCopy (distances : Code) (symbol : Nat) : BitReader Token := do
  let length ← readExtra lengthTable[symbol - 257]?
  let symbol ← distances.read
  let distance ← readExtra distanceTable[symbol]?
  return .copy length distance

/-- Reading a copy shrinks. -/
theorem shrinks_readCopy (distances : Code) (symbol : Nat) : Shrinks (readCopy distances symbol) :=
  (shrinks_readExtra _).bind fun _ => (Code.consumes_read _).shrinks.bind fun _ =>
    (shrinks_readExtra _).bind fun _ => Shrinks.pure _

/-- Read one step of a coded block. -/
def readToken (literals distances : Code) : BitReader Token := do
  let symbol ← literals.read
  if symbol < 256 then return .literal (UInt8.ofNat symbol)
  else if symbol = 256 then return .endOfBlock
  else readCopy distances symbol

/-- Reading a step takes at least one bit. -/
theorem consumes_readToken (literals distances : Code) : Consumes (readToken literals distances) := by
  refine (Code.consumes_read _).bind fun symbol => ?_
  split
  · exact Shrinks.pure _
  · split
    · exact Shrinks.pure _
    · exact shrinks_readCopy _ _

/-- Append `length` bytes, each the byte `distance` places back, or zero before the start. -/
def repeatBack (out : Array UInt8) (distance : Nat) : (length : Nat) → Array UInt8
  | 0 => out
  | length + 1 =>
    let b := if distance ≤ out.size then out.getD (out.size - distance) 0 else 0
    repeatBack (out.push b) distance length

/-- Read the steps of a coded block behind the data written so far. -/
def readTokens (literals distances : Code) (out : Array UInt8) : BitReader (Array UInt8) := fun s =>
  match h : readToken literals distances s with
  | .error fault => .error fault
  | .ok (token, t) =>
    have : t.size < s.size := consumes_readToken _ _ _ _ _ h
    match token with
    | .literal b => readTokens literals distances (out.push b) t
    | .copy length distance => readTokens literals distances (repeatBack out distance length) t
    | .endOfBlock => .ok (out, t)
termination_by s => s.size

/-- Read a stored block: its length, the length's complement, and the bytes. -/
def readStored (out : Array UInt8) : BitReader (Array UInt8) := do
  align
  let length ← bits 16
  let complement ← bits 16
  if length + complement = 0xffff then return out ++ (← bytes length)
  else refuse .corrupt

/-- The lengths of the fixed code of literals and lengths. -/
def fixedLiteralLengths : List Nat :=
  List.replicate 144 8 ++ List.replicate 112 9 ++ List.replicate 24 7 ++ List.replicate 8 8

/-- The lengths of the fixed code of distances. -/
def fixedDistanceLengths : List Nat := List.replicate 32 5

/-- The fixed code of literals and lengths. -/
def fixedLiterals : Code := .ofLengths fixedLiteralLengths

/-- The fixed code of distances. -/
def fixedDistances : Code := .ofLengths fixedDistanceLengths

/-- The order in which the lengths of the code of code lengths are given. -/
def codeLengthOrder : List Nat :=
  [16, 17, 18, 0, 8, 7, 9, 6, 10, 5, 11, 4, 12, 3, 13, 2, 14, 1, 15]

/-- Read `count` numbers of three bits. -/
def readThreeBits : (count : Nat) → BitReader (List Nat)
  | 0 => pure []
  | count + 1 => do
    let n ← bits 3
    let rest ← readThreeBits count
    return n :: rest

/-- The length that each symbol of the code of code lengths has when the given ones stand for the
first symbols in `codeLengthOrder`. -/
def codeLengthLengths (given : List Nat) : List Nat :=
  (List.range 19).map fun symbol => ((codeLengthOrder.zip given).lookup symbol).getD 0

/-- Read a length symbol with what it repeats: `(n, l)` stands for `n` lengths `l`. `previous` is
the length before. -/
def readRun (code : Code) (previous : Option Nat) : BitReader (Nat × Nat) := do
  let symbol ← code.read
  if symbol < 16 then return (1, symbol)
  else if symbol = 16 then
    match previous with
    | none => refuse .corrupt
    | some length => return (3 + (← bits 2), length)
  else if symbol = 17 then return (3 + (← bits 3), 0)
  else return (11 + (← bits 7), 0)

/-- Read exactly `needed` more code lengths behind those given, which stand latest first. A run
may not go past the last of them. -/
def readLengths (code : Code) (needed : Nat) (earlier : List Nat) : BitReader (List Nat) :=
  if needed = 0 then pure earlier.reverse
  else do
    let (count, length) ← readRun code earlier.head?
    if 0 < count ∧ count ≤ needed then
      readLengths code (needed - count) (List.replicate count length ++ earlier)
    else refuse .corrupt
termination_by needed

/-- Read the two codes that a block describes. -/
def readCodes (dialect : Dialect) : BitReader (Code × Code) := do
  let literalCount := 257 + (← bits 5)
  let distanceCount := 1 + (← bits 5)
  let given := 4 + (← bits 4)
  if 286 < literalCount ∨ 30 < distanceCount then refuse .corrupt
  else do
    let given ← readThreeBits given
    match dialect.lengthCode? (codeLengthLengths given) with
    | none => refuse .corrupt
    | some code => do
      let lengths ← readLengths code (literalCount + distanceCount) []
      match dialect.symbolCode? (lengths.take literalCount),
          dialect.symbolCode? (lengths.drop literalCount) with
      | some literals, some distances => return (literals, distances)
      | _, _ => refuse .corrupt

/-- Read one block behind the data written so far, and whether it is the last. -/
def readBlock (dialect : Dialect) (out : Array UInt8) : BitReader (Bool × Array UInt8) := do
  let last ← bit
  let kind ← bits 2
  match kind with
  | 0 => return (last, ← readStored out)
  | 1 => return (last, ← readTokens fixedLiterals fixedDistances out)
  | 2 => do
    let (literals, distances) ← readCodes dialect
    return (last, ← readTokens literals distances out)
  | _ => refuse .corrupt

/-- Reading the steps of a block shrinks. -/
theorem shrinks_readTokens (literals distances : Code) (out : Array UInt8) :
    Shrinks (readTokens literals distances out) := by
  intro s a t h
  fun_induction readTokens literals distances out s with
  | case1 => simp at h
  | case2 out s u b hu _ _ ih => exact Nat.le_trans (ih h) (Nat.le_of_lt ‹_›)
  | case3 out s u length distance hu _ _ ih => exact Nat.le_trans (ih h) (Nat.le_of_lt ‹_›)
  | case4 out s u hu =>
    simp only [Except.ok.injEq, Prod.mk.injEq] at h
    obtain ⟨-, rfl⟩ := h
    exact Nat.le_of_lt ‹_›

/-- Reading a stored block shrinks. -/
theorem shrinks_readStored (out : Array UInt8) : Shrinks (readStored out) := by
  refine shrinks_align.bind fun _ => (shrinks_bits _).bind fun _ => (shrinks_bits _).bind fun _ => ?_
  split
  · exact (shrinks_bytes _).bind fun _ => Shrinks.pure _
  · exact Shrinks.refuse _

/-- Reading numbers of three bits shrinks. -/
theorem shrinks_readThreeBits (count : Nat) : Shrinks (readThreeBits count) := by
  induction count with
  | zero => exact Shrinks.pure _
  | succ count ih => exact (shrinks_bits _).bind fun _ => ih.bind fun _ => Shrinks.pure _

/-- Reading a run shrinks. -/
theorem shrinks_readRun (code : Code) (previous : Option Nat) : Shrinks (readRun code previous) := by
  refine (Code.consumes_read _).shrinks.bind fun symbol => ?_
  split
  · exact Shrinks.pure _
  · split
    · split
      · exact Shrinks.refuse _
      · exact (shrinks_bits _).bind fun _ => Shrinks.pure _
    · split <;> exact (shrinks_bits _).bind fun _ => Shrinks.pure _

/-- Reading code lengths shrinks. -/
theorem shrinks_readLengths (code : Code) (needed : Nat) (earlier : List Nat) :
    Shrinks (readLengths code needed earlier) := by
  induction needed using Nat.strongRecOn generalizing earlier with
  | ind needed ih =>
    rw [readLengths]
    split
    · exact Shrinks.pure _
    · refine (shrinks_readRun _ _).bind fun run => ?_
      dsimp only
      split
      · exact ih _ (by omega) _
      · exact Shrinks.refuse _

/-- Reading the codes of a block shrinks. -/
theorem shrinks_readCodes (dialect : Dialect) : Shrinks (readCodes dialect) := by
  refine (shrinks_bits _).bind fun _ => (shrinks_bits _).bind fun _ => (shrinks_bits _).bind fun _ => ?_
  split
  · exact Shrinks.refuse _
  · refine (shrinks_readThreeBits _).bind fun _ => ?_
    split
    · exact Shrinks.refuse _
    · refine (shrinks_readLengths _ _ _).bind fun _ => ?_
      split
      · exact Shrinks.pure _
      · exact Shrinks.refuse _

/-- Reading a block takes at least one bit. -/
theorem consumes_readBlock (dialect : Dialect) (out : Array UInt8) : Consumes (readBlock dialect out) := by
  refine consumes_bit.bind fun _ => (shrinks_bits _).bind fun _ => ?_
  split
  · exact (shrinks_readStored _).bind fun _ => Shrinks.pure _
  · exact (shrinks_readTokens _ _ _).bind fun _ => Shrinks.pure _
  · exact (shrinks_readCodes dialect).bind fun _ => (shrinks_readTokens _ _ _).bind fun _ => Shrinks.pure _
  · exact Shrinks.refuse _

/-- Read blocks up to the last one. -/
def readBlocks (dialect : Dialect) (out : Array UInt8) : BitReader (Array UInt8) := fun s =>
  match h : readBlock dialect out s with
  | .error fault => .error fault
  | .ok ((last, out), t) =>
    have : t.size < s.size := consumes_readBlock _ _ _ _ _ h
    if last then .ok (out, t) else readBlocks dialect out t
termination_by s => s.size

/-- Read the deflate stream at the start of a byte string: its data, and the bytes behind the byte
in which it ends. -/
def inflate (dialect : Dialect) (source : Bytes) : Except Fault (Bytes × Bytes) :=
  match readBlocks dialect #[] (.ofBytes source) with
  | .error fault => .error fault
  | .ok (out, s) => .ok (out.toList, s.rest)

/-- The most bytes a stored block holds. -/
def maxStored : Nat := 65535

/-- Write one stored block. -/
def writeStored (last : Bool) (data : Bytes) : Bytes :=
  (if last then 1 else 0) :: (Bytes.ofNatLittleEndian 2 data.length ++
    Bytes.ofNatLittleEndian 2 (maxStored - data.length) ++ data)

/-- Write a stream of stored blocks. -/
def store (data : Bytes) : Bytes :=
  if data.length ≤ maxStored then writeStored true data
  else writeStored false (data.take maxStored) ++ store (data.drop maxStored)
termination_by data.length
decreasing_by
  simp only [List.length_drop, maxStored] at *
  omega

end Reassembly.Deflate
