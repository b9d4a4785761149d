import Reassembly.Bytes

/-!
# Raw Snappy blocks

A block is the length of its data, written in seven-bit groups with the low group first, followed
by elements. A literal carries bytes; a copy repeats bytes already written, and may overlap what
it writes. The low two bits of an element's first byte say which it is.

Reading checks every element against what is left of the source and of the declared length before
it writes, so a block is either read completely or refused with the first element that does not
fit.
-/

namespace Reassembly.Snappy

/-- Why a block is refused. `source` and `room` are what was left of the block and of its declared
length. -/
inductive Fault
  | empty
  | header
  | tooLong (declared : Nat)
  | literal (length source room : Nat)
  | copyRead (length source : Nat)
  | badOffset (offset written : Nat)
  | copyWrite (length room : Nat)
  | lengthMismatch (declared written : Nat)
  deriving Repr, DecidableEq

/-- The largest length a block may declare. -/
def maxLength : Nat := 4294967295

/-- The wording of a fault. -/
def Fault.message : Fault → String
  | .empty => "snappy: corrupt input (empty)"
  | .header => "snappy: corrupt input (invalid header)"
  | .tooLong declared =>
    s!"snappy: input buffer (size = {declared}) is larger than allowed (size = {maxLength})"
  | .literal length source room =>
    s!"snappy: corrupt input (expected literal read of length {length}; remaining src: {source}; " ++
      s!"remaining dst: {room})"
  | .copyRead length source =>
    s!"snappy: corrupt input (expected copy read of length {length}; remaining src: {source})"
  | .badOffset offset written =>
    s!"snappy: corrupt input (expected valid offset but got offset {offset}; " ++
      s!"dst position: {written})"
  | .copyWrite length room =>
    s!"snappy: corrupt input (expected copy write of length {length}; remaining dst: {room})"
  | .lengthMismatch declared written =>
    s!"snappy: corrupt input (header mismatch; expected {declared} decompressed bytes but got " ++
      s!"{written})"

/-- Read a number of at most `groups` seven-bit groups, low group first. -/
def readVarint : (groups : Nat) → Bytes → Option (Nat × Bytes)
  | 0, _ => none
  | _, [] => none
  | groups + 1, b :: rest =>
    if b < 0x80 then some (b.toNat, rest)
    else (readVarint groups rest).map fun (high, rest) => (b.toNat - 128 + 128 * high, rest)

/-- The most groups a declared length may take. -/
def maxGroups : Nat := 5

/-- Write a number in at most `groups` seven-bit groups, low group first. -/
def writeVarint : (groups n : Nat) → Bytes
  | 0, _ => []
  | groups + 1, n =>
    if n < 128 then [UInt8.ofNat n] else UInt8.ofNat (n % 128 + 128) :: writeVarint groups (n / 128)

/-- What an element does to the data written so far. -/
inductive Element
  | literal (data : Bytes)
  | copy (offset length : Nat)
  deriving Repr, DecidableEq

/-- Append `length` bytes, each the byte `offset` places back. An offset that reaches back too far
repeats zero bytes. -/
def repeatBack (out : Array UInt8) (offset : Nat) : (length : Nat) → Array UInt8
  | 0 => out
  | length + 1 => repeatBack (out.push (out.getD (out.size - offset) 0)) offset length

/-- Write an element. -/
def Element.write (out : Array UInt8) : Element → Array UInt8
  | .literal data => out ++ data
  | .copy offset length => repeatBack out offset length

/-- The data that a sequence of elements writes. -/
def expand (elements : List Element) : Array UInt8 := elements.foldl Element.write #[]

/-- Read `width` length bytes and then the literal they announce. `source` starts behind the
element's first byte. -/
def readLongLiteral (width room : Nat) (source : Bytes) : Except Fault (Element × Bytes) :=
  let lengthBytes := source.take width
  if lengthBytes.length < width then .error (.literal width source.length room)
  else
    let rest := source.drop width
    let length := Bytes.littleEndian lengthBytes + 1
    let data := rest.take length
    if data.length < length ∨ room < length then .error (.literal length rest.length room)
    else .ok (.literal data, rest.drop length)

/-- Read a literal whose length stands in the element's first byte. -/
def readShortLiteral (length room : Nat) (source : Bytes) : Except Fault (Element × Bytes) :=
  let data := source.take length
  if data.length < length ∨ room < length then .error (.literal length source.length room)
  else .ok (.literal data, source.drop length)

/-- Read a copy with `width` offset bytes, the bits above them being `high`. -/
def readCopy (width high length written room : Nat) (source : Bytes) :
    Except Fault (Element × Bytes) :=
  let offsetBytes := source.take width
  if offsetBytes.length < width then .error (.copyRead width source.length)
  else
    let offset := high * Nat.pow 256 width + Bytes.littleEndian offsetBytes
    if offset = 0 ∨ written < offset then .error (.badOffset offset written)
    else if room < length then .error (.copyWrite length room)
    else .ok (.copy offset length, source.drop width)

/-- Read the element that starts with byte `tag`, when `written` bytes have been written and
`room` bytes are missing. -/
def readElement (tag : UInt8) (written room : Nat) (source : Bytes) :
    Except Fault (Element × Bytes) :=
  let high := tag.toNat / 4
  match tag.toNat % 4 with
  | 0 => if high < 60 then readShortLiteral (high + 1) room source
    else readLongLiteral (high - 59) room source
  | 1 => readCopy 1 (high / 8) (high % 8 + 4) written room source
  | 2 => readCopy 2 0 (high + 1) written room source
  | _ => readCopy 4 0 (high + 1) written room source

/-- What is left behind an element is no longer than what stood before it. -/
theorem readElement_length_le {tag : UInt8} {written room : Nat} {source rest : Bytes}
    {element : Element} (h : readElement tag written room source = .ok (element, rest)) :
    rest.length ≤ source.length := by
  simp only [readElement, readShortLiteral, readLongLiteral, readCopy] at h
  repeat' split at h
  all_goals simp only [Except.ok.injEq, Prod.mk.injEq, reduceCtorEq] at h
  all_goals (obtain ⟨_, rfl⟩ := h; simp only [List.length_drop]; omega)

/-- Read elements until the source is used up. -/
def readElements (declared : Nat) (source : Bytes) (out : Array UInt8) :
    Except Fault (Array UInt8) :=
  match source with
  | [] => .ok out
  | tag :: source =>
    match h : readElement tag out.size (declared - out.size) source with
    | .error fault => .error fault
    | .ok (element, rest) =>
      have : rest.length < source.length + 1 := Nat.lt_succ_of_le (readElement_length_le h)
      readElements declared rest (element.write out)
termination_by source.length

/-- Read a block. -/
def decode (block : Bytes) : Except Fault Bytes :=
  if block = [] then .error .empty
  else
    match readVarint maxGroups block with
    | none => .error .header
    | some (declared, source) =>
      if maxLength < declared then .error (.tooLong declared)
      else
        match readElements declared source #[] with
        | .error fault => .error fault
        | .ok out =>
          if out.size = declared then .ok out.toList else .error (.lengthMismatch declared out.size)

/-- Write one literal. -/
def writeLiteral (data : Bytes) : Bytes :=
  match data.length with
  | 0 => []
  | n + 1 =>
    if n < 60 then UInt8.ofNat (n * 4) :: data
    else if n < 256 then 0xf0 :: (Bytes.ofNatLittleEndian 1 n ++ data)
    else if n < 65536 then 0xf4 :: (Bytes.ofNatLittleEndian 2 n ++ data)
    else if n < 16777216 then 0xf8 :: (Bytes.ofNatLittleEndian 3 n ++ data)
    else 0xfc :: (Bytes.ofNatLittleEndian 4 n ++ data)

/-- Write a copy of at most 64 bytes with a two-byte offset. -/
def writeFarCopy (offset length : Nat) : Bytes :=
  UInt8.ofNat ((length - 1) * 4 + 2) :: Bytes.ofNatLittleEndian 2 offset

/-- Write a copy of at most 64 bytes in the shortest form that holds it. -/
def writeShortCopy (offset length : Nat) : Bytes :=
  if length ≤ 11 ∧ offset ≤ 2047 then
    [UInt8.ofNat (offset / 256 * 32 + (length - 4) * 4 + 1), UInt8.ofNat offset]
  else writeFarCopy offset length

/-- Write a copy of any length. Pieces of 64 bytes are split off first; a rest between 65 and 67
bytes loses only 60 of them, so that at least four remain for the last piece. -/
def writeCopy (offset length : Nat) : Bytes :=
  if 68 ≤ length then writeFarCopy offset 64 ++ writeCopy offset (length - 64)
  else if 64 < length then writeFarCopy offset 60 ++ writeShortCopy offset (length - 60)
  else writeShortCopy offset length
termination_by length

/-- Write an element. -/
def Element.encode : Element → Bytes
  | .literal data => writeLiteral data
  | .copy offset length => writeCopy offset length

end Reassembly.Snappy
