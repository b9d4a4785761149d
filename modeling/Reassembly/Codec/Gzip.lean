import Reassembly.Codec.Deflate

/-!
# Gzip members

A member is a header of ten bytes, the optional fields that its flags announce, a deflate stream,
and a trailer with the check value and the length of the data. One member is read; what follows
it is ignored. Members are written without optional fields and with stored blocks.

The check value is the cyclic redundancy check with the reflected polynomial `0xedb88320`, starting
from and finally complemented with all ones.
-/

namespace Reassembly

namespace Crc32

/-- Divide `bits` bits out of a register, low bit first. -/
def shift : (bits : Nat) → UInt32 → UInt32
  | 0, register => register
  | bits + 1, register =>
    shift bits (if register &&& 1 = 0 then register >>> 1 else (register >>> 1) ^^^ 0xedb88320)

/-- Take one byte into the register. -/
def step (register : UInt32) (b : UInt8) : UInt32 := shift 8 (register ^^^ b.toUInt32)

/-- The check value of a byte string. -/
def checksum (bytes : Bytes) : UInt32 := bytes.foldl step 0xffffffff ^^^ 0xffffffff

end Crc32

namespace Gzip

/-- Why a member is refused. -/
inductive Fault
  | truncated
  | invalidHeader
  | fieldTooLong
  | deflate (fault : Deflate.Fault)
  | checksum
  deriving Repr, DecidableEq

/-- The wording of a fault. -/
def Fault.message : Fault → String
  | .truncated => "unexpected end of file"
  | .invalidHeader => "invalid gzip header"
  | .fieldTooLong => "gzip header field too long"
  | .deflate fault => fault.message
  | .checksum => "corrupt gzip stream does not have a matching checksum"

/-- Which optional fields a header has. -/
structure Flags where
  extra : Bool
  name : Bool
  comment : Bool
  check : Bool

/-- Read the fixed part of a header: the magic, the one known method, and flags without reserved
bits. Time, extra flags and system are not looked at. -/
def readFixed (source : Bytes) : Except Fault (Flags × Bytes) :=
  match source with
  | m0 :: m1 :: method :: flags :: _ :: _ :: _ :: _ :: _ :: _ :: rest =>
    if m0 = 0x1f ∧ m1 = 0x8b ∧ method = 8 ∧ flags &&& 0xe0 = 0 then
      .ok (⟨flags &&& 4 ≠ 0, flags &&& 8 ≠ 0, flags &&& 16 ≠ 0, flags &&& 2 ≠ 0⟩, rest)
    else .error .invalidHeader
  | _ => .error .truncated

/-- Skip an extra field: its length in two bytes, and the bytes. -/
def skipExtra : Bytes → Except Fault Bytes
  | a :: b :: rest =>
    let length := Bytes.littleEndian [a, b]
    if (rest.take length).length < length then .error .truncated else .ok (rest.drop length)
  | _ => .error .truncated

/-- The most bytes a name or a comment may have. -/
def maxText : Nat := 65535

/-- Skip a zero-terminated text of at most `room` bytes. -/
def skipText : (room : Nat) → Bytes → Except Fault Bytes
  | _, [] => .error .truncated
  | room, b :: rest =>
    if b = 0 then .ok rest
    else
      match room with
      | 0 => .error .fieldTooLong
      | room + 1 => skipText room rest

/-- Skip the two bytes that check the header before them. -/
def skipCheck (header : Bytes) : Bytes → Except Fault Bytes
  | a :: b :: rest =>
    if Bytes.littleEndian [a, b] = (Crc32.checksum header).toNat % 65536 then .ok rest
    else .error .checksum
  | _ => .error .truncated

/-- Read a whole header and return what follows it. -/
def readHeader (source : Bytes) : Except Fault Bytes := do
  let (flags, rest) ← readFixed source
  let rest ← if flags.extra then skipExtra rest else pure rest
  let rest ← if flags.name then skipText maxText rest else pure rest
  let rest ← if flags.comment then skipText maxText rest else pure rest
  if flags.check then skipCheck (source.take (source.length - rest.length)) rest else pure rest

/-- The length of the data is given modulo this bound of 32 bits. -/
def lengthBound : Nat := 0x100000000

/-- Check the trailer at the start of a byte string against the data. -/
def checkTrailer (data : Bytes) : Bytes → Except Fault Unit
  | a :: b :: c :: d :: e :: f :: g :: h :: _ =>
    if Bytes.littleEndian [a, b, c, d] = (Crc32.checksum data).toNat ∧
        Bytes.littleEndian [e, f, g, h] = data.length % lengthBound then .ok ()
    else .error .checksum
  | _ => .error .truncated

/-- Read the member at the start of a byte string, in a dialect of its deflate stream. -/
def decodeIn (dialect : Deflate.Dialect) (source : Bytes) : Except Fault Bytes := do
  let body ← readHeader source
  let (data, rest) ← (Deflate.inflate dialect body).mapError .deflate
  checkTrailer data rest
  return data

/-- Read the member at the start of a byte string. -/
def decode (source : Bytes) : Except Fault Bytes := decodeIn .standard source

/-- The header that is written: no fields, no time, an unknown system. -/
def header : Bytes := [0x1f, 0x8b, 8, 0, 0, 0, 0, 0, 0, 0xff]

/-- Write a member. -/
def encode (data : Bytes) : Bytes :=
  header ++ Deflate.store data ++ Bytes.ofNatLittleEndian 4 (Crc32.checksum data).toNat ++
    Bytes.ofNatLittleEndian 4 data.length

end Gzip

end Reassembly
