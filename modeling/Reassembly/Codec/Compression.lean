import Reassembly.Codec.Gzip
import Reassembly.Codec.Snappy.Frames

/-!
# Compression of chunks

A file names the compression of its chunks. Names are read without regard to the case of ASCII
letters, and no name at all means no compression.
-/

namespace Reassembly

/-- How the chunks of a file are compressed. -/
inductive Compression
  | snappy
  | gzip
  | none
  deriving Repr, DecidableEq, Inhabited

namespace Compression

/-- The name of a compression. -/
def name : Compression → String
  | snappy => "SNAPPY"
  | gzip => "GZIP"
  | none => "NONE"

/-- Chunks of the file are stored shorter or longer than they are. -/
def isCompressed : Compression → Bool
  | none => false
  | _ => true

/-- The compression that an upper-case name stands for. -/
def ofUpper? (name : String) : Option Compression :=
  if name = "SNAPPY" then some snappy
  else if name = "GZIP" then some gzip
  else if name = "NONE" ∨ name = "" then some none
  else Option.none

/-- The compression that a name stands for. -/
def ofName? (name : String) : Option Compression := ofUpper? (name.map Char.toUpper)

/-- Why a payload cannot be decompressed. -/
inductive Fault
  | snappy (fault : Snappy.PayloadFault)
  | gzip (fault : Gzip.Fault)
  deriving Repr, DecidableEq

/-- The wording of a fault. -/
def Fault.message : Fault → String
  | .snappy fault => fault.message
  | .gzip fault => s!"gzip: {fault.message}"

/-- Recover the data of a payload, a member being read in a dialect. -/
def decompressIn (dialect : Deflate.Dialect) (compression : Compression) (payload : Bytes) :
    Except Fault Bytes :=
  match compression with
  | snappy => (Snappy.decodePayload payload).mapError .snappy
  | gzip => (Gzip.decodeIn dialect payload).mapError .gzip
  | none => .ok payload

/-- Recover the data of a payload. -/
def decompress (compression : Compression) (payload : Bytes) : Except Fault Bytes :=
  compression.decompressIn .standard payload

/-- A Snappy payload is a raw block or a container. -/
theorem decompress_snappy (payload : Bytes) :
    snappy.decompress payload = (Snappy.decodePayload payload).mapError .snappy := rfl

/-- A gzip payload is a member. -/
theorem decompress_gzip (payload : Bytes) :
    gzip.decompress payload = (Gzip.decode payload).mapError .gzip := rfl

end Compression

end Reassembly
