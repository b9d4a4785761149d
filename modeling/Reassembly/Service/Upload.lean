import Reassembly.Codec.ContentKey
import Reassembly.Codec.SealedBlock
import Reassembly.Service.Depot

/-!
# Uploads

An upload cuts a file into chunks of given lengths, encodes each as the file is to be stored, and
stores the result in a depot. Encoding compresses, then encrypts. The content key of the file and
the initial vector of each of its chunks are drawn anew; the draws are an argument here.
-/

namespace Reassembly

/-- How a file is stored. -/
structure Encoding where
  compression : Compression := .none
  /-- Snappy data is cut into frames. -/
  framed : Bool := true
  /-- The number of bytes of a frame. -/
  frameSize : Nat := Snappy.defaultFrameSize
  /-- The secret under which the content key is wrapped; without one the file is not encrypted. -/
  secret : Option String := none
  /-- The number of bytes of the content key. -/
  keyLength : Nat := 32
  deriving Repr, DecidableEq

/-- The random bytes of an upload: draw zero is the content key, and draw `i + 1` the initial vector
of chunk `i`. -/
abbrev Draws := (draw index : Nat) → UInt8

/-- The first bytes of a draw. -/
def Draws.take (draws : Draws) (draw length : Nat) : Bytes := (List.range length).map (draws draw)

/-- Why a file cannot be uploaded. -/
inductive UploadFault
  | refused (error : ServiceError)
  | unusableSecret (fault : Base64.Fault)
  deriving Repr, DecidableEq

namespace Encoding

/-- The data of a chunk as it is compressed for storage. -/
def compress (encoding : Encoding) (data : Bytes) : Bytes :=
  match encoding.compression with
  | .snappy => if encoding.framed then Snappy.encodeContainer data encoding.frameSize else Snappy.encode data
  | .gzip => Gzip.encode data
  | .none => data

/-- A compressed chunk as it is stored: encrypted, when there is a key of a supported length. -/
def enclose (key : Option Bytes) (vector payload : Bytes) : Bytes :=
  match key with
  | none => payload
  | some key => (SealedBlock.encrypt? payload key vector).getD payload

/-- The payload of a chunk. -/
def payload (encoding : Encoding) (key : Option Bytes) (vector data : Bytes) : Bytes :=
  enclose key vector (encoding.compress data)

end Encoding

/-- Cut data into pieces of the given lengths. -/
def cutInto : List Nat → Bytes → List Bytes
  | [], _ => []
  | length :: rest, data => data.take length :: cutInto rest (data.drop length)

/-- The content key of a file and its wrapped form. -/
def Encoding.drawKey (encoding : Encoding) (draws : Draws) :
    Except UploadFault (Option Bytes × Encryption) :=
  match encoding.secret with
  | none => .ok (none, {})
  | some secret =>
    if encoding.keyLength ∈ [16, 24, 32] then
      let key := draws.take 0 encoding.keyLength
      match ContentKey.wrap key (Bytes.ofText secret) with
      | .ok wrapped => .ok (some key, ⟨true, (Bytes.toText? wrapped).getD ""⟩)
      | .error fault => .error (.unusableSecret fault)
    else
      .error (.refused (.invalidArguments s!"unsupported content key length {encoding.keyLength}"))

namespace Depot

/-- Upload a file. The answer is its content key, if it has one. -/
def upload (depot : Depot) (fileId : String) (data : Bytes) (lengths : List Nat)
    (encoding : Encoding) (draws : Draws) : Except UploadFault (Option Bytes × Depot) := do
  if lengths.foldl (· + ·) 0 ≠ data.length then
    throw (.refused (.invalidArguments
      s!"chunk lengths do not add up to the data length {data.length}"))
  let (key, encryption) ← encoding.drawKey draws
  let payloads := (cutInto lengths data).mapIdx fun i piece =>
    encoding.payload key (draws.take (i + 1) Aes.blockSize) piece
  let manifest : Manifest :=
    ⟨encryption, encoding.compression.name, lengths.map fun length => ⟨"", length⟩⟩
  match depot.store fileId manifest payloads with
  | .ok depot => return (key, depot)
  | .error error => throw (.refused error)

end Depot

end Reassembly
