import Reassembly.Manifest
import Reassembly.Retrieval.Error

/-!
# Layouts

Laying out a file places its chunks one after the other from offset zero. A manifest that cannot be
laid out is refused for the first thing that is wrong with it: no chunks, an unknown compression, an
encrypted file without a key, and then, chunk by chunk, a missing location or a size that does not
fit in 64 bits.
-/

namespace Reassembly

/-- Sizes and offsets of files lie below this bound of 64 bits. -/
def sizeBound : Nat := 0x10000000000000000

/-- A chunk at its place in a file. Chunks are numbered from one. -/
structure Chunk where
  number : Nat
  offset : Nat
  length : Nat
  location : String
  deriving Repr, DecidableEq

/-- The offset after a chunk. -/
def Chunk.stop (chunk : Chunk) : Nat := chunk.offset + chunk.length

/-- A file whose chunks have their places. A file is encrypted when it has a wrapped key. -/
structure Layout where
  fileId : String
  wrappedKey : Option String
  compression : Compression
  chunks : List Chunk
  size : Nat
  deriving Repr, DecidableEq

/-- The place of a chunk, for the errors that belong to it. -/
def Chunk.context (chunk : Chunk) (fileId : String) : ChunkContext :=
  ⟨fileId, chunk.number, chunk.offset, chunk.length⟩

namespace Layout

/-- The file is encrypted. -/
def encrypted (layout : Layout) : Bool := layout.wrappedKey.isSome

/-- The number of chunks of a file. -/
def count (layout : Layout) : Nat := layout.chunks.length

/-- Why a manifest cannot be laid out. -/
inductive Fault
  | noChunks
  | unknownCompression (name : String)
  | noKey
  | noLocation (number : Nat)
  | oversized (number : Nat)
  deriving Repr, DecidableEq

/-- The error of a file whose manifest cannot be laid out. -/
def Fault.error (fileId : String) : Fault → RetrievalError
  | noChunks => .noChunks fileId
  | unknownCompression name => .invalidManifest fileId (Reassembly.unknownCompression name)
  | noKey => .invalidManifest fileId "encrypted file has no wrapped key"
  | noLocation number => .invalidManifest fileId s!"chunk {number} has no url"
  | oversized number => .invalidManifest fileId s!"chunk {number} overflows the file size"

/-- Place chunks from an offset on, numbering them from the one after `placed`. -/
def place : (placed offset : Nat) → List ManifestEntry → Except Fault (List Chunk)
  | _, _, [] => .ok []
  | placed, offset, entry :: rest =>
    if entry.location = "" then .error (.noLocation (placed + 1))
    else if sizeBound ≤ offset + entry.length then .error (.oversized (placed + 1))
    else
      (place (placed + 1) (offset + entry.length) rest).map
        (⟨placed + 1, offset, entry.length, entry.location⟩ :: ·)

/-- The key of a file that is encrypted, which must then have one. -/
def key (encryption : Encryption) : Except Fault (Option String) :=
  if encryption.encrypted then
    if encryption.wrappedKey = "" then .error .noKey else .ok (some encryption.wrappedKey)
  else .ok none

/-- Lay out a file. -/
def lay (fileId : String) (manifest : Manifest) : Except Fault Layout := do
  if manifest.entries = [] then throw .noChunks
  let some compression := manifest.compression?
    | throw (.unknownCompression manifest.compression)
  let wrappedKey ← key manifest.encryption
  let chunks ← place 0 0 manifest.entries
  let size := manifest.entries.foldl (fun size entry => size + entry.length) 0
  return ⟨fileId, wrappedKey, compression, chunks, size⟩

/-- Lay out a file, or say why the manifest is refused. -/
def ofManifest (fileId : String) (manifest : Manifest) : Except RetrievalError Layout :=
  (lay fileId manifest).mapError (Fault.error fileId)

end Layout

end Reassembly
