import Reassembly.Codec.Error
import Reassembly.Credentials
import Reassembly.Layout

/-!
# Resolved files

A file is resolved once it is laid out and, if it is encrypted, its content key is unwrapped. A
resolved file turns the payload of each of its chunks into the chunk's data: it decrypts, then
decompresses, then checks the length. Decrypting leaves padding behind the payload. Decompressing
ignores it; of an uncompressed chunk it is cut off, when there is no more of it than one cipher
block holds.
-/

namespace Reassembly

/-- A laid-out file with its content key. -/
structure ResolvedFile where
  layout : Layout
  contentKey : Option Bytes
  deriving Repr, DecidableEq

namespace ResolvedFile

/-- Unwrap the content key of a file under a secret. A file that is not encrypted has none. -/
def unwrapKey (layout : Layout) (secret : String) : Except RetrievalError (Option Bytes) :=
  match layout.wrappedKey with
  | none => .ok none
  | some wrapped =>
    match ContentKey.unwrap (Bytes.ofText wrapped) (Bytes.ofText secret) with
    | .ok key => .ok (some key)
    | .error fault => .error (.keyUnwrap layout.fileId (.keyUnwrap (.found fault)))

/-- Resolve a file from what the metadata service answered for it. -/
def ofAnswer (fileId : String) (credentials : Credentials) (answer : Except ServiceError Manifest) :
    Except RetrievalError ResolvedFile := do
  let manifest ← answer.mapError (RetrievalError.ofLookup fileId)
  let layout ← Layout.ofManifest fileId manifest
  let contentKey ← unwrapKey layout credentials.secret
  return ⟨layout, contentKey⟩

/-- Decrypt the payload of a chunk, if the file is encrypted. -/
def openPayload (file : ResolvedFile) (context : ChunkContext) (payload : Bytes) :
    Except RetrievalError Bytes :=
  if file.layout.encrypted then
    match file.contentKey with
    | none => .error (.blockDecrypt context (.blockDecrypt (.found .missingKey)))
    | some key =>
      (SealedBlock.decrypt payload key).mapError fun fault =>
        .blockDecrypt context (.blockDecrypt (.found fault))
  else .ok payload

/-- Cut off what follows the data of a chunk, when there is no more of it than one cipher block. -/
def cutPadding (length : Nat) (data : Bytes) : Bytes :=
  if data.length ≤ length + Aes.blockSize then data.take length else data

/-- Decompress an opened payload, a member being read in a dialect, or cut off its padding. -/
def expandPayloadIn (dialect : Deflate.Dialect) (file : ResolvedFile) (context : ChunkContext)
    (data : Bytes) : Except RetrievalError Bytes :=
  if file.layout.compression.isCompressed then
    (file.layout.compression.decompressIn dialect data).mapError fun fault =>
      .decompress context (.decompress (.found fault))
  else .ok (if file.layout.encrypted then cutPadding context.length data else data)

/-- Decompress an opened payload, or cut off its padding. -/
def expandPayload (file : ResolvedFile) (context : ChunkContext) (data : Bytes) :
    Except RetrievalError Bytes := file.expandPayloadIn .standard context data

/-- The data of a chunk, from its payload, a member being read in a dialect. -/
def decodeIn (dialect : Deflate.Dialect) (file : ResolvedFile) (chunk : Chunk) (payload : Bytes) :
    Except RetrievalError Bytes := do
  let context := chunk.context file.layout.fileId
  let opened ← file.openPayload context payload
  let data ← file.expandPayloadIn dialect context opened
  if data.length = chunk.length then return data else throw (.wrongLength context data.length)

/-- The data of a chunk, from its payload. -/
def decode (file : ResolvedFile) (chunk : Chunk) (payload : Bytes) : Except RetrievalError Bytes :=
  file.decodeIn .standard chunk payload

variable {file : ResolvedFile}

/-- What expanding does to an opened payload. -/
theorem expandPayload_def {context : ChunkContext} {data : Bytes} : file.expandPayload context data =
    if file.layout.compression.isCompressed then
      (file.layout.compression.decompress data).mapError fun fault =>
        .decompress context (.decompress (.found fault))
    else .ok (if file.layout.encrypted then cutPadding context.length data else data) := rfl

/-- What decoding does to the payload of a chunk. -/
theorem decode_def {chunk : Chunk} {payload : Bytes} : file.decode chunk payload =
    (file.openPayload (chunk.context file.layout.fileId) payload >>= fun opened =>
      file.expandPayload (chunk.context file.layout.fileId) opened >>= fun data =>
        if data.length = chunk.length then pure data
        else throw (.wrongLength (chunk.context file.layout.fileId) data.length)) := rfl

end ResolvedFile

end Reassembly
