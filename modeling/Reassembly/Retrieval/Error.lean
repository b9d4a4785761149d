import Reassembly.Codec.Error
import Reassembly.Service.Error

/-!
# Retrieval errors

What can go wrong while a file is read: the request itself, the metadata lookup, the manifest, the
content key, or one of the chunks. An error that belongs to a chunk carries the chunk's place in
the file. A stream wraps the error that ended it together with the offset that it had reached.
-/

namespace Reassembly

/-- The chunk that an error belongs to. -/
structure ChunkContext where
  fileId : String
  number : Nat
  offset : Nat
  length : Nat
  deriving Repr, DecidableEq

/-- The wording of a chunk's place. -/
def ChunkContext.message (context : ChunkContext) : String :=
  s!"file {context.fileId} chunk {context.number} (offset {context.offset}, length {context.length})"

/-- A failure to read a file. -/
inductive RetrievalError
  | invalidRange (start last : Nat)
  | rangeBeyondEnd (fileId : String) (start size : Nat)
  | blockOutOfRange (fileId : String) (number count : Nat)
  | keyUnwrap (fileId : String) (cause : CodecError)
  | notFound (fileId : String)
  | unauthorized (fileId : String)
  | unprocessable (fileId : String)
  | noChunks (fileId : String)
  | invalidManifest (fileId : String) (reason : String)
  | download (context : ChunkContext) (cause : ServiceError)
  | blockDecrypt (context : ChunkContext) (cause : CodecError)
  | decompress (context : ChunkContext) (cause : CodecError)
  | wrongLength (context : ChunkContext) (actual : Nat)
  | stream (offset : Nat) (cause : RetrievalError)
  | shutDown
  | unfinished (context : ChunkContext) (reason : String)
  | service (cause : ServiceError)
  deriving Repr, DecidableEq

namespace RetrievalError

/-- The wording of an error. -/
def message : RetrievalError → String
  | invalidRange start last => s!"Invalid byte range: end {last} is before start {start}"
  | rangeBeyondEnd fileId start size =>
    s!"Byte range start {start} is beyond the end of file {fileId} ({size} bytes)"
  | blockOutOfRange fileId number count =>
    s!"Block number {number} out of range for file {fileId} with {count} chunks"
  | keyUnwrap fileId cause => s!"Failed to unwrap content key for file {fileId}: {cause.message}"
  | notFound fileId => s!"File not found: {fileId}"
  | unauthorized fileId => s!"Unauthorized access to file: {fileId}"
  | unprocessable fileId => s!"File not eligible for direct retrieval: {fileId}"
  | noChunks fileId => s!"No chunks found for file {fileId}"
  | invalidManifest fileId reason => s!"Invalid metadata for file {fileId}: {reason}"
  | download context cause => s!"Download failed for {context.message}: {cause.message}"
  | blockDecrypt context cause => s!"Decryption failed for {context.message}: {cause.message}"
  | decompress context cause => s!"Decompression failed for {context.message}: {cause.message}"
  | wrongLength context actual =>
    s!"Block validation failed for {context.message}: got {actual} bytes"
  | stream offset cause => s!"Stream failed at offset {offset}: {cause.message}"
  | shutDown => "Engine has been shut down"
  | unfinished context reason => s!"Task for {context.message} did not complete: {reason}"
  | service cause => s!"Client Error: {cause.message}"

/-- The error of a file whose metadata lookup failed. The three refusals of the metadata service
name the file that was asked for. -/
def ofLookup (fileId : String) : ServiceError → RetrievalError
  | .notFound _ => notFound fileId
  | .unauthorized _ => unauthorized fileId
  | .unprocessable _ => unprocessable fileId
  | cause => service cause

/-- The chunk that an error belongs to. -/
def context? : RetrievalError → Option ChunkContext
  | download context _ => some context
  | blockDecrypt context _ => some context
  | decompress context _ => some context
  | wrongLength context _ => some context
  | unfinished context _ => some context
  | stream _ cause => cause.context?
  | _ => none

/-- The error is a failure to reach a server or to hear back from it. -/
def isConnectionError : RetrievalError → Bool
  | download _ cause => cause.isConnectionError
  | service cause => cause.isConnectionError
  | stream _ cause => cause.isConnectionError
  | _ => false

/-- The error that streams have wrapped. -/
def root : RetrievalError → RetrievalError
  | stream _ cause => cause.root
  | error => error

end RetrievalError

end Reassembly
