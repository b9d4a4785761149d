import Reassembly.Retrieval.Stream
import Reassembly.Settings.Config

/-!
# Retrievers

A retriever reads files through a service: whole blocks, streams of fragments, ranges of bytes, and
sizes. It looks the file up anew for every operation, and keeps nothing between them but its
credentials and limits. Once it is shut down it refuses every operation; streams that it has made
before go on.
-/

namespace Reassembly

/-- A reader of files. -/
structure Retriever where
  credentials : Credentials
  limits : RetrievalConfig := {}
  isShutDown : Bool := false
  deriving Repr, DecidableEq

namespace Retriever

/-- Refuse all further operations. -/
def shutDown (retriever : Retriever) : Retriever := { retriever with isShutDown := true }

/-- A stream over a range of a file, the whole file by default. -/
def stream (retriever : Retriever) (fileId : String) (range : ByteRange) :
    Except RetrievalError FragmentStream :=
  if retriever.isShutDown then .error .shutDown
  else
    .ok { fileId, credentials := retriever.credentials, range, limit := retriever.limits.streamLimit }

variable {σ : Type}

/-- Resolve a file. -/
def resolve (service : Service σ) (retriever : Retriever) (fileId : String) :
    StateM σ (Except RetrievalError ResolvedFile) := do
  if retriever.isShutDown then return .error .shutDown
  else return ResolvedFile.ofAnswer fileId retriever.credentials (← service.lookup fileId)

/-- Begin to fetch whole blocks of a file, all of them unless numbers are given. -/
def blocks (service : Service σ) (retriever : Retriever) (fileId : String)
    (numbers : Option (List Nat)) : StateM σ (Except RetrievalError Fetch) := do
  let resolved ← retriever.resolve service fileId
  return resolved.bind fun file =>
    (file.layout.selectNumbers numbers).map fun chunks =>
      Fetch.start file chunks retriever.limits.blockLimit

/-- The size of a file. -/
def fileSize (service : Service σ) (retriever : Retriever) (fileId : String) :
    StateM σ (Except RetrievalError Nat) := do
  return (← retriever.resolve service fileId).map (·.layout.size)

end Retriever

end Reassembly
