import Reassembly.Manifest
import Reassembly.Named
import Reassembly.Service.Location

/-!
# Depots

A depot is a metadata service and an object store in memory. It keeps files with their payloads,
answers for each file a manifest whose locations lead back to the depot, and serves the payloads. A
file can be told to refuse its manifest, and a chunk to be slow or to fail. The depot tallies its
requests, and how many downloads were in flight at once.
-/

namespace Reassembly

/-- How a metadata service refuses a manifest. -/
inductive Refusal
  | notFound
  | unauthorized
  | unprocessable
  deriving Repr, DecidableEq

/-- The error of a refusal. -/
def Refusal.error (fileId : String) : Refusal → ServiceError
  | notFound => .notFound fileId
  | unauthorized => .unauthorized fileId
  | unprocessable => .unprocessable fileId

/-- A chunk in store: the length of its data, its payload, and how its download goes. -/
structure StoredChunk where
  length : Nat
  payload : Bytes
  /-- How long a download takes, in milliseconds. -/
  delay : Nat := 0
  /-- A download fails. -/
  fails : Bool := false
  deriving Repr, DecidableEq

/-- A file in store. -/
structure StoredFile where
  encryption : Encryption
  compression : String
  chunks : List StoredChunk
  refusal : Option Refusal := none
  deriving Repr, DecidableEq

/-- What is announced for the chunks of a file, of which the first has the given index. -/
def StoredChunk.entries (fileId : String) : (index : Nat) → List StoredChunk → List ManifestEntry
  | _, [] => []
  | index, chunk :: rest =>
    ⟨Location.ofChunk fileId index, chunk.length⟩ :: entries fileId (index + 1) rest

/-- The manifest of a file. -/
def StoredFile.manifest (file : StoredFile) (fileId : String) : Manifest :=
  ⟨file.encryption, file.compression, StoredChunk.entries fileId 0 file.chunks⟩

/-- What a depot has been asked for. -/
structure Tally where
  manifests : Nat := 0
  requested : Nat := 0
  completed : Nat := 0
  inFlight : Nat := 0
  mostInFlight : Nat := 0
  deriving Repr, DecidableEq, Inhabited

/-- A download that a depot has begun: how long it takes, and what comes of it. -/
structure Transfer where
  delay : Nat
  result : Except ServiceError Bytes

/-- A metadata service and object store in memory. -/
structure Depot where
  files : Named StoredFile := {}
  tally : Tally := {}
  deriving Inhabited

namespace Depot

/-- Store a file. The payloads are those of the manifest's entries, in order; the locations of the
entries do not count. -/
def store (depot : Depot) (fileId : String) (manifest : Manifest) (payloads : List Bytes) :
    Except ServiceError Depot :=
  if manifest.entries.length = payloads.length then
    let chunks := manifest.entries.zipWith (fun entry payload => ⟨entry.length, payload, 0, false⟩) payloads
    .ok { depot with files := depot.files.put fileId ⟨manifest.encryption, manifest.compression, chunks, none⟩ }
  else
    .error (.invalidArguments
      s!"{manifest.entries.length} chunks declared but {payloads.length} payloads given")

/-- Change a file in store. -/
def update (depot : Depot) (fileId : String) (change : StoredFile → Except ServiceError StoredFile) :
    Except ServiceError Depot :=
  match depot.files.get? fileId with
  | none => .error (.notFound fileId)
  | some file => (change file).map fun file => { depot with files := depot.files.put fileId file }

/-- Let a file refuse its manifest from now on, or answer it again. -/
def refuse (depot : Depot) (fileId : String) (refusal : Option Refusal) : Except ServiceError Depot :=
  depot.update fileId fun file => .ok { file with refusal }

/-- Change a chunk in store. -/
def updateChunk (depot : Depot) (fileId : String) (index : Nat) (change : StoredChunk → StoredChunk) :
    Except ServiceError Depot :=
  depot.update fileId fun file =>
    if index < file.chunks.length then .ok { file with chunks := file.chunks.modify index change }
    else .error (.invalidArguments s!"chunk {index} out of range")

/-- Let the downloads of a chunk take time. -/
def slow (depot : Depot) (fileId : String) (index delay : Nat) : Except ServiceError Depot :=
  depot.updateChunk fileId index fun chunk => { chunk with delay }

/-- Let the downloads of a chunk fail. -/
def spoil (depot : Depot) (fileId : String) (index : Nat) : Except ServiceError Depot :=
  depot.updateChunk fileId index fun chunk => { chunk with fails := true }

/-- What a depot answers when it is asked for a manifest. -/
def manifestOf (depot : Depot) (fileId : String) : Except ServiceError Manifest :=
  match depot.files.get? fileId with
  | none => .error (.notFound fileId)
  | some file =>
    match file.refusal with
    | some refusal => .error (refusal.error fileId)
    | none => .ok (file.manifest fileId)

/-- What comes of downloading a chunk, and how long it takes. -/
def transferOf (depot : Depot) (fileId : String) (index : Nat) : Transfer :=
  match depot.files.get? fileId with
  | none => ⟨0, .error (.notFound fileId)⟩
  | some file =>
    match file.chunks[index]? with
    | none => ⟨0, .error (.invalidArguments s!"chunk {index} of {fileId} not found")⟩
    | some chunk =>
      ⟨chunk.delay,
        if chunk.fails then .error (.other s!"download of chunk {index} of {fileId} failed")
        else .ok chunk.payload⟩

/-- Ask a depot for a manifest. -/
def askManifest (depot : Depot) (fileId : String) : Except ServiceError Manifest × Depot :=
  (depot.manifestOf fileId,
    { depot with tally.manifests := depot.tally.manifests + 1 })

/-- Begin the download of a chunk. -/
def begin (depot : Depot) (fileId : String) (index : Nat) : Transfer × Depot :=
  let tally := depot.tally
  let inFlight := tally.inFlight + 1
  (depot.transferOf fileId index,
    { depot with
      tally :=
        { tally with
          requested := tally.requested + 1
          inFlight
          mostInFlight := max tally.mostInFlight inFlight } })

/-- A download has come to its end. -/
def finish (depot : Depot) (succeeded : Bool) : Depot :=
  let tally := depot.tally
  { depot with
    tally :=
      { tally with
        inFlight := tally.inFlight - 1
        completed := if succeeded then tally.completed + 1 else tally.completed } }

/-- A download has been abandoned. -/
def abandon (depot : Depot) : Depot :=
  { depot with tally.inFlight := depot.tally.inFlight - 1 }

end Depot

end Reassembly
