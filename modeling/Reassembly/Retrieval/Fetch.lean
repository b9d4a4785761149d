import Reassembly.Block
import Reassembly.Retrieval.ResolvedFile
import Reassembly.Service.Interface

/-!
# Fetches

A fetch downloads and decodes some chunks of a file. There is a task for each chunk; a task waits
for a permit, downloads the payload, gives the permit back, and decodes. Tasks move independently of
each other, and what moves is up to a schedule. Their results are taken in the order of the chunks.
-/

namespace Reassembly

/-- How far a task has come. -/
inductive Progress
  | waiting
  | downloading (download : Download)
  | decoding (payload : Bytes)
  | done (result : Except RetrievalError Block)

/-- The task for a chunk. -/
structure FetchTask where
  chunk : Chunk
  progress : Progress := .waiting

/-- A step of one task. -/
inductive Move
  | request (task : Nat) (download : Download)
  | deliver (task : Nat)
  | decode (task : Nat)

/-- A fetch under way. Without permits any number of downloads may be in flight. -/
structure Fetch where
  file : ResolvedFile
  permits : Option Nat
  tasks : List FetchTask

/-- What is found when a result is asked for: none yet, none any more, or one. -/
inductive Poll (α : Type)
  | pending
  | ended
  | item (result : Except RetrievalError α)

/-- The text that explains a task that broke down. -/
def crashReason : String := "task crashed"

/-- The most permits that a fetch can have. -/
def maxPermits : Nat := 0x1fffffffffffffff

namespace FetchTask

/-- The download of a task that is downloading. -/
def download? (task : FetchTask) : Option Download :=
  match task.progress with
  | .downloading download => some download
  | _ => none

/-- The task has a result. -/
def isDone (task : FetchTask) : Bool :=
  match task.progress with
  | .done _ => true
  | _ => false

/-- How far a task has come once its download has brought a reply. -/
def received (fileId : String) (chunk : Chunk) : Reply → Progress
  | .payload bytes => .decoding bytes
  | .refused error => .done (.error (.download (chunk.context fileId) error))
  | .crashed => .done (.error (.unfinished (chunk.context fileId) crashReason))

/-- The result of decoding a payload. -/
def decoded (file : ResolvedFile) (chunk : Chunk) (payload : Bytes) : Except RetrievalError Block :=
  (file.decode chunk payload).map fun data =>
    ⟨file.layout.fileId, chunk.number, chunk.offset, data⟩

end FetchTask

namespace Fetch

/-- Start a fetch of some chunks of a file. A limit of zero is none. -/
def start (file : ResolvedFile) (chunks : List Chunk) (limit : Nat) : Fetch :=
  { file
    permits := if limit = 0 then none else some (min limit maxPermits)
    tasks := chunks.map fun chunk => { chunk } }

/-- A task that waits may take a permit. -/
def hasPermit (fetch : Fetch) : Bool := fetch.permits ≠ some 0

/-- Put a task at its place. -/
def setTask (fetch : Fetch) (i : Nat) (task : FetchTask) : Fetch :=
  { fetch with tasks := fetch.tasks.set i task }

/-- Let a task move. A move that the task cannot make changes nothing. -/
def step (fetch : Fetch) : Move → Fetch
  | .request i download =>
    match fetch.tasks[i]? with
    | some ⟨chunk, .waiting⟩ =>
      if fetch.hasPermit then
        { fetch with
          permits := fetch.permits.map (· - 1)
          tasks := fetch.tasks.set i ⟨chunk, .downloading download⟩ }
      else fetch
    | _ => fetch
  | .deliver i =>
    match fetch.tasks[i]? with
    | some ⟨chunk, .downloading download⟩ =>
      { fetch with
        permits := fetch.permits.map (· + 1)
        tasks := fetch.tasks.set i
          ⟨chunk, FetchTask.received fetch.file.layout.fileId chunk download.reply⟩ }
    | _ => fetch
  | .decode i =>
    match fetch.tasks[i]? with
    | some ⟨chunk, .decoding payload⟩ =>
      fetch.setTask i ⟨chunk, .done (FetchTask.decoded fetch.file chunk payload)⟩
    | _ => fetch

/-- Let tasks move one after the other. -/
def run (fetch : Fetch) (moves : List Move) : Fetch := moves.foldl step fetch

/-- Take the next result, in the order of the chunks. -/
def next (fetch : Fetch) : Poll Block × Fetch :=
  match fetch.tasks with
  | [] => (.ended, fetch)
  | ⟨_, .done result⟩ :: rest => (.item result, { fetch with tasks := rest })
  | _ => (.pending, fetch)

/-- The downloads in flight. -/
def downloads (fetch : Fetch) : List Download := fetch.tasks.filterMap FetchTask.download?

/-- The number of results that have not been taken. -/
def size (fetch : Fetch) : Nat := fetch.tasks.length

/-- The number of tasks that have no result yet. -/
def unfinished (fetch : Fetch) : Nat := (fetch.tasks.filter (!·.isDone)).length

/-- Abandon all tasks, and give back the permits that they hold. -/
def cancel (fetch : Fetch) : Fetch :=
  { fetch with permits := fetch.permits.map (· + fetch.downloads.length), tasks := [] }

variable {σ : Type}

/-- Take in the download of a task that arrives at an instant or has arrived before, and decode what
it brought. -/
def deliverDue (service : Service σ) (now : Nat) (fetch : Fetch) (i : Nat) : StateM σ Fetch :=
  match fetch.tasks[i]?.bind FetchTask.download? with
  | some download =>
    if download.due ≤ now then do
      service.arrived download
      return fetch.run [.deliver i, .decode i]
    else return fetch
  | none => return fetch

/-- Begin the download of a task that waits, if there is a permit for it. -/
def requestNow (service : Service σ) (now : Nat) (fetch : Fetch) (i : Nat) : StateM σ Fetch :=
  match fetch.tasks[i]? with
  | some ⟨chunk, .waiting⟩ =>
    if fetch.hasPermit then do
      let download ← service.request now chunk.location
      (fetch.step (.request i download)).deliverDue service now i
    else return fetch
  | _ => return fetch

/-- Take in every download that has arrived. -/
def deliverAll (service : Service σ) (now : Nat) (fetch : Fetch) : StateM σ Fetch :=
  (List.range fetch.size).foldlM (deliverDue service now) fetch

/-- Begin the downloads of the tasks that wait, first come, first served. -/
def requestAll (service : Service σ) (now : Nat) (fetch : Fetch) : StateM σ Fetch :=
  (List.range fetch.size).foldlM (requestNow service now) fetch

/-- Tell the service of the downloads that are abandoned with a fetch. -/
def abandon (service : Service σ) (fetch : Fetch) : StateM σ Unit :=
  fetch.downloads.forM service.abandoned

/-- The instant at which the next download arrives. -/
def nextDue? (fetch : Fetch) : Option Nat := (fetch.downloads.map (·.due)).min?

end Fetch

end Reassembly
