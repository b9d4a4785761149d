import Reassembly.Retrieval.Fetch
import Reassembly.Selection

/-!
# Streams

A stream reads a range of a file, fragment by fragment. Nothing is asked of the service before the
stream is first polled; then the file is looked up, the range is normalized, and the selected chunks
are fetched. Fragments come in the order of the chunks, and empty ones are passed over. The first
error ends the stream, wrapped together with the offset reached so far. A stream that has ended, in
whichever way, abandons what it was fetching and yields nothing more.
-/

namespace Reassembly

/-- The state of a stream. -/
inductive StreamState
  | idle
  | streaming
  | completed
  | failed
  | cancelled
  deriving Repr, DecidableEq

namespace StreamState

/-- The name of a state. -/
def name : StreamState → String
  | idle => "Idle"
  | streaming => "Streaming"
  | completed => "Completed"
  | failed => "Failed"
  | cancelled => "Cancelled"

/-- The stream has ended. -/
def isTerminal : StreamState → Bool
  | idle => false
  | streaming => false
  | _ => true

end StreamState

/-- What a stream holds: nothing yet, a fetch, or nothing any more. -/
inductive Holding
  | unopened
  | fetching (fetch : Fetch)
  | released

/-- A stream of fragments. -/
structure FragmentStream where
  fileId : String
  credentials : Credentials
  /-- The range that was asked for, normalized once the file is known. -/
  range : ByteRange
  /-- The number of chunks that are downloaded at once; zero is no limit. -/
  limit : Nat
  state : StreamState := .idle
  /-- The end of the last fragment yielded, or the start of the range. -/
  offset : Nat := range.start
  layout : Option Layout := none
  holding : Holding := .unopened

namespace FragmentStream

/-- The downloads in flight for a stream. -/
def downloads (stream : FragmentStream) : List Download :=
  match stream.holding with
  | .fetching fetch => fetch.downloads
  | _ => []

/-- End a stream in the given state, and let go of what it holds. -/
def finish (stream : FragmentStream) (state : StreamState) : FragmentStream :=
  { stream with state, holding := .released }

/-- Cancel a stream. One that has ended stays as it is. -/
def cancel (stream : FragmentStream) : FragmentStream :=
  if stream.state.isTerminal then stream else stream.finish .cancelled

/-- End a stream with an error. -/
def fail (stream : FragmentStream) (error : RetrievalError) : Poll Block × FragmentStream :=
  (.item (.error (.stream stream.offset error)), stream.finish .failed)

/-- The fetch of a stream, once the metadata service has answered, and the range normalized. -/
def opening (stream : FragmentStream) (answer : Except ServiceError Manifest) :
    Except RetrievalError (ByteRange × Fetch) := do
  let file ← ResolvedFile.ofAnswer stream.fileId stream.credentials answer
  let (range, chunks) ← file.layout.selectRange stream.range
  return (range, Fetch.start file chunks stream.limit)

/-- Take results of tasks until one yields a fragment, fails, or is not there yet. -/
def takeFragment (range : ByteRange) : List FetchTask → Poll Block × List FetchTask
  | [] => (.ended, [])
  | ⟨_, .done (.ok block)⟩ :: rest =>
    let fragment := block.clip range
    if fragment.isEmpty then takeFragment range rest else (.item (.ok fragment), rest)
  | ⟨_, .done (.error error)⟩ :: rest => (.item (.error error), rest)
  | tasks => (.pending, tasks)

/-- Poll a stream that is fetching. -/
def pollFetch (stream : FragmentStream) (fetch : Fetch) : Poll Block × FragmentStream :=
  let (poll, tasks) := takeFragment stream.range fetch.tasks
  let stream := { stream with holding := .fetching { fetch with tasks } }
  match poll with
  | .pending => (.pending, stream)
  | .ended => (.ended, stream.finish .completed)
  | .item (.ok fragment) => (.item (.ok fragment), { stream with offset := fragment.stop })
  | .item (.error error) => stream.fail error

/-- Poll a stream. The answer of the metadata service only counts before the stream is open; while
there is none, the stream is pending. -/
def poll (stream : FragmentStream) (answer : Option (Except ServiceError Manifest)) :
    Poll Block × FragmentStream :=
  if stream.state.isTerminal then (.ended, stream)
  else
    let stream := { stream with state := .streaming }
    match stream.holding, answer with
    | .released, _ => (.ended, stream.finish .completed)
    | .fetching fetch, _ => stream.pollFetch fetch
    | .unopened, none => (.pending, stream)
    | .unopened, some answer =>
      match stream.opening answer with
      | .error error => stream.fail error
      | .ok (range, fetch) =>
        let stream := { stream with range, layout := some fetch.file.layout }
        stream.pollFetch fetch

/-- The stream has not been opened. -/
def isUnopened (stream : FragmentStream) : Bool :=
  match stream.holding with
  | .unopened => !stream.state.isTerminal
  | _ => false

variable {σ : Type}

/-- Poll a stream of a service. -/
def pollWith (service : Service σ) (stream : FragmentStream) :
    StateM σ (Poll Block × FragmentStream) := do
  let answer ←
    if stream.isUnopened then some <$> service.lookup stream.fileId else pure none
  let (poll, polled) := stream.poll answer
  if polled.state.isTerminal then stream.downloads.forM service.abandoned
  return (poll, polled)

/-- Cancel a stream of a service. -/
def cancelWith (service : Service σ) (stream : FragmentStream) : StateM σ FragmentStream := do
  stream.downloads.forM service.abandoned
  return stream.cancel

/-- Change the fetch of a stream, if it has one. -/
def onFetch (change : Fetch → StateM σ Fetch) (stream : FragmentStream) : StateM σ FragmentStream := do
  match stream.holding with
  | .fetching fetch => return { stream with holding := .fetching (← change fetch) }
  | _ => return stream

/-- The fetch of a stream, if it has one. -/
def fetch? (stream : FragmentStream) : Option Fetch :=
  match stream.holding with
  | .fetching fetch => some fetch
  | _ => none

end FragmentStream

end Reassembly
