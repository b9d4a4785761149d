import Reassembly.Proofs.Retrieval.Course
import Reassembly.Proofs.Retrieval.Crew
import Reassembly.Proofs.Retrieval.Join
import Reassembly.Proofs.Session.Retrieval

/-!
# Operations under way

The four operations of a retriever, step by step and under any schedule. Two kinds of machines carry them out. A
call is for whole blocks or for a size; a course is that of a stream, which its caller polls or which a reading of a
range polls to its end. Both ask for the manifest when they are first polled and not before, and go on when a later
poll finds the answer. Then tasks move as they like until the operation ends or is cancelled.

When it ends, the tasks that there still are are aborted, and the fetch that is let go of is a crew whose tasks are
leaving: any of them may go on as before until the runtime drops it, but nobody waits for what it brings.
-/

namespace Reassembly

variable {σ γ : Type}

/-- What can happen to an operation. -/
inductive OperationEvent
  /-- A task of its fetch makes a step. -/
  | task (step : TaskStep)
  /-- Its caller polls it, and if it waits for its manifest, finds the look-up answered or not. -/
  | poll (answered : Bool)
  /-- Its caller cancels it or lets go of it. -/
  | cancel
  /-- Something happens to the fetch that it has let go of: an aborted task makes a step, or is dropped. -/
  | linger (event : CrewEvent)

/-- The events have an operation polled before it is cancelled. -/
def OperationEvent.wake : List OperationEvent → Bool
  | [] => false
  | .poll _ :: _ => true
  | .cancel :: _ => false
  | .task _ :: rest => wake rest
  | .linger _ :: rest => wake rest

/-- An operation at some stage, in front of a service. -/
structure Undertaking (γ σ : Type) where
  stage : γ
  backend : σ
  /-- The fetch that it has let go of. The tasks of that are aborted. -/
  left : Option Fetch := none

namespace Undertaking

/-- Go over to a stage without a fetch, if there is one. Its tasks are aborted. -/
def release (undertaking : Undertaking γ σ) (fetch : Option Fetch) (stage : γ) : Undertaking γ σ :=
  { undertaking with stage, left := fetch.or undertaking.left }

/-- Go over to a stage, which is an end or not. At an end, the fetch that there still is is let go of. -/
def turn (undertaking : Undertaking γ σ) (fetch : Option Fetch) (stage : γ) (ended : Bool) : Undertaking γ σ :=
  if ended then undertaking.release fetch stage else { undertaking with stage }

/-- Let something happen to the crew of the fetch that was let go of. -/
def linger (service : Service σ) (undertaking : Undertaking γ σ) (event : CrewEvent) : Undertaking γ σ :=
  match undertaking.left with
  | some fetch =>
    let crew := (Crew.cancel ⟨fetch, [], undertaking.backend⟩).perform service event
    { undertaking with left := some crew.turned.fetch, backend := crew.backend }
  | none => undertaking

end Undertaking

namespace Course

/-- What an event makes of the course of a stream. -/
def perform (service : Service σ) (undertaking : Undertaking Course σ) : OperationEvent → Undertaking Course σ
  | .task step =>
    let (stream, backend) := undertaking.stage.stream.onFetch (Fetch.workWith service step) undertaking.backend
    { undertaking with stage := { undertaking.stage with stream }, backend }
  | .poll answered =>
    let (asked, backend) := undertaking.stage.ask service undertaking.backend
    let after := asked.advance answered
    { undertaking with backend }.turn asked.stream.fetch? after after.stream.state.isTerminal
  | .cancel =>
    let course := undertaking.stage
    undertaking.release course.stream.fetch? { course with stream := course.stream.cancel }
  | .linger event => undertaking.linger service event

/-- The course of a stream through one event after the other. -/
def run (service : Service σ) (stream : FragmentStream) (events : List OperationEvent) (backend : σ) :
    Undertaking Course σ :=
  events.foldl (perform service) ⟨⟨stream, none, []⟩, backend, none⟩

/-- What comes of a range whose stream is read to its end, once it has come there. -/
def answer? (course : Course) : Option Answer :=
  match course.stream.state with
  | .completed => some (Session.answerBytes ((FragmentStream.yielded course.found).mapM id))
  | .failed => some (Session.answerBytes ((FragmentStream.yielded course.found).mapM id))
  | _ => none

end Course

/-- How far a call has come. -/
inductive Call
  | unpolled
  /-- It has asked for the manifest, whose answer will lead to a fetch, or to the size that was asked for. -/
  | asked (started : Except RetrievalError (Fetch ⊕ Nat))
  | joining (fetch : Fetch) (blocks : List Block)
  | ended (answer : Option Answer)

namespace Call

/-- The fetch of a call, if it has one. -/
def fetch? : Call → Option Fetch
  | joining fetch _ => some fetch
  | _ => none

/-- The call has ended. -/
def isOver : Call → Bool
  | ended _ => true
  | _ => false

/-- A call that joins a fetch, or has joined it. -/
def ofJoining : Joining → Call
  | .waiting fetch blocks => joining fetch blocks
  | .ended result => ended (some (Session.answerBlocks result))

/-- Begin a call, if this has not been done. -/
def ask (start : StateM σ (Except RetrievalError (Fetch ⊕ Nat))) : Call → StateM σ Call
  | unpolled => asked <$> start
  | call => pure call

/-- Poll a call whose look-up is answered by now or not. -/
def advance (answered : Bool) : Call → Call
  | unpolled => unpolled
  | asked started =>
    if answered then
      match started with
      | .error error => ended (some (.failed error))
      | .ok (.inl fetch) => joining fetch []
      | .ok (.inr size) => ended (some (.number size))
    else asked started
  | joining fetch blocks => ofJoining (Joining.receive blocks fetch.next)
  | ended answer => ended answer

/-- Cancel a call. One that has ended stays as it is. -/
def cancel : Call → Call
  | ended answer => ended answer
  | _ => ended none

/-- What an event makes of a call. -/
def perform (service : Service σ) (start : StateM σ (Except RetrievalError (Fetch ⊕ Nat)))
    (undertaking : Undertaking Call σ) : OperationEvent → Undertaking Call σ
  | .task step =>
    match undertaking.stage with
    | joining fetch blocks =>
      let (fetch, backend) := fetch.workWith service step undertaking.backend
      { undertaking with stage := joining fetch blocks, backend }
    | _ => undertaking
  | .poll answered =>
    let (call, backend) := undertaking.stage.ask start undertaking.backend
    let after := call.advance answered
    { undertaking with backend }.turn call.fetch? after after.isOver
  | .cancel => undertaking.release undertaking.stage.fetch? undertaking.stage.cancel
  | .linger event => undertaking.linger service event

/-- A call through one event after the other. -/
def run (service : Service σ) (start : StateM σ (Except RetrievalError (Fetch ⊕ Nat)))
    (events : List OperationEvent) (backend : σ) : Undertaking Call σ :=
  events.foldl (perform service start) ⟨unpolled, backend, none⟩

/-- What has come of a call. -/
def answer? : Call → Option Answer
  | ended answer => answer
  | _ => none

end Call

namespace Retriever

/-- The beginning of a call for blocks. -/
def beginBlocks (service : Service σ) (retriever : Retriever) (fileId : String) (numbers : Option (List Nat)) :
    StateM σ (Except RetrievalError (Fetch ⊕ Nat)) :=
  Except.map .inl <$> retriever.blocks service fileId numbers

/-- The beginning of a call for a size. -/
def beginFileSize (service : Service σ) (retriever : Retriever) (fileId : String) :
    StateM σ (Except RetrievalError (Fetch ⊕ Nat)) :=
  Except.map .inr <$> retriever.fileSize service fileId

end Retriever

/-- An operation of a retriever on a file. -/
inductive Operation
  | blocks (numbers : Option (List Nat))
  | fileSize
  | stream (range : ByteRange)
  | readRange (range : ByteRange)

/-- What has come of an operation: an answer, if there is one yet, or what the polls of a stream have brought. -/
inductive Outcome
  | answered (answer : Option Answer)
  | streamed (state : StreamState) (found : List (Poll Block))

/-- The operation has ended in success. -/
def Outcome.Succeeds : Outcome → Prop
  | answered none => False
  | answered (some (.failed _)) => False
  | answered (some _) => True
  | streamed state _ => state = .completed

namespace Operation

/-- Carry an operation out while events happen. -/
def run (service : Service σ) (retriever : Retriever) (fileId : String) (events : List OperationEvent) :
    Operation → StateM σ Outcome
  | blocks numbers => fun backend =>
    let call := Call.run service (retriever.beginBlocks service fileId numbers) events backend
    (.answered call.stage.answer?, call.backend)
  | fileSize => fun backend =>
    let call := Call.run service (retriever.beginFileSize service fileId) events backend
    (.answered call.stage.answer?, call.backend)
  | stream range => fun backend =>
    match retriever.stream fileId range with
    | .error error => (.answered (some (.failed error)), backend)
    | .ok idle =>
      let course := Course.run service idle events backend
      (.streamed course.stage.stream.state course.stage.found, course.backend)
  | readRange range => fun backend =>
    match retriever.stream fileId range with
    | .error error => (.answered (some (.failed error)), backend)
    | .ok idle =>
      let course := Course.run service idle events backend
      (.answered course.stage.answer?, course.backend)

/-- The chunks that an operation needs of a file. -/
def select (layout : Layout) : Operation → Except RetrievalError (List Chunk)
  | blocks numbers => layout.selectNumbers numbers
  | fileSize => .ok []
  | stream range => (layout.selectRange range).map (·.2)
  | readRange range => (layout.selectRange range).map (·.2)

/-- The range of bytes that an operation is for. -/
def range? : Operation → Option ByteRange
  | stream range => some range
  | readRange range => some range
  | _ => none

end Operation

end Reassembly
