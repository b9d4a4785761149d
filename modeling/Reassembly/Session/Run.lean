import Reassembly.Session.Clock
import Reassembly.Session.Step

/-!
# Running a session

Each step is carried out, and then everything happens that can happen at its instant. A step that
names something unknown, or cannot be read, changes nothing.
-/

namespace Reassembly.Session

/-- The name of the retriever that a session starts with. -/
def firstRetriever : String := "e"

/-- The token of a gateway's credentials when it asks for none. -/
def defaultToken : String := "test-access-key"

/-- Start a session. -/
def start (transport : Transport) (credentials : Credentials) (requiredToken : Option String) :
    Session :=
  { transport, credentials, requiredToken, retrievers := ⟨[(firstRetriever, { credentials })]⟩ }

/-- The URL of the gateway of a session. -/
def endpoint : String := Gateway.urlOf (Gateway.address Gateway.defaultHost Gateway.defaultPort)

/-- The configuration of the remote client of a session: retries do not wait. -/
def remoteConfig : ClientConfig := { retryDelay := ⟨0⟩ }

/-- Start a session over a network. -/
def startOver (network : Network Depot) (credentials : Credentials) (requiredToken : Option String) :
    Except ServiceError Session :=
  (Remote.connect endpoint credentials remoteConfig).map fun remote =>
    start (.over network remote) credentials requiredToken

/-- Do something with the depot that may be refused. -/
def onDepot (act : Depot → Except ServiceError Depot) : SessionM Answer := fun session =>
  match act session.backend.inner with
  | .ok depot => (.done, { session with backend.inner := depot })
  | .error error => (.refused error, session)

/-- The answer to a wait for a fragment or its error. -/
def answerFragment : Poll Block → Answer
  | .item (.ok fragment) => .fragment fragment
  | .item (.error error) => .failed error
  | _ => .ended

/-- The answer to a wait for a block or its error. -/
def answerBlock : Poll Block → Answer
  | .item (.ok block) => .block block
  | .item (.error error) => .failed error
  | _ => .ended

/-- Do something with a retriever, if there is one of the name. -/
def withRetriever (name : String) (act : Retriever → SessionM Answer) : SessionM Answer := do
  match (← get).retrievers.get? name with
  | some retriever => act retriever
  | none => return .unknownName

/-- Do something with a stream, if there is one of the name. -/
def withStream (name : String) (act : FragmentStream → SessionM Answer) : SessionM Answer := do
  match (← get).streams.get? name with
  | some stream => act stream
  | none => return .unknownName

/-- Do something with a fetch, if there is one of the name. -/
def withFetch (name : String) (act : Fetch → SessionM Answer) : SessionM Answer := do
  match (← get).fetches.get? name with
  | some fetch => act fetch
  | none => return .unknownName

/-- Poll the stream of a name. -/
def pollNamedStream (name : String) : SessionM (Poll Block) :=
  pollStream (·.streams.get? name) fun stream session =>
    { session with streams := session.streams.put name stream }

/-- Poll the fetch of a name. -/
def pollNamedFetch (name : String) : SessionM (Poll Block) :=
  pollFetch (·.fetches.get? name) fun fetch session =>
    { session with fetches := session.fetches.put name fetch }

/-- Poll the fetch that the caller waits for. -/
def pollErrandFetch : SessionM (Poll Block) :=
  pollFetch
    (fun session => match session.errand with | .fetch fetch => some fetch | _ => none)
    fun fetch session => { session with errand := .fetch fetch }

/-- Poll the stream that the caller waits for. -/
def pollErrandStream : SessionM (Poll Block) :=
  pollStream
    (fun session => match session.errand with | .stream stream => some stream | _ => none)
    fun stream session => { session with errand := .stream stream }

/-- Poll the download that the caller waits for. -/
def pollErrandReply : SessionM (Poll Reply) := do
  match (← get).errand with
  | .arrived reply => return .item (.ok reply)
  | _ => return .pending

/-- Abandon what the caller waited for. -/
def dropErrand : SessionM Unit := do
  match (← get).errand with
  | .fetch fetch => withService fetch.abandon
  | .stream stream => withService fun service => stream.downloads.forM service.abandoned
  | _ => return
  modify ({ · with errand := .none })

/-- Wait for a download. -/
def download (download : Download) : SessionM Answer := do
  modify ({ · with errand := .download download })
  let poll ← await pollErrandReply
  dropErrand
  match poll with
  | .item (.ok (.payload bytes)) => return .bytes bytes
  | .item (.ok (.refused error)) => return .refused error
  | _ => return .crashed

/-- Fetch whole blocks. -/
def blocks (fileId : String) (numbers : Option (List Nat)) (retriever : Retriever) :
    SessionM Answer := do
  match ← withService fun service => retriever.blocks service fileId numbers with
  | .error error => return .failed error
  | .ok fetch => do
    modify ({ · with errand := .fetch fetch })
    let result ← joinFrom pollErrandFetch (fetch.size + 1)
    dropErrand
    match result with
    | .ok blocks => return .blocks blocks
    | .error error => return .failed error

/-- The most fragments, and one error, that a stream may yield. -/
def streamBound (stream : FragmentStream) : Nat :=
  (stream.fetch?.map Fetch.size).getD 0 + 2

/-- Read a range of a file. The wait for the first fragment opens the stream. -/
def readRange (fileId : String) (range : ByteRange) (retriever : Retriever) : SessionM Answer := do
  match retriever.stream fileId range with
  | .error error => return .failed error
  | .ok stream => do
    modify ({ · with errand := .stream stream })
    let first ← await pollErrandStream
    let bound :=
      match (← get).errand with
      | .stream stream => streamBound stream
      | _ => 0
    let answer ←
      match first with
      | .item (.error error) => pure (.failed error)
      | .item (.ok fragment) => do
        match ← joinFrom pollErrandStream bound with
        | .ok fragments => pure (.bytes (fragment.data ++ fragments.flatMap (·.data)))
        | .error error => pure (.failed error)
      | _ => pure (.bytes [])
    dropErrand
    return answer

/-- Wait for all fragments of a stream. -/
def collect (name : String) : SessionM Answer := do
  match ← await (pollNamedStream name) with
  | .item first => do
    let bound := (((← get).streams.get? name).map streamBound).getD 0
    return .fragments (first :: (← collectFrom (pollNamedStream name) bound))
  | _ => return .fragments []

/-- Start a stream under a name, in place of the one that had it. -/
def openStream (name fileId : String) (range : ByteRange) (retriever : Retriever) :
    SessionM Answer := do
  match retriever.stream fileId range with
  | .error error => return .failed error
  | .ok stream => do
    if let some old := (← get).streams.get? name then
      withService fun service => old.downloads.forM service.abandoned
    modify fun session => { session with streams := session.streams.put name stream }
    return .done

/-- The chunks of a file that a choice selects. -/
def chosen (file : ResolvedFile) : ChunkChoice → Except RetrievalError (List Chunk)
  | .numbers numbers => file.layout.selectNumbers numbers
  | .range range => range.bind fun range => (file.layout.selectRange range).map (·.2)

/-- Start a fetch under a name, in place of the one that had it. The new one gets under way before
the old one is abandoned. -/
def openFetch (name : String) (choice : ChunkChoice) (limit : Nat) : SessionM Answer := do
  match (← get).files.get? name with
  | none => return .unknownName
  | some file =>
    match chosen file choice with
    | .error error => return .failed error
    | .ok chunks => do
      let fetch := Fetch.start file chunks limit
      let old := (← get).fetches.get? name
      modify fun session => { session with fetches := session.fetches.put name fetch }
      settle
      if let some old := old then withService old.abandon
      return .fetching fetch

/-- Carry out a step. -/
def perform : Step → SessionM Answer
  | .store fileId manifest payloads => onDepot (·.store fileId manifest payloads)
  | .upload fileId data lengths encoding => fun session =>
    match session.backend.inner.upload fileId data lengths encoding (fun _ _ => 0) with
    | .ok (key, depot) => (.uploaded key, { session with backend.inner := depot })
    | .error (.refused error) => (.refused error, session)
    | .error (.unusableSecret _) => (.crashed, session)
  | .override fileId manifest => do
    modify fun session =>
      { session with backend.manifests := session.backend.manifests.put fileId manifest }
    return .done
  | .crashChunk fileId index => do
    modify fun session =>
      { session with
        backend.crashing := Location.ofChunk fileId index :: session.backend.crashing }
    return .done
  | .refuse fileId refusal => onDepot (·.refuse fileId refusal)
  | .slowChunk fileId index milliseconds => onDepot (·.slow fileId index milliseconds)
  | .spoilChunk fileId index => onDepot (·.spoil fileId index)
  | .manifest fileId hideKey => do
    match ← withService fun service => service.lookup fileId with
    | .ok manifest =>
      return .manifest
        (if hideKey then { manifest with encryption.wrappedKey := "" } else manifest)
    | .error error => return .refused error
  | .payload location => do
    let now := (← get).now
    download (← withService fun service => service.request now location)
  | .chunk fileId index => do
    let now := (← get).now
    let (transfer, depot) := (← get).backend.inner.begin fileId index
    modify fun session => { session with backend.inner := depot }
    download ⟨.ofResult transfer.result, now + transfer.delay, true⟩
  | .tally => return .tally (← get).backend.inner.tally
  | .now => return .number (← get).now
  | .sleep milliseconds => do
    sleep milliseconds
    return .done
  | .retriever name credentials limits => do
    modify fun session =>
      let credentials := credentials.getD session.credentials
      { session with retrievers := session.retrievers.put name { credentials, limits } }
    return .done
  | .blocks retriever fileId numbers => withRetriever retriever (blocks fileId numbers)
  | .readRange retriever fileId range =>
    withRetriever retriever fun retriever =>
      match range with
      | .ok range => readRange fileId range retriever
      | .error error => return .failed error
  | .fileSize retriever fileId =>
    withRetriever retriever fun retriever => do
      match ← withService fun service => retriever.fileSize service fileId with
      | .ok size => return .number size
      | .error error => return .failed error
  | .shutDown name =>
    withRetriever name fun retriever => do
      modify fun session =>
        { session with retrievers := session.retrievers.put name retriever.shutDown }
      return .truth retriever.shutDown.isShutDown
  | .isShutDown name => withRetriever name fun retriever => return .truth retriever.isShutDown
  | .stream name retriever fileId range =>
    withRetriever retriever fun retriever =>
      match range with
      | .ok range => openStream name fileId range retriever
      | .error error => return .failed error
  | .next name => withStream name fun _ => return answerFragment (← await (pollNamedStream name))
  | .collect name => withStream name fun _ => collect name
  | .cancel name =>
    withStream name fun stream => do
      let stream ← withService fun service => stream.cancelWith service
      modify fun session => { session with streams := session.streams.put name stream }
      return .state stream.state
  | .drop name => do
    match (← get).streams.get? name with
    | some stream => do
      withService fun service => stream.downloads.forM service.abandoned
      modify fun session => { session with streams := session.streams.erase name }
      return .truth true
    | none => return .truth false
  | .describe name => withStream name fun stream => return .stream stream
  | .resolve name fileId showKey => do
    let retriever : Retriever := { credentials := (← get).credentials }
    match ← withService fun service => retriever.resolve service fileId with
    | .ok file => do
      modify fun session => { session with files := session.files.put name file }
      return .resolved file showKey
    | .error error => return .failed error
  | .fetch name choice limit => openFetch name choice limit
  | .fetchNext name => withFetch name fun _ => return answerBlock (← await (pollNamedFetch name))
  | .fetchSize name => withFetch name fun fetch => return .fetching fetch
  | .fetchCancel name =>
    withFetch name fun fetch => do
      withService fetch.abandon
      modify fun session => { session with fetches := session.fetches.put name fetch.cancel }
      return .number fetch.size
  | .fetchJoin name =>
    withFetch name fun fetch => do
      modify fun session =>
        { session with fetches := session.fetches.erase name, errand := .fetch fetch }
      let result ← joinFrom pollErrandFetch (fetch.size + 1)
      dropErrand
      match result with
      | .ok blocks => return .blocks blocks
      | .error error => return .failed error
  | .gateway => do
    let session ← get
    match session.transport with
    | .over _ _ =>
      return .gateway endpoint (session.requiredToken.getD defaultToken)
        session.backend.inner.tally.requested
    | .direct => return .unreadable
  | .exchange method target authorization => do
    let session ← get
    match session.transport with
    | .over network _ =>
      let authority := (Url.parse endpoint).toOption.bind (·.authority)
      let (result, depot) := network { method, authority, target, authorization } session.backend.inner
      set { session with backend.inner := depot }
      match result with
      | .ok response => return .response response
      | .error _ => return .crashed
    | .direct => return .unreadable
  | .unreadable => return .unreadable

/-- Carry out a step and let everything happen that can happen at its instant. -/
def performAndSettle (step : Step) : SessionM Answer := do
  let answer ← perform step
  settle
  return answer

/-- The answers to steps, in order. -/
def run (session : Session) (steps : List Step) : List Answer :=
  (steps.mapM performAndSettle session).1

end Reassembly.Session
