import Reassembly.Session.Basic

/-!
# Steps and answers

What a session can be asked to do, and what it answers. Steps prepare the depot, ask the services
directly, or work with retrievers and with what they have under way, each under a name of its own.
-/

namespace Reassembly

/-- The chunks that a fetch is asked for. -/
inductive ChunkChoice
  | numbers (numbers : Option (List Nat))
  | range (range : Except RetrievalError ByteRange)

/-- What a session is asked to do. -/
inductive Step
  | store (fileId : String) (manifest : Manifest) (payloads : List Bytes)
  | upload (fileId : String) (data : Bytes) (lengths : List Nat) (encoding : Encoding)
  | override (fileId : String) (manifest : Manifest)
  | crashChunk (fileId : String) (index : Nat)
  | refuse (fileId : String) (refusal : Option Refusal)
  | slowChunk (fileId : String) (index milliseconds : Nat)
  | spoilChunk (fileId : String) (index : Nat)
  | manifest (fileId : String) (hideKey : Bool)
  | payload (location : String)
  | chunk (fileId : String) (index : Nat)
  | tally
  | now
  | sleep (milliseconds : Nat)
  | retriever (name : String) (credentials : Option Credentials) (limits : RetrievalConfig)
  | blocks (retriever fileId : String) (numbers : Option (List Nat))
  | readRange (retriever fileId : String) (range : Except RetrievalError ByteRange)
  | fileSize (retriever fileId : String)
  | shutDown (retriever : String)
  | isShutDown (retriever : String)
  | stream (name retriever fileId : String) (range : Except RetrievalError ByteRange)
  | next (stream : String)
  | collect (stream : String)
  | cancel (stream : String)
  | drop (stream : String)
  | describe (stream : String)
  | resolve (name fileId : String) (showKey : Bool)
  | fetch (name : String) (choice : ChunkChoice) (limit : Nat)
  | fetchNext (fetch : String)
  | fetchSize (fetch : String)
  | fetchCancel (fetch : String)
  | fetchJoin (fetch : String)
  | gateway
  | exchange (method target : String) (authorization : Option String)
  | unreadable

/-- What a session answers. -/
inductive Answer
  | done
  | crashed
  | unknownName
  | unreadable
  | refused (error : ServiceError)
  | failed (error : RetrievalError)
  | uploaded (key : Option Bytes)
  | manifest (manifest : Manifest)
  | bytes (bytes : Bytes)
  | tally (tally : Tally)
  | number (number : Nat)
  | truth (truth : Bool)
  | block (block : Block)
  | blocks (blocks : List Block)
  | fragment (fragment : Block)
  | fragments (items : List (Except RetrievalError Block))
  | ended
  | state (state : StreamState)
  | stream (stream : FragmentStream)
  | resolved (file : ResolvedFile) (showKey : Bool)
  | fetching (fetch : Fetch)
  | gateway (endpoint token : String) (requests : Nat)
  | response (response : HttpResponse)

end Reassembly
