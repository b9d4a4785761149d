import Reassembly.Http.Url
import Reassembly.Manifest.Json
import Reassembly.Service.Error

/-!
# Exchanges

An exchange sends a request over a network and brings a response, or a fault. A response whose
status tells of an error is one; its body is not looked at. The body of any other may break off while
it is read.
-/

namespace Reassembly

/-- A request to a server for a target, which is a path and perhaps a query. -/
structure HttpRequest where
  method : String := "GET"
  authority : Option Authority
  target : String
  /-- The value of the authorization header. -/
  authorization : Option String := none
  agent : Option String := none
  deriving Repr, DecidableEq

/-- The request for what is at a URL. -/
def HttpRequest.ofUrl (url : Url) (authorization : Option String) (agent : String) : HttpRequest :=
  { authority := url.authority, target := url.target, authorization, agent := some agent }

/-- A response, with as much of its body as arrives. -/
structure HttpResponse where
  status : Nat := 200
  body : Bytes := []
  /-- The body arrives whole. -/
  complete : Bool := true
  deriving Repr, DecidableEq

/-- Why a request brought no response: the transport failed, or a layer above it refused. -/
inductive RequestFault
  | transport (fault : TransportFault)
  | intercepted (reason : String)
  deriving Repr, DecidableEq

/-- The error that a fault is reported as. -/
def RequestFault.error : RequestFault → ServiceError
  | .transport fault => .transport fault
  | .intercepted reason => .intercepted reason

/-- Whether a request may be repeated after a fault. -/
def RequestFault.severity : RequestFault → Severity
  | .transport fault => fault.severity
  | .intercepted _ => .fatal

/-- A network, which changes as it is used. -/
abbrev Network (σ : Type) := HttpRequest → StateM σ (Except TransportFault HttpResponse)

/-- The network on which every connection is refused. -/
def Network.unreachable {σ : Type} : Network σ := fun _ => return .error .refused

/-- What came of an attempt: a value, or an error after which the attempt may or may not be
repeated. -/
inductive Attempt (α : Type)
  | done (value : α)
  | fatal (error : ServiceError)
  | retryable (error : ServiceError)

/-- A failed attempt of a given severity. -/
def Attempt.failed {α : Type} (error : ServiceError) : Severity → Attempt α
  | .transient => .retryable error
  | .fatal => .fatal error

namespace HttpResponse

/-- A status tells of an error of the client or of the server. -/
def isError (status : Nat) : Bool := 400 ≤ status && status < 600

/-- The body of a response. -/
def readBody (response : HttpResponse) : Attempt Bytes :=
  if response.complete then .done response.body
  else .failed (.transport .shortened) TransportFault.shortened.transferSeverity

/-- The manifest that the body of a response writes. -/
def readManifest (response : HttpResponse) : Attempt Manifest :=
  match response.readBody with
  | .done body =>
    match Manifest.parse body with
    | .ok manifest => .done manifest
    | .error fault => .fatal (.invalidResponse s!"json body could not be parsed: {fault.message}")
  | .fatal error => .fatal error
  | .retryable error => .retryable error

end HttpResponse

end Reassembly
