import Reassembly.Credentials
import Reassembly.Http.Retry
import Reassembly.Service.Interface
import Reassembly.Settings.Config

/-!
# Remote services

The metadata service and the object store are reached over a network. The manifest of a file is
asked for under the endpoint, with credentials; the file's name becomes one segment of the path.
Payloads are asked for at their locations, without credentials. Both are retried. The metadata
service refuses a manifest by the status of its answer.
-/

namespace Reassembly

/-- A way to reach the services. -/
structure Remote where
  endpoint : String
  authorization : String
  agent : String
  policy : RetryPolicy
  deriving Repr, DecidableEq

namespace Remote

/-- A character may stand in a header. -/
def isHeaderChar (c : Char) : Bool := c = '\t' || (0x20 ≤ c.toNat && c.toNat < 0x7f)

/-- A text may be the value of a header. -/
def isHeaderValue (text : String) : Bool := text.toList.all isHeaderChar

/-- The refusal of an endpoint under which nothing can be kept. -/
def notBase (endpoint : String) : ServiceError :=
  .invalidArguments s!"endpoint {endpoint} cannot be a base url"

/-- Reach the services at an endpoint. The endpoint must be able to carry a path, and the headers of
every request must be valid. -/
def connect (endpoint : String) (credentials : Credentials) (config : ClientConfig) :
    Except ServiceError Remote :=
  match Url.parse endpoint with
  | .error fault => .error (.malformedUrl fault)
  | .ok url =>
    if !url.isBase then .error (notBase endpoint)
    else if !isHeaderValue credentials.header then .error .invalidHeader
    else if !isHeaderValue config.userAgent then .error (.transport .unbuildable)
    else
      .ok {
        endpoint
        authorization := credentials.header
        agent := config.userAgent
        policy := ⟨config.retryLimit, config.retryDelay⟩ }

/-- The URL of the manifest of a file. -/
def manifestUrl (remote : Remote) (fileId : String) : Except ServiceError Url :=
  match Url.parse remote.endpoint with
  | .error fault => .error (.malformedUrl fault)
  | .ok url =>
    match url.child? fileId with
    | some url => .ok url
    | none => .error (notBase remote.endpoint)

/-- The error of a file whose manifest was asked for: three statuses are refusals. -/
def refusal (fileId : String) (error : ServiceError) : ServiceError :=
  match error.status? with
  | some 400 => .notFound fileId
  | some 401 => .unauthorized fileId
  | some 422 => .unprocessable fileId
  | _ => error

variable {σ : Type}

/-- Ask for what is at a URL. Only URLs of the web's own protocol are sent. -/
def send (network : Network σ) (remote : Remote) (url : Url) (authorization : Option String) :
    StateM σ (Except RequestFault HttpResponse) := do
  if url.isHttp then
    return (← network (.ofUrl url authorization remote.agent)).mapError .transport
  else return .error (.transport .unbuildable)

/-- Ask for what is at a URL as often as the policy allows, and process the response. -/
def exchange {α : Type} (network : Network σ) (remote : Remote) (url : Url)
    (authorization : Option String) (process : HttpResponse → Attempt α) :
    StateM σ (Except ServiceError α) := do
  let attempt := RetryPolicy.attempt (remote.send network url authorization) (·.status) process
  return (← remote.policy.run attempt).result

/-- Ask for the manifest of a file. -/
def manifest (network : Network σ) (remote : Remote) (fileId : String) :
    StateM σ (Except ServiceError Manifest) := do
  if fileId = "" then return .error (.invalidArguments "file id must not be empty")
  else
    match remote.manifestUrl fileId with
    | .error error => return .error error
    | .ok url =>
      let result ←
        remote.exchange network url (some remote.authorization) HttpResponse.readManifest
      return result.mapError (refusal fileId)

/-- Ask for the payload at a location. -/
def payload (network : Network σ) (remote : Remote) (location : String) :
    StateM σ (Except ServiceError Bytes) := do
  match Url.parse location with
  | .error fault => return .error (.malformedUrl fault)
  | .ok url => remote.exchange network url none HttpResponse.readBody

/-- The services as they are reached over a network. A download has arrived when it is asked for. -/
def service (network : Network σ) (remote : Remote) : Service σ where
  lookup fileId := remote.manifest network fileId
  request now location := do
    return ⟨.ofResult (← remote.payload network location), now, false⟩
  arrived _ := return ()
  abandoned _ := return ()

end Remote

end Reassembly
