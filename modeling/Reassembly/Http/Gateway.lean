import Reassembly.Http.Exchange
import Reassembly.Service.Sources

/-!
# Gateways

A gateway serves a depot over a network: manifests at the name of a file, with locations that lead
back to the gateway, payloads below `/chunks`, and a word on its health. A manifest may ask for
a token. The parts of a path are percent-decoded, and none of them may be empty.
-/

namespace Reassembly

/-- A gateway to a depot. -/
structure Gateway where
  /-- The URL under which the gateway is reached. -/
  endpoint : String
  /-- The token that manifests ask for. -/
  requiredToken : Option String := none
  deriving Repr, DecidableEq

/-- Where a path leads. -/
inductive Route
  | health
  | manifest (fileId : String)
  | payload (fileId : String) (index : Nat)
  deriving Repr, DecidableEq

namespace Gateway

/-- The address and port at which a gateway listens. -/
def address (host : String) (port : Nat) : String := s!"{host}:{port}"

/-- The URL of a gateway that listens at an address. -/
def urlOf (address : String) : String := s!"http://{address}"

/-- The host at which a gateway listens unless told otherwise. -/
def defaultHost : String := "127.0.0.1"

/-- The port at which a gateway listens unless told otherwise. -/
def defaultPort : Nat := 8080

/-- An address and port that can be listened at: four decimal bytes, or eight pieces between
brackets, and a port. -/
def isSocketAddress (address : String) : Bool :=
  match Text.splitLast? (· = ':') address.toList with
  | none => false
  | some (host, port) =>
    ((Number.digits? port).filter (· ≤ Url.maxPort)).isSome &&
      match host with
      | '[' :: rest => rest.getLast? = some ']' && (Host.ipv6? rest.dropLast).isSome
      | host =>
        match (Text.pieces (· = '.') host).mapM Host.byte? with
        | some bytes => bytes.length = 4
        | none => false

/-- Check an address before listening at it. -/
def checkAddress (address : String) : Except ServiceError Unit :=
  if isSocketAddress address then .ok ()
  else .error (.other "Failed to parse address: invalid socket address syntax")

/-- The parts of a path, of which each follows a slash. -/
def partsOf : List Char → Option (List (List Char))
  | '/' :: rest => some (Text.pieces (· = '/') rest)
  | _ => none

/-- The path of a target, without its query. -/
def pathOf (target : String) : List Char := target.toList.takeWhile (· ≠ '?')

/-- The status for a part of a path that does not decode, or that is no index. -/
def badRequest : Nat := 400

/-- Where a path leads, or the status for one that leads nowhere. -/
def route (target : String) : Except Nat Route :=
  match partsOf (pathOf target) with
  | none => .error 404
  | some parts =>
    if parts.any List.isEmpty then .error 404
    else if parts = ["health".toList] then .ok .health
    else
      match parts with
      | [fileId] =>
        match Percent.textOf? fileId with
        | some fileId => .ok (.manifest fileId)
        | none => .error badRequest
      | [chunks, fileId, index] =>
        if chunks = "chunks".toList then
          match Percent.textOf? fileId, Percent.textOf? index with
          | some fileId, some index =>
            match Number.natural? Location.indexBound index.toList with
            | some index => .ok (.payload fileId index)
            | none => .error badRequest
          | _, _ => .error badRequest
        else .error 404
      | _ => .error 404

/-- A path that leads somewhere, though one of its parts may not decode. -/
def isRouted : Except Nat Route → Bool
  | .ok _ => true
  | .error status => status = badRequest

/-- The location of a chunk behind a gateway. -/
def locationOf (gateway : Gateway) (fileId : String) (index : Nat) : String :=
  s!"{gateway.endpoint}/chunks/{fileId}/{index}"

/-- A manifest whose locations lead to the gateway. -/
def redirect (gateway : Gateway) (fileId : String) (manifest : Manifest) : Manifest :=
  { manifest with
    entries := manifest.entries.mapIdx fun index entry =>
      { entry with location := gateway.locationOf fileId index } }

/-- The status of an error. -/
def statusOf : ServiceError → Nat
  | .notFound _ => 400
  | .unauthorized _ => 401
  | .unprocessable _ => 422
  | .invalidArguments _ => 404
  | _ => 500

/-- The status of an error where a payload was asked for. -/
def payloadStatusOf : ServiceError → Nat
  | .other _ => 503
  | error => statusOf error

/-- A request may see a manifest. -/
def authorizes (gateway : Gateway) (authorization : Option String) : Bool :=
  match gateway.requiredToken with
  | none => true
  | some token => authorization = some s!"Bearer {token}"

/-- Serve what a path leads to. -/
def serve (gateway : Gateway) (authorization : Option String) : Route → StateM Depot HttpResponse
  | .health => return { body := Bytes.ofText "OK" }
  | .manifest fileId => do
    if gateway.authorizes authorization then
      match ← Depot.service.lookup fileId with
      | .ok manifest => return { body := Bytes.ofText (gateway.redirect fileId manifest).render }
      | .error error => return { status := statusOf error }
    else return { status := 401 }
  | .payload fileId index => fun depot =>
    let (transfer, depot) := depot.begin fileId index
    match transfer.result with
    | .ok payload => ({ body := payload }, depot.finish true)
    | .error error => ({ status := payloadStatusOf error }, depot.finish false)

/-- Answer a request for a target. A path that leads somewhere answers two methods. -/
def respond (gateway : Gateway) (method target : String) (authorization : Option String) :
    StateM Depot HttpResponse := do
  let found := route target
  if isRouted found ∧ method ≠ "GET" ∧ method ≠ "HEAD" then return { status := 405 }
  else
    match found with
    | .error status => return { status }
    | .ok route =>
      let response ← gateway.serve authorization route
      return if method = "HEAD" then { response with body := [] } else response

/-- The network on which a gateway is the only server. -/
def network (gateway : Gateway) : Network Depot := fun request => do
  return .ok (← gateway.respond request.method request.target request.authorization)

end Gateway

end Reassembly
