import Reassembly.Http.Gateway
import Reassembly.Http.Remote
import Reassembly.Retrieval.Retriever
import Reassembly.Service.Upload

/-!
# Sessions

A session is a rehearsal of retrievals on one clock. It holds a depot with an overlay in front of it,
retrievers, and what they have under way. Time is counted in milliseconds and stands still while
anything can happen: at every instant all downloads that arrive are taken in, and then all that can
begin are begun. It moves on, to the next arrival, only when someone waits.
-/

namespace Reassembly

/-- How a session reaches its depot. -/
inductive Transport
  /-- Directly. -/
  | direct
  /-- Over a network, through a gateway at an endpoint. -/
  | over (network : Network Depot) (remote : Remote)

/-- The services that a session uses. -/
abbrev Backend := Overlay Depot

/-- The service that a transport makes of the depot, with the overlay in front of it. -/
def Transport.service : Transport → Service Backend
  | .direct => Overlay.service Depot.service
  | .over network remote => Overlay.service (remote.service network)

/-- What the caller waits for. -/
inductive Errand
  | none
  | fetch (fetch : Fetch)
  | stream (stream : FragmentStream)
  | download (download : Download)
  | arrived (reply : Reply)

/-- The state of a session. -/
structure Session where
  transport : Transport
  credentials : Credentials
  /-- The token that the gateway asks for. -/
  requiredToken : Option String := none
  backend : Backend := { inner := {} }
  /-- The milliseconds since the start. -/
  now : Nat := 0
  retrievers : Named Retriever
  streams : Named FragmentStream := {}
  files : Named ResolvedFile := {}
  fetches : Named Fetch := {}
  errand : Errand := .none

/-- An action in a session. -/
abbrev SessionM := StateM Session

namespace Session

/-- The service of a session. -/
def service (session : Session) : Service Backend := session.transport.service

/-- Act on the services of a session. -/
def withService {α : Type} (act : Service Backend → StateM Backend α) : SessionM α := fun session =>
  let (result, backend) := act session.service session.backend
  (result, { session with backend })

/-- The fetches under way. -/
def fetchesUnderWay (session : Session) : List Fetch :=
  (session.streams.entries.filterMap (·.2.fetch?)) ++ session.fetches.entries.map (·.2) ++
    match session.errand with
    | .fetch fetch => [fetch]
    | .stream stream => stream.fetch?.toList
    | _ => []

/-- The number of downloads that may still arrive. -/
def unfinished (session : Session) : Nat :=
  session.fetchesUnderWay.foldl (fun count fetch => count + fetch.unfinished) 0 + 1

/-- The instant of the next arrival. -/
def nextDue? (session : Session) : Option Nat :=
  let errand :=
    match session.errand with
    | .download download => [download.due]
    | _ => []
  (session.fetchesUnderWay.filterMap Fetch.nextDue? ++ errand).min?

/-- Change the values under all names. -/
def mapNamed {σ α : Type} (change : α → StateM σ α) (values : Named α) : StateM σ (Named α) := do
  return ⟨← values.entries.mapM fun (name, value) => return (name, ← change value)⟩

/-- Change every fetch under way. -/
def changeFetches (change : Service Backend → Fetch → StateM Backend Fetch) : SessionM Unit := do
  let session ← get
  let streams ← withService fun service =>
    mapNamed (FragmentStream.onFetch (change service)) session.streams
  let fetches ← withService fun service => mapNamed (change service) session.fetches
  let errand ← withService fun service =>
    match session.errand with
    | .fetch fetch => return .fetch (← change service fetch)
    | .stream stream => return .stream (← stream.onFetch (change service))
    | errand => return errand
  modify ({ · with streams, fetches, errand })

end Session

end Reassembly
