import Reassembly.Service.Depot
import Reassembly.Service.Interface

/-!
# Depots as services, and overlays

A depot serves its own locations; a location of any other form is refused and never tallied. An
overlay stands in front of a service: it answers some manifests itself, and downloads from some
locations break down in it before the service hears of them.
-/

namespace Reassembly

namespace Depot

/-- Begin, at an instant, the download of the payload at a location. -/
def request (now : Nat) (location : String) (depot : Depot) : Download × Depot :=
  match Location.read location with
  | .error error => (⟨.refused error, now, false⟩, depot)
  | .ok (fileId, index) =>
    let (transfer, depot) := depot.begin fileId index
    (⟨.ofResult transfer.result, now + transfer.delay, true⟩, depot)

/-- A download has arrived. -/
def arrived (download : Download) (depot : Depot) : Depot :=
  if download.counted then
    match download.reply with
    | .payload _ => depot.finish true
    | _ => depot.finish false
  else depot

/-- A download has been abandoned. -/
def abandoned (download : Download) (depot : Depot) : Depot :=
  if download.counted then depot.abandon else depot

/-- A depot as a service. -/
def service : Service Depot where
  lookup fileId := fun depot => depot.askManifest fileId
  request now location := Depot.request now location
  arrived download := modify (Depot.arrived download)
  abandoned download := modify (Depot.abandoned download)

end Depot

/-- A service with an overlay in front of it. -/
structure Overlay (σ : Type) where
  inner : σ
  /-- The manifests that the overlay answers. -/
  manifests : Named Manifest := {}
  /-- The locations whose downloads break down. -/
  crashing : List String := []

namespace Overlay

variable {σ α : Type}

/-- Do something behind the overlay. -/
def within (act : StateM σ α) : StateM (Overlay σ) α := fun overlay =>
  let (result, inner) := act overlay.inner
  (result, { overlay with inner })

/-- The service that an overlay in front of a service makes. -/
def service (inner : Service σ) : Service (Overlay σ) where
  lookup fileId := do
    match (← get).manifests.get? fileId with
    | some manifest => return .ok manifest
    | none => within (inner.lookup fileId)
  request now location := do
    if location ∈ (← get).crashing then return ⟨.crashed, now, false⟩
    else within (inner.request now location)
  arrived download := within (inner.arrived download)
  abandoned download := within (inner.abandoned download)

end Overlay

end Reassembly
