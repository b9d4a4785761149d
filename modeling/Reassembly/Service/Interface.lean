import Reassembly.Manifest
import Reassembly.Service.Error

/-!
# Services

A retrieval asks a service for manifests and for payloads. Asking for a payload begins a download;
what it will bring is settled then, and it arrives at a known instant. The service is told when a
download has arrived and when it is abandoned before that.
-/

namespace Reassembly

/-- What a download brings: a payload, a refusal, or nothing, because it broke down. -/
inductive Reply
  | payload (bytes : Bytes)
  | refused (error : ServiceError)
  | crashed
  deriving Repr, DecidableEq

/-- The reply that a result makes. -/
def Reply.ofResult : Except ServiceError Bytes → Reply
  | .ok bytes => .payload bytes
  | .error error => .refused error

/-- A download under way. -/
structure Download where
  /-- What the download brings. -/
  reply : Reply
  /-- The instant at which it arrives, in milliseconds. -/
  due : Nat
  /-- The object store counts the download among those in flight. -/
  counted : Bool := false
  deriving Repr, DecidableEq

/-- A metadata service and object store, as seen by a retrieval. -/
structure Service (σ : Type) where
  /-- Ask for the manifest of a file. -/
  lookup : (fileId : String) → StateM σ (Except ServiceError Manifest)
  /-- Begin, at an instant, the download of the payload at a location. -/
  request : (now : Nat) → (location : String) → StateM σ Download
  /-- A download has arrived. -/
  arrived : Download → StateM σ Unit
  /-- A download has been abandoned. -/
  abandoned : Download → StateM σ Unit

end Reassembly
