import Reassembly.Proofs.Action
import Reassembly.Service.Sources

/-!
# Steady services

A service is steady while its answers and replies do not depend on what has been asked before. A depot is
steady, and so is an overlay in front of one: requests change the tally, and nothing that is served
depends on the tally.
-/

namespace Reassembly

variable {σ : Type}

/-- In the states with a property, a service answers and replies always the same, and goes on to such
states. -/
structure Service.Steady (service : Service σ) (holds : σ → Prop)
    (answer : String → Except ServiceError Manifest) (reply : String → Reply) : Prop where
  lookup : ∀ fileId, Action.Leads (service.lookup fileId) holds fun found state =>
    found = answer fileId ∧ holds state
  request : ∀ now location, Action.Leads (service.request now location) holds fun download state =>
    download.reply = reply location ∧ holds state
  arrived : ∀ download, Action.Leads (service.arrived download) holds fun _ state => holds state
  abandoned : ∀ download, Action.Leads (service.abandoned download) holds fun _ state => holds state

namespace Depot

/-- What a depot replies to a request for a location. -/
def replyOf (depot : Depot) (location : String) : Reply :=
  match Location.read location with
  | .error error => .refused error
  | .ok (fileId, index) => .ofResult (depot.transferOf fileId index).result

/-- Manifests depend on the files of a depot alone. -/
theorem manifestOf_congr {depot other : Depot} (h : depot.files = other.files) (fileId : String) :
    depot.manifestOf fileId = other.manifestOf fileId := by
  rw [manifestOf, manifestOf, h]

/-- Replies depend on the files of a depot alone. -/
theorem replyOf_congr {depot other : Depot} (h : depot.files = other.files) (location : String) :
    depot.replyOf location = other.replyOf location := by
  simp only [replyOf, transferOf, h]

/-- No request changes the files of a depot. -/
theorem files_arrived (depot : Depot) (download : Download) :
    (depot.arrived download).files = depot.files := by
  rw [arrived]
  split
  · split <;> rfl
  · rfl

/-- A depot is steady as long as nothing is stored. -/
theorem steady (depot : Depot) :
    service.Steady (fun state => state.files = depot.files) depot.manifestOf depot.replyOf where
  lookup fileId state hstate := ⟨manifestOf_congr hstate fileId, hstate⟩
  request now location state hstate := by
    rw [← replyOf_congr hstate location]
    simp only [service, request, replyOf]
    cases Location.read location with
    | error error => exact ⟨rfl, hstate⟩
    | ok place => exact ⟨rfl, hstate⟩
  arrived download state hstate := (files_arrived state download).trans hstate
  abandoned download state hstate := by
    show (Depot.abandoned download state).files = depot.files
    rw [Depot.abandoned]
    split <;> exact hstate

end Depot

namespace Overlay

/-- What an overlay answers when it is asked for a manifest. -/
def answerOf (overlay : Overlay σ) (answer : String → Except ServiceError Manifest) (fileId : String) :
    Except ServiceError Manifest :=
  match overlay.manifests.get? fileId with
  | some manifest => .ok manifest
  | none => answer fileId

/-- What an overlay replies to a request for a location. -/
def replyOf (overlay : Overlay σ) (reply : String → Reply) (location : String) : Reply :=
  if location ∈ overlay.crashing then .crashed else reply location

/-- An overlay in front of a steady service is steady as long as nothing is changed in it. -/
theorem steady {inner : Service σ} {holds : σ → Prop} {answer : String → Except ServiceError Manifest}
    {reply : String → Reply} (h : inner.Steady holds answer reply) (overlay : Overlay σ) :
    (service inner).Steady
      (fun state => holds state.inner ∧ state.manifests = overlay.manifests ∧
        state.crashing = overlay.crashing)
      (overlay.answerOf answer) (overlay.replyOf reply) where
  lookup fileId state hstate := by
    obtain ⟨hholds, hmanifests, hcrashing⟩ := hstate
    rw [answerOf, ← hmanifests]
    have hlookup : (service inner).lookup fileId state =
        match state.manifests.get? fileId with
        | some manifest => (.ok manifest, state)
        | none =>
          ((inner.lookup fileId state.inner).1,
            { state with inner := (inner.lookup fileId state.inner).2 }) := by
      show (match state.manifests.get? fileId with
        | some manifest => pure (.ok manifest)
        | none => within (inner.lookup fileId) : StateM (Overlay σ) _) state = _
      cases state.manifests.get? fileId <;> rfl
    rw [hlookup]
    cases state.manifests.get? fileId with
    | some manifest => exact ⟨rfl, hholds, rfl, hcrashing⟩
    | none =>
      obtain ⟨hanswer, hafter⟩ := h.lookup fileId state.inner hholds
      exact ⟨hanswer, hafter, rfl, hcrashing⟩
  request now location state hstate := by
    obtain ⟨hholds, hmanifests, hcrashing⟩ := hstate
    have hrequest : (service inner).request now location state =
        if location ∈ state.crashing then (⟨.crashed, now, false⟩, state)
        else
          ((inner.request now location state.inner).1,
            { state with inner := (inner.request now location state.inner).2 }) := by
      show (if location ∈ state.crashing then pure ⟨.crashed, now, false⟩
        else within (inner.request now location) : StateM (Overlay σ) _) state = _
      split <;> rfl
    rw [hrequest, replyOf, ← hcrashing]
    by_cases hcrash : location ∈ state.crashing
    · rw [if_pos hcrash, if_pos hcrash]
      exact ⟨rfl, hholds, hmanifests, rfl⟩
    · rw [if_neg hcrash, if_neg hcrash]
      obtain ⟨hreply, hafter⟩ := h.request now location state.inner hholds
      exact ⟨hreply, hafter, hmanifests, rfl⟩
  arrived download state hstate := ⟨h.arrived download state.inner hstate.1, hstate.2⟩
  abandoned download state hstate := ⟨h.abandoned download state.inner hstate.1, hstate.2⟩

end Overlay

end Reassembly
