import Reassembly.Proofs.Result
import Reassembly.Proofs.Upload.Store
import Reassembly.Session.Run

/-!
# Calls that change a depot

A file in a depot is stored, uploaded, told to refuse its manifest, or has a chunk of it told to be slow or to
fail. Each call names one file. It is accepted or not, which depends on the file alone, and then it changes
that file and nothing else; a call that is not accepted changes nothing.

What a depot holds after some calls is told by the calls: each file is what it was last stored with, changed
by what was asked of it since.
-/

namespace Reassembly

/-- What can be asked of a file in a depot. -/
inductive DepotChange
  | store (manifest : Manifest) (payloads : List Bytes)
  | upload (data : Bytes) (lengths : List Nat) (encoding : Encoding) (draws : Draws)
  | refuse (refusal : Option Refusal)
  | slow (index delay : Nat)
  | spoil (index : Nat)

/-- A call to a depot: the file that it names, and what is asked of it. -/
structure DepotCall where
  fileId : String
  change : DepotChange

/-- What a file is stored with: its manifest and its payloads. -/
structure Consignment where
  manifest : Manifest
  payloads : List Bytes

/-- The file that a consignment puts in store. -/
def Consignment.file (contents : Consignment) : StoredFile :=
  ⟨contents.manifest.encryption, contents.manifest.compression,
    contents.manifest.entries.zipWith (fun entry payload => ⟨entry.length, payload, 0, false⟩) contents.payloads, none⟩

namespace DepotChange

/-- What a depot makes of a change to a file. -/
def apply (fileId : String) (depot : Depot) : DepotChange → Except UploadFault Depot
  | store manifest payloads => (depot.store fileId manifest payloads).mapError .refused
  | upload data lengths encoding draws => (depot.upload fileId data lengths encoding draws).map (·.2)
  | refuse refusal => (depot.refuse fileId refusal).mapError .refused
  | slow index delay => (depot.slow fileId index delay).mapError .refused
  | spoil index => (depot.spoil fileId index).mapError .refused

/-- What a change stores anew, in whatever depot it is made. -/
def contents? : DepotChange → Option Consignment
  | store manifest payloads => if manifest.entries.length = payloads.length then some ⟨manifest, payloads⟩ else none
  | upload data lengths encoding draws =>
    if lengths.sum = data.length then
      match encoding.drawKey draws with
      | .ok (key, encryption) =>
        some ⟨⟨encryption, encoding.compression.name, lengths.map fun length => ⟨"", length⟩⟩,
          (cutInto lengths data).mapIdx fun i piece => encoding.payload key (draws.take (i + 1) Aes.blockSize) piece⟩
      | .error _ => none
    else none
  | _ => none

/-- What a change makes of the file in store, without storing it anew; nothing, when the change is not one to
the file. -/
def adjust? (file : StoredFile) : DepotChange → Option StoredFile
  | refuse refusal => some { file with refusal }
  | slow index delay =>
    if index < file.chunks.length then
      some { file with chunks := file.chunks.modify index fun chunk => { chunk with delay } }
    else none
  | spoil index =>
    if index < file.chunks.length then
      some { file with chunks := file.chunks.modify index fun chunk => { chunk with fails := true } }
    else none
  | _ => none

/-- What becomes of a file, or of the lack of one, by a change that is accepted. -/
def outcome? (stored : Option StoredFile) (change : DepotChange) : Option StoredFile :=
  match change.contents? with
  | some contents => some contents.file
  | none => stored.bind change.adjust?

/-- A change is one that can be made, to the file in store or without one. -/
def Suits (stored : Option StoredFile) : DepotChange → Prop
  | store manifest payloads => manifest.entries.length = payloads.length
  | upload data lengths encoding draws =>
    lengths.sum = data.length ∧ ∃ drawn, encoding.drawKey draws = .ok drawn
  | refuse _ => ∃ file, stored = some file
  | slow index _ | spoil index => ∃ file, stored = some file ∧ index < file.chunks.length

/-- Something comes of the changes that can be made. -/
theorem exists_outcome?_iff {stored : Option StoredFile} {change : DepotChange} :
    (∃ file, change.outcome? stored = some file) ↔ change.Suits stored := by
  cases change with
  | store manifest payloads =>
    by_cases hcounts : manifest.entries.length = payloads.length <;> simp [outcome?, contents?, adjust?, Suits, hcounts]
  | upload data lengths encoding draws =>
    by_cases htotal : lengths.sum = data.length
    · cases hdraw : encoding.drawKey draws <;> simp [outcome?, contents?, adjust?, Suits, htotal, hdraw]
    · simp [outcome?, contents?, adjust?, Suits, htotal]
  | refuse | slow | spoil => simp [outcome?, contents?, adjust?, Suits, Option.bind_eq_some_iff]

/-- As many payloads are stored as chunks are announced. -/
theorem length_of_contents? {change : DepotChange} {contents : Consignment} (h : change.contents? = some contents) :
    contents.manifest.entries.length = contents.payloads.length := by
  cases change with
  | store manifest payloads =>
    obtain ⟨hlength, rfl⟩ : manifest.entries.length = payloads.length ∧ _ = contents := by
      simpa only [contents?, Option.ite_none_right_eq_some, Option.some.injEq] using h
    exact hlength
  | upload data lengths encoding draws =>
    rw [contents?] at h
    split at h
    · split at h
      · obtain rfl := Option.some.inj h
        simp [length_cutInto]
      · simp at h
    · simp at h
  | refuse | slow | spoil => simp [contents?] at h

end DepotChange

namespace Depot

variable {depot after : Depot} {fileId : String} {change : DepotChange}

/-- A file in a depot. -/
def keep (depot : Depot) (fileId : String) (file : StoredFile) : Depot :=
  { depot with files := depot.files.put fileId file }

/-- A file of the depot is changed when its change is accepted. -/
theorem update_eq_ok_iff {alter : StoredFile → Except ServiceError StoredFile} :
    depot.update fileId alter = .ok after ↔
      ∃ file altered, depot.files.get? fileId = some file ∧ alter file = .ok altered ∧
        after = depot.keep fileId altered := by
  rw [update]
  cases depot.files.get? fileId with
  | none => simp
  | some file =>
    simp only [Option.some.injEq, exists_and_left, exists_eq_left', Result.map_eq_ok_iff]
    exact exists_congr fun altered => and_congr_right fun _ => eq_comm

/-- A chunk in store is changed when the file has it. -/
theorem updateChunk_eq_ok_iff {index : Nat} {alter : StoredChunk → StoredChunk} :
    depot.updateChunk fileId index alter = .ok after ↔
      ∃ file, depot.files.get? fileId = some file ∧ index < file.chunks.length ∧
        after = depot.keep fileId { file with chunks := file.chunks.modify index alter } := by
  rw [updateChunk, update_eq_ok_iff]
  constructor
  · rintro ⟨file, altered, hfile, halter, rfl⟩
    split at halter
    · next hindex =>
      obtain rfl := Except.ok.inj halter
      exact ⟨file, hfile, hindex, rfl⟩
    · simp at halter
  · rintro ⟨file, hfile, hindex, rfl⟩
    exact ⟨file, _, hfile, if_pos hindex, rfl⟩

/-- An upload stores what it makes of the data, or is refused. -/
theorem upload_eq_ok_iff {data : Bytes} {lengths : List Nat} {encoding : Encoding} {draws : Draws} :
    (DepotChange.upload data lengths encoding draws).apply fileId depot = .ok after ↔
      ∃ contents, (DepotChange.upload data lengths encoding draws).contents? = some contents ∧
        after = depot.keep fileId contents.file := by
  simp only [DepotChange.apply, DepotChange.contents?, upload, ← List.sum_eq_foldl]
  by_cases htotal : lengths.sum = data.length
  · rw [if_neg (not_not_intro htotal), if_pos htotal]
    cases encoding.drawKey draws with
    | error fault => simp [Except.map]
    | ok drawn =>
      obtain ⟨key, encryption⟩ := drawn
      have hcounts : (lengths.map fun length => (⟨"", length⟩ : ManifestEntry)).length =
          ((cutInto lengths data).mapIdx fun i piece =>
            encoding.payload key (draws.take (i + 1) Aes.blockSize) piece).length := by
        simp [length_cutInto]
      simp only [Result.pure_eq_ok, Result.ok_bind, store, if_pos hcounts, Option.some.injEq]
      constructor
      · intro h
        exact ⟨_, rfl, (Except.ok.inj h).symm⟩
      · rintro ⟨contents, rfl, rfl⟩
        rfl
  · rw [if_pos htotal, if_neg htotal]
    simp [Except.map]

/-- A change is accepted when something comes of it, and then that is all that it changes. -/
theorem apply_eq_ok_iff : change.apply fileId depot = .ok after ↔
    ∃ file, change.outcome? (depot.files.get? fileId) = some file ∧ after = depot.keep fileId file := by
  cases change with
  | store manifest payloads =>
    simp only [DepotChange.apply, DepotChange.outcome?, DepotChange.contents?, Result.mapError_eq_ok_iff, store]
    by_cases hcounts : manifest.entries.length = payloads.length
    · simp [if_pos hcounts, keep, Consignment.file, eq_comm]
    · simp [if_neg hcounts, DepotChange.adjust?]
  | upload data lengths encoding draws =>
    rw [upload_eq_ok_iff, DepotChange.outcome?]
    cases (DepotChange.upload data lengths encoding draws).contents? with
    | none => simp [DepotChange.adjust?]
    | some contents => simp
  | refuse refusal =>
    simp only [DepotChange.apply, Result.mapError_eq_ok_iff, Depot.refuse, update_eq_ok_iff]
    simp [DepotChange.outcome?, DepotChange.contents?, DepotChange.adjust?, Option.bind_eq_some_iff]
  | slow index delay =>
    simp only [DepotChange.apply, Result.mapError_eq_ok_iff, Depot.slow, updateChunk_eq_ok_iff]
    simp [DepotChange.outcome?, DepotChange.contents?, DepotChange.adjust?, Option.bind_eq_some_iff, and_assoc]
  | spoil index =>
    simp only [DepotChange.apply, Result.mapError_eq_ok_iff, Depot.spoil, updateChunk_eq_ok_iff]
    simp [DepotChange.outcome?, DepotChange.contents?, DepotChange.adjust?, Option.bind_eq_some_iff, and_assoc]

/-- The calls that are accepted are those that suit the file in store. -/
theorem exists_apply_eq_ok_iff :
    (∃ after, change.apply fileId depot = .ok after) ↔ change.Suits (depot.files.get? fileId) := by
  rw [← DepotChange.exists_outcome?_iff]
  simp only [apply_eq_ok_iff]
  constructor
  · rintro ⟨_, file, houtcome, -⟩
    exact ⟨file, houtcome⟩
  · rintro ⟨file, houtcome⟩
    exact ⟨_, file, houtcome, rfl⟩

/-- A depot after a call. A call that is refused has changed nothing. -/
def asked (depot : Depot) (call : DepotCall) : Depot :=
  match call.change.apply call.fileId depot with
  | .ok after => after
  | .error _ => depot

end Depot

/-- The call to the depot that a step of a session makes. All draws of an upload are zero in a session. -/
def DepotCall.ofStep? : Step → Option DepotCall
  | .store fileId manifest payloads => some ⟨fileId, .store manifest payloads⟩
  | .upload fileId data lengths encoding => some ⟨fileId, .upload data lengths encoding fun _ _ => 0⟩
  | .refuse fileId refusal => some ⟨fileId, .refuse refusal⟩
  | .slowChunk fileId index milliseconds => some ⟨fileId, .slow index milliseconds⟩
  | .spoilChunk fileId index => some ⟨fileId, .spoil index⟩
  | _ => none

namespace Session

/-- What is done with the depot of a session changes nothing but the depot, and not even that when it is
refused. -/
theorem onDepot_snd (act : Depot → Except ServiceError Depot) (session : Session) :
    (onDepot act session).2 =
      match (act session.backend.inner).mapError UploadFault.refused with
      | .ok after => { session with backend.inner := after }
      | .error _ => session := by
  rw [onDepot]
  cases act session.backend.inner <;> rfl

/-- A session that makes a call has the depot that the call leaves, and is otherwise what it was. -/
theorem perform_of_call {step : Step} {call : DepotCall} (h : DepotCall.ofStep? step = some call)
    (session : Session) :
    (perform step session).2 =
      match call.change.apply call.fileId session.backend.inner with
      | .ok after => { session with backend.inner := after }
      | .error _ => session := by
  cases step with
  | store | refuse | slowChunk | spoilChunk =>
    obtain rfl := Option.some.inj h
    exact onDepot_snd _ session
  | upload fileId data lengths encoding =>
    obtain rfl := Option.some.inj h
    simp only [perform, DepotChange.apply]
    cases session.backend.inner.upload fileId data lengths encoding (fun _ _ => 0) with
    | ok uploaded => rfl
    | error fault => cases fault <;> rfl
  | _ => simp [DepotCall.ofStep?] at h

end Session

end Reassembly
