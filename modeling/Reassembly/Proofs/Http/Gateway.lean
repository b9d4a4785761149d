import Reassembly.Proofs.Http.Exchange
import Reassembly.Proofs.Http.Route
import Reassembly.Proofs.Manifest.Json

/-!
# What a gateway answers

A gateway answers every request, and in full. A manifest that it writes is read back with the locations it has put
into it, and the errors of a depot that refuses one survive their way through a status. A gateway to a depot with a
single file answers nothing that reads as that file but from that file's own routes.
-/

namespace Reassembly

open Json Bytes

/-- The chunks that are announced are those in store. -/
theorem StoredChunk.map_length_entries (fileId : String) (index : Nat) (chunks : List StoredChunk) :
    (entries fileId index chunks).map ManifestEntry.length = chunks.map StoredChunk.length := by
  induction chunks generalizing index with
  | nil => rfl
  | cons chunk later ih => rw [entries, List.map_cons, List.map_cons, ih]

namespace Depot

variable {depot : Depot} {fileId : String}

/-- What a depot holds fits into 64 bits: the lengths of its chunks, and their indices. -/
def Fits (depot : Depot) : Prop :=
  ∀ fileId file, depot.files.get? fileId = some file →
    file.chunks.length ≤ Location.indexBound ∧ ∀ chunk ∈ file.chunks, chunk.length < naturalBound

/-- A manifest that a depot answers with is that of a file in store. -/
theorem file_of_manifestOf {manifest : Manifest} (h : depot.manifestOf fileId = .ok manifest) :
    ∃ file, depot.files.get? fileId = some file ∧ manifest = file.manifest fileId := by
  rw [manifestOf] at h
  split at h
  · simp at h
  · next file hfile =>
    split at h
    · simp at h
    · exact ⟨file, hfile, (Except.ok.inj h).symm⟩

/-- A depot refuses a manifest with an error that names the file. -/
theorem error_of_manifestOf {error : ServiceError} (h : depot.manifestOf fileId = .error error) :
    error = .notFound fileId ∨ error = .unauthorized fileId ∨ error = .unprocessable fileId := by
  rw [manifestOf] at h
  split at h
  · exact .inl (Except.error.inj h).symm
  · split at h
    · next refusal _ =>
      obtain rfl := Except.error.inj h
      cases refusal with
      | notFound => exact .inl rfl
      | unauthorized => exact .inr (.inl rfl)
      | unprocessable => exact .inr (.inr rfl)
    · simp at h

/-- A depot with one file, of one chunk. -/
def single (fileId : String) : Depot :=
  { files := ⟨[(fileId, ⟨{}, Compression.none.name, [⟨1, [1], 0, false⟩], none⟩)]⟩ }

/-- A depot with one file finds it under its name. -/
theorem get?_single_self (fileId : String) :
    (single fileId).files.get? fileId =
      some ⟨{}, Compression.none.name, [⟨1, [1], 0, false⟩], none⟩ := by
  rw [single, Named.get?, List.lookup_cons, beq_self_eq_true]

/-- A depot with one file finds nothing under any other name. -/
theorem get?_single_of_ne {other : String} (h : other ≠ fileId) : (single fileId).files.get? other = none := by
  rw [single, Named.get?, List.lookup_cons, beq_false_of_ne h]
  rfl

/-- A depot with one file fits. -/
theorem fits_single (fileId : String) : (single fileId).Fits := by
  intro other file hfile
  by_cases hother : other = fileId
  · rw [hother, get?_single_self] at hfile
    obtain rfl := Option.some.inj hfile
    exact ⟨by decide, by decide⟩
  · rw [get?_single_of_ne hother] at hfile
    simp at hfile

/-- The manifest of the one file. -/
theorem manifestOf_single_self (fileId : String) :
    (single fileId).manifestOf fileId =
      .ok ⟨{}, Compression.none.name, [⟨Location.ofChunk fileId 0, 1⟩]⟩ := by
  rw [manifestOf, get?_single_self]
  rfl

/-- There is no manifest of any other file. -/
theorem manifestOf_single_of_ne {other : String} (h : other ≠ fileId) :
    (single fileId).manifestOf other = .error (.notFound other) := by
  rw [manifestOf, get?_single_of_ne h]

/-- The payload of the one chunk. -/
theorem transferOf_single_self (fileId : String) : ((single fileId).transferOf fileId 0).result = .ok [1] := by
  rw [transferOf, get?_single_self]
  rfl

end Depot

namespace Gateway

variable {gateway : Gateway} {remote : Remote} {address fileId : String} {url : Url} {depot : Depot}

/-! ## Answers -/

/-- What a gateway answers to a request for a target. -/
def answer (gateway : Gateway) (authorization : Option String) (target : String) (depot : Depot) :
    HttpResponse × Depot :=
  match route target with
  | .error status => ({ status }, depot)
  | .ok found => gateway.serve authorization found depot

/-- On the network of a gateway a request brings its answer. -/
theorem network_ofUrl (gateway : Gateway) (url : Url) (authorization : Option String) (agent : String) (depot : Depot) :
    gateway.network (.ofUrl url authorization agent) depot =
      (.ok (gateway.answer authorization url.target depot).1, (gateway.answer authorization url.target depot).2) := by
  have hrespond : gateway.respond "GET" url.target authorization depot =
      gateway.answer authorization url.target depot := by
    have hmethod : ∀ found : Prop, ¬ (found ∧ "GET" ≠ "GET" ∧ "GET" ≠ "HEAD") := fun found h => h.2.1 rfl
    rw [respond, answer]
    simp only [if_neg (hmethod _)]
    cases route url.target with
    | error status => rfl
    | ok found =>
      dsimp only
      rw [Action.bind_run, if_neg (by decide)]
      rfl
  rw [network, Action.bind_run]
  show (Except.ok (gateway.respond "GET" url.target authorization depot).1, _) = _
  rw [hrespond]
  exact congrArg _ (congrArg Prod.snd hrespond)

/-- What a gateway serves where a manifest is asked for that may be seen. -/
theorem serve_manifest {authorization : Option String} (h : gateway.authorizes authorization = true) :
    (gateway.serve authorization (.manifest fileId) depot).1 =
      match depot.manifestOf fileId with
      | .ok manifest => { body := ofText (gateway.redirect fileId manifest).render }
      | .error error => { status := statusOf error } := by
  rw [serve, if_pos h, Action.bind_run]
  show ((match depot.manifestOf fileId with
    | .ok manifest => pure { body := ofText (gateway.redirect fileId manifest).render }
    | .error error => pure { status := statusOf error } : StateM Depot HttpResponse) _).1 = _
  cases depot.manifestOf fileId <;> rfl

/-- What a gateway serves where a payload is asked for. -/
theorem serve_payload (gateway : Gateway) (authorization : Option String) (fileId : String) (index : Nat)
    (depot : Depot) :
    (gateway.serve authorization (.payload fileId index) depot).1 =
      match (depot.transferOf fileId index).result with
      | .ok payload => { body := payload }
      | .error error => { status := payloadStatusOf error } := by
  show (match (depot.transferOf fileId index).result with
    | .ok payload => ({ body := payload }, _)
    | .error error => ({ status := payloadStatusOf error }, _) : HttpResponse × Depot).1 = _
  cases (depot.transferOf fileId index).result <;> rfl

/-- A gateway answers in full. -/
theorem answer_complete (gateway : Gateway) (authorization : Option String) (target : String) (depot : Depot) :
    (gateway.answer authorization target depot).1.complete = true := by
  rw [answer]
  cases route target with
  | error status => rfl
  | ok found =>
    cases found with
    | health => rfl
    | manifest fileId =>
      dsimp only
      by_cases hauthorizes : gateway.authorizes authorization = true
      · rw [serve_manifest hauthorizes]
        cases depot.manifestOf fileId <;> rfl
      · rw [serve, if_neg hauthorizes]
        rfl
    | payload fileId index =>
      dsimp only
      rw [serve_payload]
      cases (depot.transferOf fileId index).result <;> rfl

/-- The answer to a request for a manifest. -/
theorem answer_manifest {authorization : Option String} {target : String} (htoken : gateway.requiredToken = none)
    (hroute : route target = .ok (.manifest fileId)) :
    (gateway.answer authorization target depot).1 =
      match depot.manifestOf fileId with
      | .ok manifest => { body := ofText (gateway.redirect fileId manifest).render }
      | .error error => { status := statusOf error } := by
  rw [answer, hroute]
  exact serve_manifest (by rw [authorizes, htoken])

/-- The answer to a request for a payload. -/
theorem answer_payload {authorization : Option String} {target : String} {index : Nat}
    (hroute : route target = .ok (.payload fileId index)) :
    (gateway.answer authorization target depot).1 =
      match (depot.transferOf fileId index).result with
      | .ok payload => { body := payload }
      | .error error => { status := payloadStatusOf error } := by
  rw [answer, hroute]
  exact serve_payload gateway authorization fileId index depot

/-! ## Manifests -/

/-- The lengths of the entries of a redirected manifest are those of the manifest. -/
theorem forall_mem_redirect {p : Nat → Prop} {manifest : Manifest} (h : ∀ entry ∈ manifest.entries, p entry.length) :
    ∀ entry ∈ (gateway.redirect fileId manifest).entries, p entry.length := by
  intro entry hentry
  obtain ⟨index, hindex, rfl⟩ := List.mem_mapIdx.mp hentry
  exact h manifest.entries[index] (List.getElem_mem hindex)

/-- The entries of a redirected manifest lead to the gateway. -/
theorem location_of_redirect {manifest : Manifest} {index : Nat} {entry : ManifestEntry}
    (h : (gateway.redirect fileId manifest).entries[index]? = some entry) :
    index < manifest.entries.length ∧ entry.location = gateway.locationOf fileId index := by
  rw [redirect, List.getElem?_mapIdx] at h
  obtain ⟨original, horiginal, rfl⟩ := Option.map_eq_some_iff.mp h
  exact ⟨(List.getElem?_eq_some_iff.mp horiginal).1, rfl⟩

/-- A manifest that a gateway writes is read back. -/
theorem readManifest_redirect {manifest : Manifest} (hfits : depot.Fits) (h : depot.manifestOf fileId = .ok manifest) :
    HttpResponse.readManifest { body := ofText (gateway.redirect fileId manifest).render } =
      .done (gateway.redirect fileId manifest) := by
  obtain ⟨file, hfile, rfl⟩ := Depot.file_of_manifestOf h
  have hlengths : ∀ entry ∈ (file.manifest fileId).entries, entry.length < naturalBound := by
    intro entry hentry
    have hmem : entry.length ∈ file.chunks.map StoredChunk.length := by
      rw [← StoredChunk.map_length_entries fileId 0]
      exact List.mem_map_of_mem hentry
    obtain ⟨chunk, hchunk, hlength⟩ := List.mem_map.mp hmem
    rw [← hlength]
    exact (hfits fileId file hfile).2 chunk hchunk
  rw [HttpResponse.readManifest_body rfl,
    Manifest.parse_render (forall_mem_redirect (p := (· < naturalBound)) hlengths)]

/-- What a gateway makes of a request for a manifest. -/
theorem manifest_run (hsome : fileId ≠ "") (hurl : remote.manifestUrl fileId = .ok url) (hhttp : url.isHttp = true) :
    (remote.manifest gateway.network fileId depot).1 =
      ((gateway.answer (some remote.authorization) url.target depot).1.outcome
        HttpResponse.readManifest).result.mapError (Remote.refusal fileId) := by
  rw [Remote.manifest, if_neg hsome, hurl]
  dsimp only
  rw [Action.bind_run, Remote.exchange_of_response hhttp (network_ofUrl gateway url _ _ depot)
    (HttpResponse.isLast_readManifest (answer_complete gateway _ _ depot))]
  rfl

/-- A request that leads to the manifest of a file brings what the depot answers. -/
theorem manifest_of_route (htoken : gateway.requiredToken = none) (hfits : depot.Fits) (hsome : fileId ≠ "")
    (hurl : remote.manifestUrl fileId = .ok url) (hhttp : url.isHttp = true)
    (hroute : route url.target = .ok (.manifest fileId)) :
    (remote.manifest gateway.network fileId depot).1 =
      (depot.manifestOf fileId).map (gateway.redirect fileId) := by
  rw [manifest_run hsome hurl hhttp, answer_manifest htoken hroute]
  cases hlookup : depot.manifestOf fileId with
  | ok manifest =>
    dsimp only
    rw [HttpResponse.outcome, readManifest_redirect hfits hlookup]
    rfl
  | error error =>
    rcases Depot.error_of_manifestOf hlookup with rfl | rfl | rfl <;> rfl

/-! ## Payloads -/

/-- What a gateway makes of a request for a payload. -/
theorem payload_run {location : String} (hparse : Url.parse location = .ok url) (hhttp : url.isHttp = true) :
    (remote.payload gateway.network location depot).1 =
      ((gateway.answer none url.target depot).1.outcome HttpResponse.readBody).result := by
  rw [Remote.payload, hparse]
  dsimp only
  rw [Remote.exchange_of_response hhttp (network_ofUrl gateway url _ _ depot)
    (HttpResponse.isLast_readBody (answer_complete gateway _ _ depot))]

/-- A request that leads to a payload brings it. -/
theorem payload_of_route {location : String} {index : Nat} {payload : Bytes} (hparse : Url.parse location = .ok url)
    (hhttp : url.isHttp = true) (hroute : route url.target = .ok (.payload fileId index))
    (hresult : (depot.transferOf fileId index).result = .ok payload) :
    (remote.payload gateway.network location depot).1 = .ok payload := by
  rw [payload_run hparse hhttp, answer_payload hroute, hresult]
  rfl

/-! ## A single file -/

/-- There is no payload of any other chunk. -/
theorem transferOf_single_of_ne {other : String} {index : Nat} (h : other ≠ fileId ∨ index ≠ 0) :
    ∃ error, ((Depot.single fileId).transferOf other index).result = .error error ∧
      payloadStatusOf error ∈ [400, 404] := by
  by_cases hother : other = fileId
  · obtain ⟨later, rfl⟩ := Nat.exists_eq_succ_of_ne_zero (h.resolve_left (not_not_intro hother))
    rw [Depot.transferOf, hother, Depot.get?_single_self]
    exact ⟨_, rfl, List.mem_cons_of_mem _ List.mem_cons_self⟩
  · rw [Depot.transferOf, Depot.get?_single_of_ne hother]
    exact ⟨_, rfl, List.mem_cons_self⟩

/-- A path that leads nowhere is an error. -/
theorem status_of_route {target : String} {status : Nat} (h : route target = .error status) : status ∈ [400, 404] := by
  rw [route] at h
  repeat' split at h
  all_goals simp_all [badRequest]

/-- A gateway to a depot with one file has a word on its health, the manifest of the file and one payload, and answers
everything else with an error. -/
theorem outcome_single {α : Type} {process : HttpResponse → Attempt α} {a : α} {authorization : Option String}
    {target : String} (htoken : gateway.requiredToken = none)
    (h : (gateway.answer authorization target (.single fileId)).1.outcome process = .done a) :
    route target = .ok .health ∧ process { body := ofText "OK" } = .done a ∨
      route target = .ok (.manifest fileId) ∧
        process { body := ofText (gateway.redirect fileId
          ⟨{}, Compression.none.name, [⟨Location.ofChunk fileId 0, 1⟩]⟩).render } = .done a ∨
      route target = .ok (.payload fileId 0) ∧ process { body := [1] } = .done a := by
  obtain ⟨hstatus, hprocess⟩ := HttpResponse.outcome_eq_done h
  have herror : ∀ status, HttpResponse.isError status = false → status ∉ [400, 404] := by
    intro status hright hmem
    simp only [List.mem_cons, List.not_mem_nil, or_false] at hmem
    rcases hmem with rfl | rfl <;> exact absurd hright (by decide)
  cases hroute : route target with
  | error status =>
    rw [answer, hroute] at hstatus
    exact absurd (status_of_route hroute) (herror status hstatus)
  | ok found =>
    cases found with
    | health =>
      rw [answer, hroute] at hprocess
      exact .inl ⟨rfl, hprocess⟩
    | manifest other =>
      rw [answer_manifest htoken hroute] at hstatus hprocess
      by_cases hother : other = fileId
      · rw [hother, Depot.manifestOf_single_self] at hprocess
        exact .inr (.inl ⟨by rw [hother], hprocess⟩)
      · rw [Depot.manifestOf_single_of_ne hother] at hstatus
        exact absurd List.mem_cons_self (herror _ hstatus)
    | payload other index =>
      rw [answer_payload hroute] at hstatus hprocess
      by_cases hplace : other ≠ fileId ∨ index ≠ 0
      · obtain ⟨error, hresult, hrefused⟩ := transferOf_single_of_ne hplace
        rw [hresult] at hstatus
        exact absurd hrefused (herror _ hstatus)
      · obtain ⟨hother, hindex⟩ := not_or.mp hplace
        obtain rfl := not_not.mp hother
        obtain rfl := not_not.mp hindex
        rw [Depot.transferOf_single_self] at hprocess
        exact .inr (.inr ⟨rfl, hprocess⟩)

end Gateway

end Reassembly
