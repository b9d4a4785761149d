import Reassembly.Proofs.Http.Gateway
import Reassembly.Proofs.Result

/-!
# Services behind a gateway

A depot that is reached through a gateway answers as it does in memory, for the names that a URL carries unchanged.
For manifests these are all but the dot segments, the name of the health of the gateway, and names with tabs or line
breaks. The locations of chunks are written without encoding the name, so that payloads also need a name without
anything that URLs read in another way.
-/

namespace Reassembly

open Json Bytes

namespace Gateway

/-- The gateway that listens at an address and asks for no token. -/
def openAt (address : String) : Gateway := { endpoint := urlOf address }

/-- A gateway that asks for no token. -/
theorem requiredToken_openAt (address : String) : (openAt address).requiredToken = none := rfl

/-- Through a gateway comes the manifest that the depot answers with, redirected, or the refusal of it. -/
def ServesManifest (gateway : Gateway) (remote : Remote) (fileId : String) (depot : Depot) : Prop :=
  (remote.manifest gateway.network fileId depot).1 =
    (Depot.service.lookup fileId depot).1.map (gateway.redirect fileId)

/-- The payload of every chunk that can be downloaded comes from the location that the gateway gives it. -/
def ServesPayloads (gateway : Gateway) (remote : Remote) (fileId : String) (depot : Depot) : Prop :=
  ∀ manifest index entry payload, (Depot.service.lookup fileId depot).1 = .ok manifest →
    (gateway.redirect fileId manifest).entries[index]? = some entry →
    (depot.begin fileId index).1.result = .ok payload →
    (remote.payload gateway.network entry.location depot).1 = .ok payload

variable {address fileId : String} {credentials : Credentials} {config : ClientConfig} {remote : Remote}
  {authority : Authority} {depot : Depot}

/-- The URL of a gateway has an empty path. -/
theorem parse_urlOf (haddress : isSocketAddress address = true) :
    ∃ query fragment, Url.parse (urlOf address) =
      (Url.authorityOf (.web 80) address.toList).map fun authority =>
        ⟨"http", some authority, .segments [""], query, fragment⟩ := by
  obtain ⟨hsome, hplain⟩ := isAddressChar_of_isSocketAddress haddress
  have htext : urlOf address = String.ofList ("http://".toList ++ (address.toList ++ [])) := by
    have hlist : ("http://" ++ address).toList = "http://".toList ++ (address.toList ++ []) := by
      rw [String.toList_append, List.append_nil]
    rw [← hlist, String.ofList_toList]
    rfl
  rw [htext]
  exact Url.parse_web hplain hsome (.inl rfl) fun c hc => absurd hc (by simp)

/-- Services that are reached at a gateway keep its URL, which has an authority. -/
theorem of_connect (haddress : isSocketAddress address = true)
    (hremote : Remote.connect (urlOf address) credentials config = .ok remote) :
    remote.endpoint = urlOf address ∧ ∃ authority, Url.authorityOf (.web 80) address.toList = .ok authority := by
  obtain ⟨query, fragment, hparse⟩ := parse_urlOf haddress
  rw [Remote.connect, hparse] at hremote
  cases hauthority : Url.authorityOf (.web 80) address.toList with
  | error fault =>
    rw [hauthority] at hremote
    exact absurd hremote (by simp [Except.map])
  | ok authority =>
    refine ⟨?_, authority, rfl⟩
    rw [hauthority] at hremote
    dsimp only [Except.map] at hremote
    repeat' split at hremote
    · simp at hremote
    · simp at hremote
    · simp at hremote
    · obtain rfl := Except.ok.inj hremote
      rfl

/-- The URL under which the manifest of a file is asked for at a gateway. -/
theorem manifestUrl_eq (haddress : isSocketAddress address = true)
    (hremote : Remote.connect (urlOf address) credentials config = .ok remote) (fileId : String) :
    ∃ base url : Url, base.path = .segments [""] ∧ base.child? fileId = some url ∧ remote.manifestUrl fileId = .ok url ∧
      url.isHttp = true := by
  obtain ⟨hendpoint, authority, hauthority⟩ := of_connect haddress hremote
  obtain ⟨query, fragment, hparse⟩ := parse_urlOf haddress
  rw [hauthority] at hparse
  refine ⟨⟨"http", some authority, .segments [""], query, fragment⟩, _, rfl, rfl, ?_, rfl⟩
  rw [Remote.manifestUrl, hendpoint, hparse]
  rfl

/-- A manifest comes through a gateway for every depot, or already not for the depot with that one file. -/
theorem servesManifest_iff (haddress : isSocketAddress address = true)
    (hremote : Remote.connect (urlOf address) credentials config = .ok remote) (hsome : fileId ≠ "") :
    (∀ depot : Depot, depot.Fits → (openAt address).ServesManifest remote fileId depot) ↔ IsName fileId := by
  obtain ⟨base, url, hpath, hchild, hurl, hhttp⟩ := manifestUrl_eq haddress hremote fileId
  constructor
  · intro hserves
    have hsingle := hserves (.single fileId) (Depot.fits_single fileId)
    rw [ServesManifest, manifest_run hsome hurl hhttp] at hsingle
    have hlookup : (Depot.service.lookup fileId (.single fileId)).1 = _ := Depot.manifestOf_single_self fileId
    rw [hlookup] at hsingle
    have hdone := Attempt.result_eq_ok (Result.mapError_eq_ok_iff.mp hsingle)
    have hword : Manifest.parse (ofText "OK") = .error .malformed := by decide
    have hbyte : Manifest.parse [1] = .error .malformed := by decide
    obtain ⟨hroute, hhealth⟩ | ⟨hroute, -⟩ | ⟨hroute, hpayload⟩ := outcome_single (requiredToken_openAt address) hdone
    · rw [HttpResponse.readManifest_body rfl, hword] at hhealth
      simp at hhealth
    · exact isName_of_route hpath hchild hroute
    · rw [HttpResponse.readManifest_body rfl, hbyte] at hpayload
      simp at hpayload
  · intro hname depot hfits
    exact manifest_of_route (requiredToken_openAt address) hfits hsome hurl hhttp (route_child hname hsome hpath hchild)

/-- The payloads come through a gateway for every depot, or already not for the depot with that one file. -/
theorem servesPayloads_iff (haddress : isSocketAddress address = true)
    (hremote : Remote.connect (urlOf address) credentials config = .ok remote) (hsome : fileId ≠ "") :
    (∀ depot : Depot, depot.Fits → (openAt address).ServesPayloads remote fileId depot) ↔ IsPlainName fileId := by
  obtain ⟨-, authority, hauthority⟩ := of_connect haddress hremote
  have hparse : ∀ index, ∃ query fragment, Url.parse ((openAt address).locationOf fileId index) =
      .ok ⟨"http", some authority, .segments (chunkSegments fileId index), query, fragment⟩ :=
    parse_locationOf haddress hauthority none fileId
  constructor
  · intro hserves
    obtain ⟨query, fragment, hlocation⟩ := hparse 0
    have hsingle : (remote.payload (openAt address).network ((openAt address).locationOf fileId 0) (.single fileId)).1 =
        .ok [1] :=
      hserves (.single fileId) (Depot.fits_single fileId) _ 0 ⟨(openAt address).locationOf fileId 0, 1⟩ [1]
        (Depot.manifestOf_single_self fileId) rfl (Depot.transferOf_single_self fileId)
    rw [payload_run hlocation rfl] at hsingle
    have hdone := Attempt.result_eq_ok hsingle
    obtain ⟨hroute, hhealth⟩ | ⟨hroute, hmanifest⟩ | ⟨hroute, -⟩ := outcome_single (requiredToken_openAt address) hdone
    · rw [HttpResponse.readBody_of_complete rfl] at hhealth
      exact absurd (Attempt.done.inj hhealth) (by decide)
    · rw [HttpResponse.readBody_of_complete rfl, Manifest.render, ofText_writeObject] at hmanifest
      exact absurd hmanifest (by simp)
    · exact isPlainName_of_route rfl hroute
  · intro hname depot hfits manifest index entry payload hlookup hentry hresult
    obtain ⟨hindex, hlocation⟩ := location_of_redirect hentry
    obtain ⟨query, fragment, hparsed⟩ := hparse index
    have hbound : index < Location.indexBound := by
      obtain ⟨file, hfile, rfl⟩ := Depot.file_of_manifestOf hlookup
      have hlength := congrArg List.length (StoredChunk.map_length_entries fileId 0 file.chunks)
      rw [List.length_map, List.length_map] at hlength
      exact Nat.lt_of_lt_of_le hindex (Nat.le_trans (Nat.le_of_eq hlength) (hfits fileId file hfile).1)
    rw [hlocation]
    exact payload_of_route hparsed rfl (route_payload hname hsome hbound rfl) hresult

end Gateway

open Gateway

/-- Through a gateway the manifest of a file comes from every depot exactly when its name is carried unchanged as
a segment of a URL, and the payloads exactly when it is also carried unchanged without being encoded. -/
theorem gateway_agrees {address : String} (haddress : isSocketAddress address = true) {credentials : Credentials}
    {config : ClientConfig} {remote : Remote}
    (hremote : Remote.connect (urlOf address) credentials config = .ok remote) {fileId : String}
    (hsome : fileId ≠ "") :
    ((∀ depot : Depot, depot.Fits → (openAt address).ServesManifest remote fileId depot) ↔ IsName fileId) ∧
      ((∀ depot : Depot, depot.Fits → (openAt address).ServesPayloads remote fileId depot) ↔ IsPlainName fileId) :=
  ⟨servesManifest_iff haddress hremote hsome, servesPayloads_iff haddress hremote hsome⟩

example : IsName "a b" ∧ IsPlainName "a b" := by decide

example : IsName "a/b" ∧ ¬ IsPlainName "a/b" := by decide

example : IsPlainName "health" ∧ ¬ IsName "health" := by decide

/-- The services at the address of the samples. -/
def Remote.sample : Remote := ⟨"http://127.0.0.1:8080", "Bearer key", "directio/0.1.0", ⟨3, .ofSeconds 1⟩⟩

/-- The services of the samples are reached at the address of the samples. -/
theorem Remote.connect_sample : Remote.connect (urlOf "127.0.0.1:8080") (.bearer "key") {} = .ok .sample := by
  decide +kernel

/-- A plain name is carried unchanged. -/
theorem gateway_agrees_sample :
    isSocketAddress "127.0.0.1:8080" = true ∧
      Remote.connect (urlOf "127.0.0.1:8080") (.bearer "key") {} = .ok .sample ∧
      (∀ depot : Depot, depot.Fits → (openAt "127.0.0.1:8080").ServesManifest .sample "f" depot) ∧
      ∀ depot : Depot, depot.Fits → (openAt "127.0.0.1:8080").ServesPayloads .sample "f" depot := by
  have haddress : isSocketAddress "127.0.0.1:8080" = true := by decide +kernel
  obtain ⟨hmanifest, hpayloads⟩ := gateway_agrees haddress Remote.connect_sample (by decide : "f" ≠ "")
  exact ⟨haddress, Remote.connect_sample, hmanifest.mpr (by decide), hpayloads.mpr (by decide)⟩

/-- The manifest of a file with a slash in its name comes through a gateway, and the payload that it locates does
not. -/
theorem gateway_loses_slash_sample :
    (openAt "127.0.0.1:8080").ServesManifest .sample "a/b" (.single "a/b") ∧
      ¬ (openAt "127.0.0.1:8080").ServesPayloads .sample "a/b" (.single "a/b") := by
  constructor
  · have hmanifest := servesManifest_iff (by decide +kernel) Remote.connect_sample (by decide : "a/b" ≠ "")
    exact hmanifest.mpr (by decide) _ (Depot.fits_single "a/b")
  · intro hserves
    have hpayload := hserves _ 0 ⟨(openAt "127.0.0.1:8080").locationOf "a/b" 0, 1⟩ [1]
      (Depot.manifestOf_single_self "a/b") rfl (Depot.transferOf_single_self "a/b")
    exact absurd hpayload (by decide +kernel)

end Reassembly
