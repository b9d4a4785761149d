import Reassembly.Proofs.Retries

/-!
# The statuses that end a request

A response ends a request with an error when its status is one of the client's or of the server's errors, whatever
its body is and however many retries are left. No other status is looked at: what arrives with one is taken for what
was asked for, whether or not the status tells of success, and if it breaks off it is asked for again.
-/

namespace Reassembly

variable {σ α : Type}

open RetryPolicy

/-- A status tells of success. -/
def HttpResponse.IsSuccess (status : Nat) : Prop := 200 ≤ status ∧ status < 300

/-- The statuses that tell of an error of the client or of the server. -/
theorem HttpResponse.isError_iff {status : Nat} : isError status = true ↔ 400 ≤ status ∧ status < 600 := by
  rw [isError, Bool.and_eq_true, decide_eq_true_iff, decide_eq_true_iff]

/-- What comes of a response whose status tells of an error is that error. -/
theorem outcome_of_isError {process : HttpResponse → Attempt α} {response : HttpResponse}
    (h : HttpResponse.isError response.status = true) :
    outcome (·.status) process (.ok response) = .fatal (.transport (.ofStatus response.status)) := if_pos h

/-- A value comes of a response whose status tells of no error, and that is processed into it. -/
theorem outcome_eq_done_iff {process : HttpResponse → Attempt α} {exchange : Except RequestFault HttpResponse}
    {a : α} : outcome (·.status) process exchange = .done a ↔
      ∃ response, exchange = .ok response ∧ HttpResponse.isError response.status = false ∧
        process response = .done a := by
  constructor
  · intro h
    cases exchange with
    | error fault => cases hseverity : fault.severity <;> simp [outcome, hseverity, Attempt.failed] at h
    | ok response => exact ⟨response, rfl, HttpResponse.outcome_eq_done h⟩
  · rintro ⟨response, rfl, hstatus, hprocess⟩
    rwa [outcome, if_neg (by rw [hstatus]; exact Bool.false_ne_true)]

namespace Remote

/-- An attempt, counted from zero, is made for a request, and brings a response. -/
structure Brings (network : Network σ) (remote : Remote) (url : Url) (authorization : Option String)
    (process : HttpResponse → Attempt α) (s : σ) (n : Nat) (response : HttpResponse) : Prop where
  made : n < (remote.retried network url authorization process s).1.attempts
  brought : (Action.again (remote.send network url authorization) s n).1 = .ok response

variable {network : Network σ} {remote : Remote} {url : Url} {authorization : Option String}
  {process : HttpResponse → Attempt α} {s : σ} {n : Nat} {response : HttpResponse}

/-- A value comes of a request when the last response is processed into it, and has a status that tells of no
error. -/
theorem result_retried_eq_ok_iff {a : α} :
    (remote.retried network url authorization process s).1.result = .ok a ↔
      ∃ n response, remote.Brings network url authorization process s n response ∧
        (remote.retried network url authorization process s).1.attempts = n + 1 ∧
        HttpResponse.isError response.status = false ∧ process response = .done a := by
  obtain ⟨last, -, -, -, hretried⟩ := remote.exists_retried network url authorization process s
  constructor
  · intro hresult
    rw [hretried] at hresult
    obtain ⟨response, hbrought, hstatus, hprocess⟩ := outcome_eq_done_iff.mp (Attempt.result_eq_ok hresult)
    have hattempts := congrArg (·.1.attempts) hretried
    exact ⟨last, response, ⟨hattempts ▸ Nat.lt_succ_self last, hbrought⟩, hattempts, hstatus, hprocess⟩
  · rintro ⟨n, response, ⟨-, hbrought⟩, hattempts, hstatus, hprocess⟩
    rw [hretried] at hattempts ⊢
    obtain rfl : last = n := Nat.succ.inj hattempts
    dsimp only
    rw [outcome_eq_done_iff.mpr ⟨response, hbrought, hstatus, hprocess⟩, Attempt.result]

/-- A response whose status tells of an error is the last one, and the request fails with that error. -/
theorem Brings.of_isError (h : remote.Brings network url authorization process s n response)
    (herror : HttpResponse.isError response.status = true) :
    remote.retried network url authorization process s =
      (⟨.error (.transport (.ofStatus response.status)), n + 1, remote.policy.waits.take n⟩,
        (Action.again (remote.send network url authorization) s n).2) := by
  obtain ⟨hmade, hbrought⟩ := h
  obtain ⟨last, -, hbefore, -, hretried⟩ := remote.exists_retried network url authorization process s
  have houtcome : outcome (·.status) process (Action.again (remote.send network url authorization) s n).1 =
      .fatal (.transport (.ofStatus response.status)) := by rw [hbrought, outcome_of_isError herror]
  rw [hretried] at hmade ⊢
  -- an attempt that is made after this one would have needed this one to be repeated
  obtain rfl : n = last := by
    refine Nat.le_antisymm (Nat.le_of_lt_succ hmade) (Nat.not_lt.mp fun hlater => hbefore n hlater ?_)
    rw [houtcome]
    trivial
  rw [houtcome, Attempt.result]

/-- A payload is what the last response carries, if that arrives whole and its status tells of no error. -/
theorem payload_eq_ok_iff {location : String} {bytes : Bytes} :
    (remote.payload network location s).1 = .ok bytes ↔
      ∃ url n response, Url.parse location = .ok url ∧
        remote.Brings network url none HttpResponse.readBody s n response ∧
        (remote.retried network url none HttpResponse.readBody s).1.attempts = n + 1 ∧
        HttpResponse.isError response.status = false ∧ response.complete = true ∧ response.body = bytes := by
  cases hurl : Url.parse location with
  | error fault => simp [payload_of_malformed hurl]
  | ok url =>
    rw [payload_of_url hurl]
    simp only [result_retried_eq_ok_iff, HttpResponse.readBody_eq_done_iff, Except.ok.injEq, exists_and_left,
      exists_eq_left']

/-- A manifest is what the last response writes, if that arrives whole and its status tells of no error. -/
theorem manifest_eq_ok_iff {fileId : String} {manifest : Manifest} :
    (remote.manifest network fileId s).1 = .ok manifest ↔
      fileId ≠ "" ∧ ∃ url n response, remote.manifestUrl fileId = .ok url ∧
        remote.Brings network url (some remote.authorization) HttpResponse.readManifest s n response ∧
        (remote.retried network url (some remote.authorization) HttpResponse.readManifest s).1.attempts = n + 1 ∧
        HttpResponse.isError response.status = false ∧ response.complete = true ∧
        Manifest.parse response.body = .ok manifest := by
  by_cases hsome : fileId = ""
  · simp [hsome, manifest_of_empty]
  cases hurl : remote.manifestUrl fileId with
  | error error => simp [manifest_of_refused hsome hurl]
  | ok url =>
    rw [manifest_of_url hsome hurl]
    simp only [Result.mapError_eq_ok_iff, result_retried_eq_ok_iff, HttpResponse.readManifest_eq_done_iff,
      Except.ok.injEq, exists_and_left, exists_eq_left', hsome, ne_eq, not_false_eq_true, true_and]

/-- An action that makes a request ends with an attempt, counted from zero, and with an error: nothing is asked of the
network after that attempt. -/
structure FailsAt {β : Type} (network : Network σ) (remote : Remote) (url : Url) (authorization : Option String)
    (process : HttpResponse → Attempt α) (s : σ) (n : Nat) (act : StateM σ (Except ServiceError β)) : Prop where
  last : (remote.retried network url authorization process s).1.attempts = n + 1
  failed : ∃ error, act s = (.error error, (Action.again (remote.send network url authorization) s n).2)

/-- Whenever a response with a given status is brought for a payload, asking for the payload ends with it and fails. -/
def EndsPayloads (status : Nat) : Prop :=
  ∀ {σ : Type} (network : Network σ) (remote : Remote) (location : String) (url : Url) (s : σ) (n : Nat)
    (response : HttpResponse), response.status = status → Url.parse location = .ok url →
    remote.Brings network url none HttpResponse.readBody s n response →
    remote.FailsAt network url none HttpResponse.readBody s n (remote.payload network location)

/-- Whenever a response with a given status is brought for a manifest, asking for the manifest ends with it and
fails. -/
def EndsManifests (status : Nat) : Prop :=
  ∀ {σ : Type} (network : Network σ) (remote : Remote) (fileId : String) (url : Url) (s : σ) (n : Nat)
    (response : HttpResponse), response.status = status → fileId ≠ "" → remote.manifestUrl fileId = .ok url →
    remote.Brings network url (some remote.authorization) HttpResponse.readManifest s n response →
    remote.FailsAt network url (some remote.authorization) HttpResponse.readManifest s n
      (remote.manifest network fileId)

/-- A status that tells of an error ends what asks for a payload. -/
theorem endsPayloads_of_isError {status : Nat} (h : HttpResponse.isError status = true) : EndsPayloads status := by
  rintro σ network remote location url s n response rfl hurl hbrings
  have hretried := hbrings.of_isError h
  refine ⟨congrArg (·.1.attempts) hretried, .transport (.ofStatus response.status), ?_⟩
  rw [payload_of_url hurl, hretried]

/-- A status that tells of an error ends what asks for a manifest. -/
theorem endsManifests_of_isError {status : Nat} (h : HttpResponse.isError status = true) : EndsManifests status := by
  rintro σ network remote fileId url s n response rfl hsome hurl hbrings
  have hretried := hbrings.of_isError h
  refine ⟨congrArg (·.1.attempts) hretried, refusal fileId (.transport (.ofStatus response.status)), ?_⟩
  rw [manifest_of_url hsome hurl, hretried]
  rfl

end Remote

/-- The location of a payload. -/
theorem Url.parse_segmentSample : Url.parse "http://h/f" = .ok .segmentSample := by decide +kernel

/-- The URL of a manifest. -/
theorem Remote.manifestUrl_patientSample : patientSample.manifestUrl "f" = .ok .segmentSample := by decide +kernel

/-- An object without members writes the manifest of defaults. -/
theorem Manifest.parse_braces : Manifest.parse [0x7b, 0x7d] = .ok {} := by decide +kernel

/-- A network that answers every request alike. -/
def Network.answering (response : HttpResponse) : Network σ := fun _ => return .ok response

namespace Remote

variable {remote : Remote} {url : Url} {authorization : Option String} {process : HttpResponse → Attempt α}
  {response : HttpResponse}

/-- One request is made where every request is answered alike, if the answer is not to be asked for again. -/
theorem retried_answering (hhttp : url.isHttp = true) (hlast : (response.outcome process).IsLast) (s : σ) :
    remote.retried (.answering response) url authorization process s =
      (⟨(response.outcome process).result, 1, []⟩, s) := by
  have hattempt : attempt (remote.send (.answering response) url authorization) (·.status) process s =
      (response.outcome process, s) := by
    rw [attempt_run, send_of_isHttp hhttp]
    rfl
  rw [retried, run_of_isLast hattempt hlast]

/-- Where every request is answered alike, the first one brings the answer. -/
theorem brings_answering (hhttp : url.isHttp = true) (hlast : (response.outcome process).IsLast) (s : σ) :
    remote.Brings (.answering response) url authorization process s 0 response := by
  refine ⟨?_, ?_⟩
  · rw [retried_answering hhttp hlast]
    exact Nat.one_pos
  · rw [Action.again, send_of_isHttp hhttp]
    rfl

/-- A payload that arrives whole is taken whatever its status is, if that tells of no error. -/
theorem payload_answering {location : String} (hurl : Url.parse location = .ok url) (hhttp : url.isHttp = true)
    (hstatus : HttpResponse.isError response.status = false) (hcomplete : response.complete = true) (s : σ) :
    remote.payload (.answering response) location s = (.ok response.body, s) := by
  rw [payload_of_url hurl, retried_answering hhttp (HttpResponse.isLast_readBody hcomplete), HttpResponse.outcome,
    hstatus, HttpResponse.readBody_of_complete hcomplete]
  rfl

/-- A manifest that arrives whole is taken whatever its status is, if that tells of no error. -/
theorem manifest_answering {fileId : String} {manifest : Manifest} (hsome : fileId ≠ "")
    (hurl : remote.manifestUrl fileId = .ok url) (hhttp : url.isHttp = true)
    (hstatus : HttpResponse.isError response.status = false) (hcomplete : response.complete = true)
    (hparse : Manifest.parse response.body = .ok manifest) (s : σ) :
    remote.manifest (.answering response) fileId s = (.ok manifest, s) := by
  rw [manifest_of_url hsome hurl, retried_answering hhttp (HttpResponse.isLast_readManifest hcomplete),
    HttpResponse.outcome, hstatus, HttpResponse.readManifest_body hcomplete, hparse]
  rfl

/-- The statuses that end what asks for a payload are those that tell of an error. -/
theorem endsPayloads_iff {status : Nat} : EndsPayloads status ↔ HttpResponse.isError status = true := by
  refine ⟨fun hends => ?_, endsPayloads_of_isError⟩
  by_contra hstatus
  have hanswered : patientSample.payload (.answering { status }) "http://h/f" () = (.ok [], ()) :=
    payload_answering Url.parse_segmentSample rfl (Bool.eq_false_iff.mpr hstatus) rfl ()
  obtain ⟨-, error, hfailed⟩ := hends (.answering { status }) .patientSample _ .segmentSample () 0 { status } rfl
    Url.parse_segmentSample (brings_answering rfl (HttpResponse.isLast_readBody rfl) ())
  have hresult : Except.ok _ = Except.error error := congrArg (·.1) (hanswered.symm.trans hfailed)
  exact absurd hresult (by simp)

/-- The statuses that end what asks for a manifest are those that tell of an error. -/
theorem endsManifests_iff {status : Nat} : EndsManifests status ↔ HttpResponse.isError status = true := by
  refine ⟨fun hends => ?_, endsManifests_of_isError⟩
  by_contra hstatus
  have hanswered : patientSample.manifest (.answering { status, body := [0x7b, 0x7d] }) "f" () = (.ok {}, ()) :=
    manifest_answering (by decide) manifestUrl_patientSample rfl (Bool.eq_false_iff.mpr hstatus) rfl
      Manifest.parse_braces ()
  obtain ⟨-, error, hfailed⟩ := hends (.answering { status, body := [0x7b, 0x7d] }) .patientSample "f" .segmentSample ()
    0 _ rfl (by decide) manifestUrl_patientSample (brings_answering rfl (HttpResponse.isLast_readManifest rfl) ())
  have hresult : Except.ok _ = Except.error error := congrArg (·.1) (hanswered.symm.trans hfailed)
  exact absurd hresult (by simp)

end Remote

/-- A request fails for its status when that is an error of the client or of the server, and only then.

A payload or a manifest comes of the last response that was brought, if that arrived whole and its status was no such
error, and of nothing else; the response that a payload comes of need not have a status of success. A response with
a status from 400 up to 599 is the last one, whatever its body and whatever else the network brings: the request
fails on the attempt that it comes of. There is no other status of which this holds. -/
theorem only_error_statuses_fail (network : Network σ) (remote : Remote) (s : σ) :
    (∀ location bytes, (remote.payload network location s).1 = .ok bytes ↔
      ∃ url n response, Url.parse location = .ok url ∧
        remote.Brings network url none HttpResponse.readBody s n response ∧
        (remote.retried network url none HttpResponse.readBody s).1.attempts = n + 1 ∧
        HttpResponse.isError response.status = false ∧ response.complete = true ∧ response.body = bytes) ∧
    (∀ fileId manifest, (remote.manifest network fileId s).1 = .ok manifest ↔
      fileId ≠ "" ∧ ∃ url n response, remote.manifestUrl fileId = .ok url ∧
        remote.Brings network url (some remote.authorization) HttpResponse.readManifest s n response ∧
        (remote.retried network url (some remote.authorization) HttpResponse.readManifest s).1.attempts = n + 1 ∧
        HttpResponse.isError response.status = false ∧ response.complete = true ∧
        Manifest.parse response.body = .ok manifest) ∧
    ∀ status, (Remote.EndsPayloads status ↔ 400 ≤ status ∧ status < 600) ∧
      (Remote.EndsManifests status ↔ 400 ≤ status ∧ status < 600) :=
  ⟨fun _ _ => Remote.payload_eq_ok_iff, fun _ _ => Remote.manifest_eq_ok_iff, fun _ =>
    ⟨Remote.endsPayloads_iff.trans HttpResponse.isError_iff, Remote.endsManifests_iff.trans HttpResponse.isError_iff⟩⟩

/-- A byte that comes with the status 200 is a payload, and a request for it that is not found ends with that answer,
as one for a manifest does, although the text that came with it writes one. -/
theorem only_error_statuses_fail_sample :
    (Remote.patientSample.payload (.answering { body := [1] }) "http://h/f" ()).1 = .ok [1] ∧
      Remote.patientSample.FailsAt (.answering { status := 404, body := [1] }) .segmentSample none
        HttpResponse.readBody () 0
        (Remote.patientSample.payload (.answering { status := 404, body := [1] }) "http://h/f") ∧
      Remote.patientSample.FailsAt (.answering { status := 404, body := [0x7b, 0x7d] }) .segmentSample
        (some Remote.patientSample.authorization) HttpResponse.readManifest () 0
        (Remote.patientSample.manifest (.answering { status := 404, body := [0x7b, 0x7d] }) "f") := by
  obtain ⟨hpayload, -, hstatus⟩ := only_error_statuses_fail (.answering { body := [1] }) .patientSample ()
  obtain ⟨hpayloads, hmanifests⟩ := hstatus 404
  have hfirst : (Remote.patientSample.retried (.answering { body := [1] }) .segmentSample none
      HttpResponse.readBody ()).1.attempts = 1 := by
    rw [Remote.retried_answering rfl (HttpResponse.isLast_readBody rfl)]
  refine ⟨?_, ?_, ?_⟩
  · exact (hpayload _ _).mpr ⟨.segmentSample, 0, { body := [1] }, Url.parse_segmentSample,
      Remote.brings_answering rfl (HttpResponse.isLast_readBody rfl) (), hfirst, rfl, rfl, rfl⟩
  · exact hpayloads.mpr (by decide) _ _ _ _ _ _ { status := 404, body := [1] } rfl Url.parse_segmentSample
      (Remote.brings_answering rfl (HttpResponse.isLast_readBody rfl) ())
  · exact hmanifests.mpr (by decide) _ _ _ _ _ _ { status := 404, body := [0x7b, 0x7d] } rfl (by decide)
      Remote.manifestUrl_patientSample (Remote.brings_answering rfl (HttpResponse.isLast_readManifest rfl) ())

/-- An answer with the status 304, which brings nothing, is taken for an empty payload, and a text that comes with the
status 300 for the manifest, though neither tells of success. -/
theorem unsuccessful_statuses_pass_sample :
    ¬ HttpResponse.IsSuccess 304 ∧ ¬ HttpResponse.IsSuccess 300 ∧
      (Remote.patientSample.payload (.answering { status := 304 }) "http://h/f" ()).1 = .ok [] ∧
      (Remote.patientSample.manifest (.answering { status := 300, body := [0x7b, 0x7d] }) "f" ()).1 = .ok {} ∧
      ¬ Remote.EndsPayloads 304 ∧ ¬ Remote.EndsManifests 300 := by
  refine ⟨by simp [HttpResponse.IsSuccess], by simp [HttpResponse.IsSuccess], ?_, ?_, ?_, ?_⟩
  · rw [Remote.payload_answering Url.parse_segmentSample rfl rfl rfl ()]
  · rw [Remote.manifest_answering (by decide) Remote.manifestUrl_patientSample rfl rfl rfl Manifest.parse_braces ()]
  · rw [Remote.endsPayloads_iff]
    decide
  · rw [Remote.endsManifests_iff]
    decide

end Reassembly
