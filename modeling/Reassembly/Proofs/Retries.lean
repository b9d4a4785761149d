import Reassembly.Proofs.Http.Retry
import Reassembly.Proofs.Result

/-!
# Retries do not change what a service answers

Failures in passing cost retries and nothing else. As long as the policy allows for them, a payload or a manifest
that is asked for behind them is the one that is asked for without them, a refusal of the metadata service is the same
refusal on whichever attempt it comes, and a text that is no manifest is not asked for again.
-/

namespace Reassembly

variable {σ α : Type}

open RetryPolicy

/-- An exchange that fails in passing: the request may be repeated after its fault, or the body of a response that
tells of no error breaks off. -/
def Falters : Except TransportFault HttpResponse → Prop
  | .error fault => fault.severity = .transient
  | .ok response => HttpResponse.isError response.status = false ∧ response.complete = false

/-- What comes of an exchange. -/
def outcomeOf (process : HttpResponse → Attempt α) (exchange : Except TransportFault HttpResponse) : Attempt α :=
  outcome (·.status) process (exchange.mapError .transport)

/-- What comes of a response is told by its status, or by its body. -/
theorem outcomeOf_ok (process : HttpResponse → Attempt α) (response : HttpResponse) :
    outcomeOf process (.ok response) = response.outcome process := rfl

/-- A request whose fault is transient may be repeated. -/
theorem not_isLast_of_transient {process : HttpResponse → Attempt α} {fault : TransportFault}
    (h : fault.severity = .transient) : ¬ (outcomeOf process (.error fault)).IsLast := by
  change ¬ (Attempt.failed (.transport fault) fault.severity : Attempt α).IsLast
  rw [h]
  exact id

/-- A body that breaks off may be asked for again. -/
theorem Falters.readBody {exchange : Except TransportFault HttpResponse} (h : Falters exchange) :
    ¬ (outcomeOf HttpResponse.readBody exchange).IsLast := by
  cases exchange with
  | error fault => exact not_isLast_of_transient h
  | ok response =>
    obtain ⟨hstatus, hbroken⟩ := h
    rw [outcomeOf_ok, HttpResponse.outcome, hstatus, HttpResponse.readBody_of_broken hbroken]
    exact id

/-- A manifest whose text breaks off may be asked for again. -/
theorem Falters.readManifest {exchange : Except TransportFault HttpResponse} (h : Falters exchange) :
    ¬ (outcomeOf HttpResponse.readManifest exchange).IsLast := by
  cases exchange with
  | error fault => exact not_isLast_of_transient h
  | ok response =>
    obtain ⟨hstatus, hbroken⟩ := h
    rw [outcomeOf_ok, HttpResponse.outcome, hstatus, HttpResponse.readManifest,
      HttpResponse.readBody_of_broken hbroken]
    exact id

namespace Remote

variable {network : Network σ} {remote : Remote} {url : Url} {authorization : Option String}
  {process : HttpResponse → Attempt α} {script rest : List (Except TransportFault HttpResponse)} {s : σ}

/-- What comes of asking for what is at a URL, with the attempts that were made. -/
def retried (network : Network σ) (remote : Remote) (url : Url) (authorization : Option String)
    (process : HttpResponse → Attempt α) : StateM σ (Retried α) :=
  remote.policy.run (attempt (remote.send network url authorization) (·.status) process)

/-- A request ends with an attempt that is not to be repeated, or with the last that the policy allows. -/
theorem exists_retried (network : Network σ) (remote : Remote) (url : Url) (authorization : Option String)
    (process : HttpResponse → Attempt α) (s : σ) : ∃ n ≤ remote.policy.limit,
      (∀ i < n, ¬ (outcome (·.status) process
        (Action.again (remote.send network url authorization) s i).1).IsLast) ∧
      (n = remote.policy.limit ∨ (outcome (·.status) process
        (Action.again (remote.send network url authorization) s n).1).IsLast) ∧
      remote.retried network url authorization process s =
        (⟨(outcome (·.status) process (Action.again (remote.send network url authorization) s n).1).result, n + 1,
          remote.policy.waits.take n⟩, (Action.again (remote.send network url authorization) s n).2) := by
  obtain ⟨n, hn, hbefore, hend⟩ := exists_last remote.policy fun i =>
    (outcome (·.status) process (Action.again (remote.send network url authorization) s i).1).IsLast
  exact ⟨n, hn, hbefore, hend, run_eq hn hbefore hend⟩

/-- A request behind a script whose exchanges may all be repeated does not end with them. -/
theorem not_isLast_behind (hhttp : url.isHttp = true)
    (hscript : ∀ exchange ∈ script, ¬ (outcomeOf process exchange).IsLast) (rest) (s : σ) {i : Nat}
    (hi : i < script.length) :
    ¬ (outcome (·.status) process
      (Action.again (remote.send network.behind url authorization) (script ++ rest, s) i).1).IsLast := by
  have hscripted : ∃ exchange ∈ script,
      (Action.again (remote.send network.behind url authorization) (script ++ rest, s) i).1 =
        exchange.mapError .transport := exists_exchange hhttp hi rest s
  obtain ⟨exchange, hmem, hexchange⟩ := hscripted
  rw [hexchange]
  exact hscript exchange hmem

/-- An exchange that is not to be repeated ends a request, after those before it that are. -/
theorem retried_of_isLast (hhttp : url.isHttp = true)
    (hscript : ∀ exchange ∈ script, ¬ (outcomeOf process exchange).IsLast)
    (hlimit : script.length ≤ remote.policy.limit) {exchange : Except TransportFault HttpResponse}
    (hlast : (outcomeOf process exchange).IsLast) :
    remote.retried network.behind url authorization process (script ++ exchange :: rest, s) =
      (⟨(outcomeOf process exchange).result, script.length + 1, remote.policy.waits.take script.length⟩,
        (rest, s)) := by
  have hexchange : Action.again (remote.send network.behind url authorization) (script ++ exchange :: rest, s)
      script.length = (exchange.mapError .transport, (rest, s)) := by
    rw [← Nat.add_zero script.length, again_behind_append hhttp, Action.again, send_behind_cons hhttp]
  rw [retried, run_eq hlimit (fun i hi => not_isLast_behind hhttp hscript _ s hi)]
  · rw [hexchange]
    rfl
  · rw [hexchange]
    exact .inr hlast

/-- Exchanges that may be repeated do not change what comes of a request, as long as there are retries for them. -/
theorem result_retried_behind (hscript : ∀ exchange ∈ script, ¬ (outcomeOf process exchange).IsLast)
    (hlimit : script.length + (remote.retried network url authorization process s).1.attempts ≤
      remote.policy.limit + 1) :
    (remote.retried network.behind url authorization process (script, s)).1.result =
      (remote.retried network url authorization process s).1.result := by
  cases hhttp : url.isHttp with
  | false =>
    have hunsent : ∀ {τ : Type} (network : Network τ) (t : τ),
        (remote.retried network url authorization process t).1.result = .error (.transport .unbuildable) := by
      intro τ network t
      have hfirst : Action.again (remote.send network url authorization) t 0 = (.error (.transport .unbuildable), t) :=
        send_of_not_isHttp hhttp t
      rw [retried, run_eq (Nat.zero_le _) (fun i hi => absurd hi (Nat.not_lt_zero i))]
      · rw [hfirst]
        rfl
      · rw [hfirst]
        exact .inr trivial
    rw [hunsent, hunsent]
  | true =>
    obtain ⟨n, -, hbefore, hend, hplain⟩ := exists_retried network remote url authorization process s
    rw [hplain] at hlimit ⊢
    have hlater : ∀ i, Action.again (remote.send network.behind url authorization) (script, s) (script.length + i) =
        ((Action.again (remote.send network url authorization) s i).1,
          ([], (Action.again (remote.send network url authorization) s i).2)) := by
      intro i
      have happend : Action.again (remote.send network.behind url authorization) (script ++ [], s)
          (script.length + i) = Action.again (remote.send network.behind url authorization) ([], s) i :=
        again_behind_append hhttp script [] s i
      rwa [List.append_nil, again_behind_nil hhttp] at happend
    rw [retried, run_eq (n := script.length + n) (by dsimp only at hlimit; omega)]
    · rw [hlater]
    · intro i hi
      by_cases hfirst : i < script.length
      · have hnot : ¬ (outcome (·.status) process
            (Action.again (remote.send network.behind url authorization) (script ++ [], s) i).1).IsLast :=
          not_isLast_behind hhttp hscript [] s hfirst
        rwa [List.append_nil] at hnot
      · obtain ⟨later, rfl⟩ : ∃ later, i = script.length + later := ⟨i - script.length, by omega⟩
        rw [hlater]
        exact hbefore later (by omega)
    · rw [hlater]
      refine hend.imp_left fun hall => ?_
      dsimp only at hlimit
      omega

/-- A location that is no URL is refused, and nothing is asked for. -/
theorem payload_of_malformed {location : String} {fault : UrlFault} (hurl : Url.parse location = .error fault) (s : σ) :
    remote.payload network location s = (.error (.malformedUrl fault), s) := by
  rw [payload, hurl]
  rfl

/-- A payload is asked for at the URL that its location is. -/
theorem payload_of_url {location : String} (hurl : Url.parse location = .ok url) (s : σ) :
    remote.payload network location s = ((remote.retried network url none HttpResponse.readBody s).1.result,
      (remote.retried network url none HttpResponse.readBody s).2) := by
  rw [payload, hurl]
  rfl

/-- A manifest of no name is refused, and nothing is asked for. -/
theorem manifest_of_empty (s : σ) :
    remote.manifest network "" s = (.error (.invalidArguments "file id must not be empty"), s) := rfl

/-- A manifest without a URL is refused, and nothing is asked for. -/
theorem manifest_of_refused {fileId : String} {error : ServiceError} (hsome : fileId ≠ "")
    (hurl : remote.manifestUrl fileId = .error error) (s : σ) :
    remote.manifest network fileId s = (.error error, s) := by
  rw [manifest, if_neg hsome, hurl]
  rfl

/-- A manifest is asked for at its URL, and may be refused. -/
theorem manifest_of_url {fileId : String} (hsome : fileId ≠ "") (hurl : remote.manifestUrl fileId = .ok url) (s : σ) :
    remote.manifest network fileId s =
      ((remote.retried network url (some remote.authorization) HttpResponse.readManifest s).1.result.mapError
          (refusal fileId),
        (remote.retried network url (some remote.authorization) HttpResponse.readManifest s).2) := by
  rw [manifest, if_neg hsome, hurl]
  rfl

/-- Failures in passing do not change the payload at a location. -/
theorem payload_behind {location : String} (hscript : ∀ exchange ∈ script, Falters exchange)
    (hlimit : ∀ url, Url.parse location = .ok url →
      script.length + (remote.retried network url none HttpResponse.readBody s).1.attempts ≤ remote.policy.limit + 1) :
    (remote.payload network.behind location (script, s)).1 = (remote.payload network location s).1 := by
  cases hurl : Url.parse location with
  | error fault => rw [payload_of_malformed hurl, payload_of_malformed hurl]
  | ok url =>
    rw [payload_of_url hurl, payload_of_url hurl]
    exact result_retried_behind (fun exchange hmem => (hscript exchange hmem).readBody) (hlimit url hurl)

/-- Failures in passing do not change the manifest of a file. -/
theorem manifest_behind {fileId : String} (hscript : ∀ exchange ∈ script, Falters exchange)
    (hlimit : ∀ url, remote.manifestUrl fileId = .ok url → script.length +
      (remote.retried network url (some remote.authorization) HttpResponse.readManifest s).1.attempts ≤
        remote.policy.limit + 1) :
    (remote.manifest network.behind fileId (script, s)).1 = (remote.manifest network fileId s).1 := by
  by_cases hsome : fileId = ""
  · rw [hsome, manifest_of_empty, manifest_of_empty]
  cases hurl : remote.manifestUrl fileId with
  | error error => rw [manifest_of_refused hsome hurl, manifest_of_refused hsome hurl]
  | ok url =>
    rw [manifest_of_url hsome hurl, manifest_of_url hsome hurl]
    exact congrArg (Except.mapError (refusal fileId)) (result_retried_behind
      (fun exchange hmem => (hscript exchange hmem).readManifest) (hlimit url hurl))

/-- An error that the attempt for a manifest ends with is reported, on whichever attempt it comes. -/
theorem manifest_of_fatal {fileId : String} {response : HttpResponse} {error : ServiceError} (hsome : fileId ≠ "")
    (hurl : remote.manifestUrl fileId = .ok url) (hhttp : url.isHttp = true)
    (hscript : ∀ exchange ∈ script, Falters exchange) (hlimit : script.length ≤ remote.policy.limit)
    (hfatal : response.outcome HttpResponse.readManifest = .fatal error) :
    remote.manifest network.behind fileId (script ++ .ok response :: rest, s) =
      (.error (refusal fileId error), (rest, s)) := by
  have hlast : (outcomeOf HttpResponse.readManifest (.ok response)).IsLast := by
    rw [outcomeOf_ok, hfatal]
    trivial
  rw [manifest_of_url hsome hurl, retried_of_isLast hhttp (fun exchange hmem => (hscript exchange hmem).readManifest)
    hlimit hlast, outcomeOf_ok, hfatal]
  rfl

end Remote

/-- The refusals of a manifest, by the status of the answer. -/
def refusals (fileId : String) : List (Nat × ServiceError) :=
  [(400, .notFound fileId), (401, .unauthorized fileId), (422, .unprocessable fileId)]

/-- A status that refuses a manifest is the error of the refusal. -/
theorem refusal_of_mem {fileId : String} {response : HttpResponse} {error : ServiceError}
    (h : (response.status, error) ∈ refusals fileId) :
    response.outcome HttpResponse.readManifest = .fatal (.transport (.ofStatus response.status)) ∧
      Remote.refusal fileId (.transport (.ofStatus response.status)) = error := by
  simp only [refusals, List.mem_cons, Prod.mk.injEq, List.not_mem_nil, or_false] at h
  rcases h with ⟨hstatus, rfl⟩ | ⟨hstatus, rfl⟩ | ⟨hstatus, rfl⟩ <;>
    exact ⟨by rw [HttpResponse.outcome, hstatus]; rfl, by rw [hstatus]; rfl⟩

/-- A text that is no manifest is an error that no other attempt mends. -/
theorem outcome_of_parse {response : HttpResponse} {fault : Json.Fault}
    (hstatus : HttpResponse.isError response.status = false) (hcomplete : response.complete = true)
    (hparse : Manifest.parse response.body = .error fault) : response.outcome HttpResponse.readManifest =
      .fatal (.invalidResponse s!"json body could not be parsed: {fault.message}") := by
  rw [HttpResponse.outcome, hstatus, HttpResponse.readManifest_body hcomplete, hparse]
  rfl

/-- Retries follow the policy, and change nothing else.

Whatever comes of the requests that are made one after the other, they end with the first that is not to be repeated
or with the last that the policy allows. The last one decides the result, and the waits are the first of the policy's,
one for each retry. So failures in passing, for which there are retries left, change neither the payload nor the
manifest that is asked for behind them. A manifest that is refused is refused on whichever attempt the refusal comes,
and a whole text that is no manifest ends the request as well: nothing more is asked of the network. -/
theorem retries_follow_policy :
    (∀ {σ ρ α : Type} (policy : RetryPolicy) (send : StateM σ (Except RequestFault ρ)) (status : ρ → Nat)
        (process : ρ → Attempt α) (s : σ), ∃ n ≤ policy.limit,
      (∀ i < n, ¬ (outcome status process (Action.again send s i).1).IsLast) ∧
      (n = policy.limit ∨ (outcome status process (Action.again send s n).1).IsLast) ∧
      policy.run (attempt send status process) s =
        (⟨(outcome status process (Action.again send s n).1).result, n + 1, policy.waits.take n⟩,
          (Action.again send s n).2)) ∧
    ∀ {σ : Type} (network : Network σ) (remote : Remote) (s : σ) (failures : List (Except TransportFault HttpResponse)),
      (∀ exchange ∈ failures, Falters exchange) →
      (∀ location, (∀ url, Url.parse location = .ok url → failures.length +
          (remote.retried network url none HttpResponse.readBody s).1.attempts ≤ remote.policy.limit + 1) →
        (remote.payload network.behind location (failures, s)).1 = (remote.payload network location s).1) ∧
      (∀ fileId, (∀ url, remote.manifestUrl fileId = .ok url → failures.length +
          (remote.retried network url (some remote.authorization) HttpResponse.readManifest s).1.attempts ≤
            remote.policy.limit + 1) →
        (remote.manifest network.behind fileId (failures, s)).1 = (remote.manifest network fileId s).1) ∧
      ∀ fileId url response rest, fileId ≠ "" → remote.manifestUrl fileId = .ok url → url.isHttp = true →
        failures.length ≤ remote.policy.limit →
        (∀ error, (response.status, error) ∈ refusals fileId →
          remote.manifest network.behind fileId (failures ++ .ok response :: rest, s) = (.error error, (rest, s))) ∧
        ∀ fault, HttpResponse.isError response.status = false → response.complete = true →
          Manifest.parse response.body = .error fault →
          remote.manifest network.behind fileId (failures ++ .ok response :: rest, s) =
            (.error (.invalidResponse s!"json body could not be parsed: {fault.message}"), (rest, s)) := by
  refine ⟨fun policy send status process s => ?_, fun network remote s failures hfalters =>
    ⟨fun _ => Remote.payload_behind hfalters, fun _ => Remote.manifest_behind hfalters,
      fun fileId url response rest hsome hurl hhttp hlimit => ⟨fun error herror => ?_,
        fun fault hstatus hcomplete hparse => ?_⟩⟩⟩
  · obtain ⟨n, hn, hbefore, hend⟩ := exists_last policy fun i =>
      (outcome status process (Action.again send s i).1).IsLast
    exact ⟨n, hn, hbefore, hend, run_eq hn hbefore hend⟩
  · obtain ⟨hfatal, rfl⟩ := refusal_of_mem herror
    exact Remote.manifest_of_fatal hsome hurl hhttp hfalters hlimit hfatal
  · exact Remote.manifest_of_fatal hsome hurl hhttp hfalters hlimit (outcome_of_parse hstatus hcomplete hparse)

/-- Services that may be asked three times. -/
def Remote.patientSample : Remote := ⟨"http://h", "Bearer key", "agent", ⟨2, .ofSeconds 1⟩⟩

/-- A URL of the services. -/
def Url.segmentSample : Url := { scheme := "http", authority := some { host := .domain "h" }, path := .segments ["f"] }

/-- A network that answers everything with one byte. -/
def Network.byteSample : Network Unit := fun _ => return .ok { body := [1] }

/-- A refused connection and a body that breaks off cost two retries: the byte comes on the third attempt, and so does
the refusal of a manifest, while the byte that is no manifest ends the request on the first. -/
theorem retries_follow_policy_sample :
    (Remote.patientSample.payload Network.byteSample.behind "http://h/f"
        ([.error .refused, .ok { complete := false }], ())).1 = .ok [1] ∧
      Remote.patientSample.manifest Network.byteSample.behind "f"
        ([.error .refused, .ok { complete := false }, .ok { status := 422 }], ()) =
          (.error (.unprocessable "f"), ([], ())) ∧
      Remote.patientSample.manifest Network.byteSample.behind "f" ([.ok { body := [1] }], ()) =
        (.error (.invalidResponse "json body could not be parsed: the text is not well-formed"), ([], ())) := by
  have hfalters : ∀ exchange ∈ [.error .refused, .ok { complete := false }], Falters exchange := by
    intro exchange hmem
    simp only [List.mem_cons, List.not_mem_nil, or_false] at hmem
    rcases hmem with rfl | rfl
    · exact (by decide : TransportFault.refused.severity = .transient)
    · exact ⟨rfl, rfl⟩
  have hlocation : Url.parse "http://h/f" = .ok .segmentSample := by decide +kernel
  have hurl : Remote.patientSample.manifestUrl "f" = .ok .segmentSample := by decide +kernel
  have hplain : Remote.patientSample.retried Network.byteSample .segmentSample none HttpResponse.readBody () =
      (⟨.ok [1], 1, []⟩, ()) := run_of_isLast (attempt_run ()) trivial
  obtain ⟨-, hbehind⟩ := retries_follow_policy
  obtain ⟨hpayload, -, hrefused⟩ := hbehind Network.byteSample .patientSample () _ hfalters
  obtain ⟨-, -, hdirect⟩ := hbehind Network.byteSample .patientSample () [] (by simp)
  refine ⟨?_, ?_, ?_⟩
  · rw [hpayload "http://h/f"]
    · rw [Remote.payload_of_url hlocation, hplain]
    · intro url hparse
      obtain rfl := Except.ok.inj (hlocation.symm.trans hparse)
      rw [hplain]
      exact Nat.le_refl 3
  · exact (hrefused "f" _ { status := 422 } [] (by decide) hurl rfl (Nat.le_refl 2)).1 _ (by simp [refusals])
  · exact (hdirect "f" _ { body := [1] } [] (by decide) hurl rfl (Nat.zero_le 2)).2 .malformed rfl rfl (by decide)

end Reassembly
