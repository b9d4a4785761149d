import Reassembly.Http.Script
import Reassembly.Proofs.Retries
import Reassembly.Proofs.Retrieval.Fetch

/-!
# What is retried, and what is reported

A request is repeated after some faults, and so is a transfer that broke off. A fault is also reported as a
failure to reach the server, or not. These are three judgements of one chain of causes, and they do not agree: a
message that was called off is repeated but not reported, unless a deadline, a connection or the operating system
comes in somewhere below it, and so is a body that cannot be decoded. Every other fault that is repeated is
reported.

When the retries of a request are used up, the error that is left is the last fault, whoever wraps it.
-/

namespace Reassembly

open RetryPolicy

namespace TransportFault

/-- No cause of a fault is a deadline, a connection that could not be made, or of the operating system. -/
def Unexplained (fault : TransportFault) : Prop :=
  fault.isTimeout = false ∧ fault.isUnreachable = false ∧ fault.causes.any Cause.isSystem = false

/-- A request whose message was called off, for no other reason. -/
def CalledOff (fault : TransportFault) : Prop :=
  fault.stage = .requesting ∧ (∃ below, firstMessage? fault.causes = some (.canceled, below)) ∧ fault.Unexplained

/-- A body that cannot be decoded, for no other reason, and not because it was cut short. -/
def Garbled (fault : TransportFault) : Prop :=
  fault.stage = .decoding ∧ fault.isCutShort = false ∧ fault.Unexplained

variable {fault : TransportFault}

/-- What is below the first message fault of a chain is part of the chain. -/
theorem any_of_firstMessage? {causes below : List Cause} {message : MessageFault}
    (h : firstMessage? causes = some (message, below)) {p : Cause → Bool} (hbelow : below.any p = true) :
    causes.any p = true := by
  fun_induction firstMessage? causes with
  | case1 => simp at h
  | case2 message below =>
    obtain ⟨-, rfl⟩ : _ ∧ _ := by simpa using h
    simp [hbelow]
  | case3 first below hfirst ih => simp [ih h]

/-- Without a fault of the operating system, what is interrupted was cut short or called off. -/
theorem isInterrupted_iff (hsystem : fault.causes.any Cause.isSystem = false) :
    fault.isInterrupted = true ↔
      fault.isCutShort = true ∨ ∃ below, firstMessage? fault.causes = some (.canceled, below) := by
  have hbelow : ∀ message below, firstMessage? fault.causes = some (message, below) →
      below.any Cause.isSystem = false := by
    intro message below hfirst
    rw [Bool.eq_false_iff]
    intro hany
    rw [any_of_firstMessage? hfirst hany] at hsystem
    cases hsystem
  rw [isInterrupted, isCutShort]
  cases hfirst : firstMessage? fault.causes with
  | none => simp [hsystem]
  | some first =>
    obtain ⟨message, below⟩ := first
    have hnone := hbelow message below hfirst
    cases message <;> simp [hnone]

/-- A request is repeated after a deadline, without a connection, or when its message was interrupted. -/
theorem severity_eq_transient_iff : fault.severity = .transient ↔
    fault.isTimeout = true ∨ fault.isUnreachable = true ∨ (fault.stage = .requesting ∧ fault.isInterrupted = true) := by
  rw [severity]
  by_cases hplain : (fault.isTimeout || fault.isUnreachable) = true
  · rw [if_pos hplain]
    rw [Bool.or_eq_true] at hplain
    exact iff_of_true rfl (hplain.elim .inl fun hunreachable => .inr (.inl hunreachable))
  · rw [if_neg hplain]
    rw [Bool.not_eq_true, Bool.or_eq_false_iff] at hplain
    rw [hplain.1, hplain.2]
    cases fault.stage <;> simp

/-- A fault is not reported when there is no other cause for it, it was not cut short, and it is not that a body
was not received. -/
theorem isConnectionFault_eq_false_iff : fault.isConnectionFault = false ↔
    fault.Unexplained ∧ fault.isCutShort = false ∧ fault.stage ≠ .receiving := by
  simp only [isConnectionFault, Bool.or_eq_false_iff, decide_eq_false_iff_not, Unexplained]
  tauto

/-- The requests that are repeated and not reported are those that were called off. -/
theorem severity_unreported_iff :
    fault.severity = .transient ∧ fault.isConnectionFault = false ↔ fault.CalledOff := by
  rw [severity_eq_transient_iff, isConnectionFault_eq_false_iff]
  constructor
  · rintro ⟨htransient, hunexplained, hwhole, -⟩
    obtain ⟨htimeout, hunreachable, hsystem⟩ := hunexplained
    rw [htimeout, hunreachable, isInterrupted_iff hsystem, hwhole] at htransient
    obtain ⟨hstage, hcanceled⟩ : fault.stage = .requesting ∧ _ := by simpa using htransient
    exact ⟨hstage, hcanceled, htimeout, hunreachable, hsystem⟩
  · rintro ⟨hstage, ⟨below, hcanceled⟩, hunexplained⟩
    have hinterrupted := (isInterrupted_iff hunexplained.2.2).mpr (.inr ⟨below, hcanceled⟩)
    refine ⟨.inr (.inr ⟨hstage, hinterrupted⟩), hunexplained, ?_, by simp [hstage]⟩
    rw [isCutShort, hcanceled]

/-- The transfers that are repeated and not reported are those that are garbled. -/
theorem transferSeverity_unreported_iff :
    fault.transferSeverity = .transient ∧ fault.isConnectionFault = false ↔ fault.Garbled := by
  have htransient : fault.transferSeverity = .transient ↔ fault.isUnreachable = true ∨ fault.stage = .receiving ∨
      fault.isTimeout = true ∨ fault.stage = .decoding := by
    rw [transferSeverity]
    split <;> simp_all [or_assoc]
  rw [htransient, isConnectionFault_eq_false_iff]
  constructor
  · rintro ⟨hcause, hunexplained, hwhole, hstage⟩
    rw [hunexplained.1, hunexplained.2.1] at hcause
    exact ⟨by simpa [hstage] using hcause, hwhole, hunexplained⟩
  · rintro ⟨hstage, hwhole, hunexplained⟩
    exact ⟨.inr (.inr (.inr hstage)), hunexplained, hwhole, by simp [hstage]⟩

end TransportFault

section Exhaustion

variable {σ ρ α : Type} {policy : RetryPolicy} {send : StateM σ (Except RequestFault ρ)} {status : ρ → Nat}
  {process : ρ → Attempt α} {s : σ}

/-- The retries of a request are used up: each attempt that the policy allows may be repeated. -/
def RetryPolicy.Exhausts (policy : RetryPolicy) (send : StateM σ (Except RequestFault ρ)) (status : ρ → Nat)
    (process : ρ → Attempt α) (s : σ) : Prop :=
  ∀ i ≤ policy.limit, ¬ (outcome status process (Action.again send s i).1).IsLast

/-- An attempt may be repeated after a fault that says so, or when the response is processed into an error that
says so. -/
theorem outcome_eq_retryable_iff {exchange : Except RequestFault ρ} {error : ServiceError} :
    outcome status process exchange = .retryable error ↔
      (∃ fault, exchange = .error (.transport fault) ∧ fault.severity = .transient ∧ .transport fault = error) ∨
        ∃ response, exchange = .ok response ∧ HttpResponse.isError (status response) = false ∧
          process response = .retryable error := by
  cases exchange with
  | error cause =>
    cases cause with
    | transport fault =>
      cases hseverity : fault.severity <;>
        simp [outcome, RequestFault.severity, RequestFault.error, Attempt.failed, hseverity]
    | intercepted reason => simp [outcome, RequestFault.severity, Attempt.failed]
  | ok response => cases hstatus : HttpResponse.isError (status response) <;> simp [outcome, hstatus]

/-- When its retries are used up, a request ends with the error of the last attempt. -/
theorem RetryPolicy.Exhausts.exists_error (h : policy.Exhausts send status process s) :
    ∃ error, outcome status process (Action.again send s policy.limit).1 = .retryable error ∧
      (policy.run (attempt send status process) s).1 = ⟨.error error, policy.limit + 1, policy.waits⟩ := by
  have hlast := h policy.limit (Nat.le_refl _)
  have hrun := run_eq (Nat.le_refl policy.limit) (fun i hi => h i (Nat.le_of_lt hi)) (.inl rfl)
  rw [List.take_of_length_le (by simp [waits])] at hrun
  cases houtcome : outcome status process (Action.again send s policy.limit).1 with
  | done value =>
    rw [houtcome] at hlast
    exact absurd trivial hlast
  | fatal error =>
    rw [houtcome] at hlast
    exact absurd trivial hlast
  | retryable error => exact ⟨error, rfl, by rw [hrun, houtcome]; rfl⟩

end Exhaustion

namespace HttpResponse

variable {response : HttpResponse} {error : ServiceError}

/-- A body is asked for again when it broke off. -/
theorem eq_shortened_of_readBody (h : response.readBody = .retryable error) : error = .transport .shortened := by
  cases hcomplete : response.complete with
  | false =>
    rw [readBody_of_broken hcomplete] at h
    exact (Attempt.retryable.inj h).symm
  | true =>
    rw [readBody_of_complete hcomplete] at h
    cases h

/-- A manifest is asked for again when its body broke off. -/
theorem eq_shortened_of_readManifest (h : response.readManifest = .retryable error) :
    error = .transport .shortened := by
  rw [readManifest] at h
  cases hbody : response.readBody with
  | done body =>
    simp only [hbody] at h
    split at h <;> cases h
  | fatal cause => simp [hbody] at h
  | retryable cause =>
    rw [← eq_shortened_of_readBody hbody]
    simp only [hbody, Attempt.retryable.injEq] at h
    exact h.symm

end HttpResponse

/-- An error is reported as the error is that streams have wrapped in it. -/
theorem RetrievalError.isConnectionError_root (error : RetrievalError) :
    error.root.isConnectionError = error.isConnectionError := by
  induction error with
  | stream offset cause ih => exact ih
  | _ => rfl

/-- A fault that is brought in place of an answer has a status by which a manifest is refused. -/
def TransportFault.Refuses (fault : TransportFault) : Prop :=
  ∃ status ∈ [400, 401, 422], fault.stage = .answering status

/-- A fault has the status of the answer that it is. -/
theorem TransportFault.status?_eq_some_iff {fault : TransportFault} {status : Nat} :
    fault.status? = some status ↔ fault.stage = .answering status := by
  rw [status?]
  cases fault.stage <;> simp

namespace Remote

variable {σ α : Type} {network : Network σ} {remote : Remote} {url : Url} {authorization : Option String}
  {process : HttpResponse → Attempt α} {s : σ}

/-- The retries of a request for what is at a URL are used up. -/
def Exhausts (network : Network σ) (remote : Remote) (url : Url) (authorization : Option String)
    (process : HttpResponse → Attempt α) (s : σ) : Prop :=
  remote.policy.Exhausts (remote.send network url authorization) (·.status) process s

/-- A fault is left of a request whose retries are used up, when only broken bodies are asked for again. It is
reported unless it is that the request was called off. -/
theorem Exhausts.exists_fault (h : remote.Exhausts network url authorization process s)
    (hprocess : ∀ response error, process response = .retryable error → error = .transport .shortened) :
    ∃ fault : TransportFault,
      (remote.retried network url authorization process s).1.result = .error (.transport fault) ∧
      (fault.isConnectionFault = false ↔ fault.CalledOff) := by
  obtain ⟨error, houtcome, hrun⟩ := RetryPolicy.Exhausts.exists_error h
  rw [retried, hrun]
  rcases outcome_eq_retryable_iff.mp houtcome with ⟨fault, -, hseverity, rfl⟩ | ⟨response, -, -, hretry⟩
  · refine ⟨fault, rfl, fun hsilent => TransportFault.severity_unreported_iff.mp ⟨hseverity, hsilent⟩, fun hoff => ?_⟩
    exact (TransportFault.severity_unreported_iff.mpr hoff).2
  · obtain rfl := hprocess response error hretry
    refine ⟨.shortened, rfl, fun hsilent => absurd hsilent (by decide), fun hoff => absurd hoff.1 (by decide)⟩

/-- What a remote service replies to a request is the payload, or why there is none. -/
theorem reply_request (now : Nat) (location : String) :
    ((remote.service network).request now location s).1.reply = .ofResult (remote.payload network location s).1 := rfl

/-- A fault that does not refuse a manifest stays what it is. -/
theorem refusal_of_not_refuses {fault : TransportFault} (h : ¬ fault.Refuses) (fileId : String) :
    refusal fileId (.transport fault) = .transport fault := by
  have hother : ∀ status ∈ [400, 401, 422], (ServiceError.transport fault).status? ≠ some status := by
    intro status hmem hstatus
    exact h ⟨status, hmem, TransportFault.status?_eq_some_iff.mp hstatus⟩
  rw [refusal]
  split
  · next hstatus => exact absurd hstatus (hother 400 (by decide))
  · next hstatus => exact absurd hstatus (hother 401 (by decide))
  · next hstatus => exact absurd hstatus (hother 422 (by decide))
  · rfl

/-- The fault that a lookup ends with is reported unless the request was called off, or it refuses the manifest. -/
theorem isConnectionError_ofLookup {fault : TransportFault} (h : fault.isConnectionFault = false ↔ fault.CalledOff)
    (fileId : String) :
    (RetrievalError.ofLookup fileId (refusal fileId (.transport fault))).isConnectionError = false ↔
      fault.CalledOff ∨ fault.Refuses := by
  by_cases hrefuses : fault.Refuses
  · refine iff_of_true ?_ (.inr hrefuses)
    obtain ⟨status, hstatus, hstage⟩ := hrefuses
    rw [refusal, ServiceError.status?, TransportFault.status?, hstage]
    simp only [List.mem_cons, List.not_mem_nil, or_false] at hstatus
    rcases hstatus with rfl | rfl | rfl <;> rfl
  · rw [refusal_of_not_refuses hrefuses, or_iff_left hrefuses]
    exact h

end Remote

/-- What is retried is reported as a failure to reach the server, unless a message was called off or a body is
garbled.

A request may be repeated after a fault that is not reported exactly when the request was called off, and a
transfer exactly when its body is garbled; every other fault after which either may be repeated is reported. A
request whose retries are used up ends with the fault of its last attempt, or with the error for which what
processes the responses would have another one. So a download, or a lookup, that has used up its retries leaves an
error that is reported, in however many streams it is wrapped, unless its last request was called off; of a lookup,
also unless the fault has a status by which a manifest is refused. -/
theorem retried_reported_unless_called_off {σ ρ α : Type} (fault : TransportFault) (policy : RetryPolicy)
    (send : StateM σ (Except RequestFault ρ)) (status : ρ → Nat) (process : ρ → Attempt α) (network : Network σ)
    (remote : Remote) (s : σ) :
    ((fault.severity = .transient ∧ fault.isConnectionFault = false ↔ fault.CalledOff) ∧
      (fault.transferSeverity = .transient ∧ fault.isConnectionFault = false ↔ fault.Garbled)) ∧
    (policy.Exhausts send status process s →
      ∃ error, (policy.run (attempt send status process) s).1 = ⟨.error error, policy.limit + 1, policy.waits⟩ ∧
        ((∃ last : TransportFault, error = .transport last ∧ last.severity = .transient) ∨
          ∃ response, process response = .retryable error)) ∧
    (∀ (file : ResolvedFile) (chunk : Chunk) (url : Url) (now : Nat), Url.parse chunk.location = .ok url →
      remote.Exhausts network url none HttpResponse.readBody s →
      ∃ last : TransportFault,
        FetchTask.outcome file chunk ((remote.service network).request now chunk.location s).1.reply =
          .error (.download (chunk.context file.layout.fileId) (.transport last)) ∧
        ∀ error : RetrievalError, error.root = .download (chunk.context file.layout.fileId) (.transport last) →
          (error.isConnectionError = false ↔ last.CalledOff)) ∧
    ∀ (fileId : String) (credentials : Credentials) (url : Url), fileId ≠ "" →
      remote.manifestUrl fileId = .ok url →
      remote.Exhausts network url (some remote.authorization) HttpResponse.readManifest s →
      ∃ (last : TransportFault) (found : RetrievalError),
        ResolvedFile.ofAnswer fileId credentials ((remote.service network).lookup fileId s).1 = .error found ∧
        found = .ofLookup fileId (Remote.refusal fileId (.transport last)) ∧
        ∀ error : RetrievalError, error.root = found →
          (error.isConnectionError = false ↔ last.CalledOff ∨ last.Refuses) := by
  refine ⟨⟨TransportFault.severity_unreported_iff, TransportFault.transferSeverity_unreported_iff⟩,
    fun hexhausts => ?_, ?_, ?_⟩
  · obtain ⟨error, houtcome, hrun⟩ := hexhausts.exists_error
    refine ⟨error, hrun, ?_⟩
    rcases outcome_eq_retryable_iff.mp houtcome with ⟨last, -, hseverity, rfl⟩ | ⟨response, -, -, hretry⟩
    · exact .inl ⟨last, rfl, hseverity⟩
    · exact .inr ⟨response, hretry⟩
  · intro file chunk url now hurl hexhausts
    obtain ⟨last, hresult, hreported⟩ :=
      hexhausts.exists_fault fun response error => HttpResponse.eq_shortened_of_readBody
    have hreply : ((remote.service network).request now chunk.location s).1.reply = .refused (.transport last) := by
      rw [Remote.reply_request, Remote.payload_of_url hurl, hresult]
      rfl
    refine ⟨last, by rw [hreply]; rfl, fun error herror => ?_⟩
    rw [← error.isConnectionError_root, herror]
    exact hreported
  · intro fileId credentials url hsome hurl hexhausts
    obtain ⟨last, hresult, hreported⟩ :=
      hexhausts.exists_fault fun response error => HttpResponse.eq_shortened_of_readManifest
    have hanswer : ((remote.service network).lookup fileId s).1 =
        .error (Remote.refusal fileId (.transport last)) := by
      show (remote.manifest network fileId s).1 = _
      rw [Remote.manifest_of_url hsome hurl, hresult]
      rfl
    refine ⟨last, _, by rw [hanswer]; rfl, rfl, fun error herror => ?_⟩
    rw [← error.isConnectionError_root, herror]
    exact Remote.isConnectionError_ofLookup hreported fileId

/-- A network on which every request ends with a fault. -/
def Network.failing (fault : TransportFault) : Network Unit := fun _ => return .error fault

/-- On such a network a request ends with the fault however often it is made. -/
theorem Network.again_failing {fault : TransportFault} {url : Url} (hhttp : url.isHttp = true) {remote : Remote}
    {authorization : Option String} (i : Nat) :
    (Action.again (remote.send (failing fault) url authorization) () i).1 = .error (.transport fault) := by
  induction i with
  | zero =>
    rw [Action.again, Remote.send_of_isHttp hhttp]
    rfl
  | succ i ih => exact ih

/-- A fault after which requests are repeated uses up their retries, however many there are. -/
theorem Network.exhausts_failing {α : Type} {fault : TransportFault} (hseverity : fault.severity = .transient)
    {url : Url} (hhttp : url.isHttp = true) (remote : Remote) (authorization : Option String)
    (process : HttpResponse → Attempt α) : remote.Exhausts (failing fault) url authorization process () := by
  intro i _
  rw [again_failing hhttp, outcome_eq_retryable_iff.mpr (.inl ⟨fault, rfl, hseverity, rfl⟩)]
  exact id

/-- What is left of a request on such a network is the fault. -/
theorem Network.retried_failing {α : Type} {fault : TransportFault} (hseverity : fault.severity = .transient)
    {url : Url} (hhttp : url.isHttp = true) (remote : Remote) (authorization : Option String)
    (process : HttpResponse → Attempt α) :
    (remote.retried (failing fault) url authorization process ()).1 =
      ⟨.error (.transport fault), remote.policy.limit + 1, remote.policy.waits⟩ := by
  obtain ⟨error, houtcome, hrun⟩ :=
    RetryPolicy.Exhausts.exists_error (exhausts_failing hseverity hhttp remote authorization process)
  rw [again_failing hhttp, outcome_eq_retryable_iff.mpr (.inl ⟨fault, rfl, hseverity, rfl⟩)] at houtcome
  rw [Remote.retried, hrun, Attempt.retryable.inj houtcome]

/-- A request that was called off. -/
def TransportFault.calledOffSample : TransportFault := ⟨.requesting, [.unknown, .message .canceled]⟩

/-- A body that cannot be decoded. -/
def TransportFault.garbledSample : TransportFault := ⟨.decoding, [.unknown, .message .malformed]⟩

/-- A chunk of one byte. -/
def Chunk.remoteSample : Chunk := ⟨1, 0, 1, "http://h/f"⟩

/-- A resolved file of that chunk. -/
def ResolvedFile.remoteSample : ResolvedFile := ⟨⟨"f", none, .none, [.remoteSample], 1⟩, none⟩

/-- The download of that chunk on a network on which every request ends with a fault. -/
def TransportFault.downloadSample (fault : TransportFault) : Except RetrievalError Block :=
  FetchTask.outcome .remoteSample .remoteSample
    ((Remote.patientSample.service (.failing fault)).request 0 Chunk.remoteSample.location ()).1.reply

/-- A download from an unreachable server and a download that is called off use up their retries. Only the error of
the former is reported. -/
theorem retried_reported_unless_called_off_sample :
    (∃ fault : TransportFault, TransportFault.refused.downloadSample =
        .error (.download ⟨"f", 1, 0, 1⟩ (.transport fault)) ∧ ¬ fault.CalledOff ∧
      (RetrievalError.stream 0 (.download ⟨"f", 1, 0, 1⟩ (.transport fault))).isConnectionError = true) ∧
    ∃ fault : TransportFault, TransportFault.calledOffSample.downloadSample =
        .error (.download ⟨"f", 1, 0, 1⟩ (.transport fault)) ∧ fault.CalledOff ∧
      (RetrievalError.stream 0 (.download ⟨"f", 1, 0, 1⟩ (.transport fault))).isConnectionError = false := by
  have hurl : Url.parse Chunk.remoteSample.location = .ok .segmentSample := by decide +kernel
  have hremote := fun fault : TransportFault => (retried_reported_unless_called_off fault Remote.patientSample.policy
    (Remote.patientSample.send (.failing fault) .segmentSample none) (·.status) HttpResponse.readBody (.failing fault)
    .patientSample ()).2.2.1
  have hleft : ∀ fault : TransportFault, fault.severity = .transient →
      fault.downloadSample = .error (.download ⟨"f", 1, 0, 1⟩ (.transport fault)) := by
    intro fault hseverity
    have hpayload : (Remote.patientSample.payload (.failing fault) Chunk.remoteSample.location ()).1 =
        .error (.transport fault) := by
      rw [Remote.payload_of_url hurl, Network.retried_failing hseverity rfl]
    rw [TransportFault.downloadSample, Remote.reply_request, hpayload]
    rfl
  obtain ⟨refused, hrefused, hreported⟩ := hremote .refused .remoteSample .remoteSample .segmentSample 0 hurl
    (Network.exhausts_failing rfl rfl _ _ _)
  obtain ⟨off, hoff, hunreported⟩ := hremote .calledOffSample .remoteSample .remoteSample .segmentSample
    0 hurl (Network.exhausts_failing rfl rfl _ _ _)
  have hrefusedLeft := hleft .refused rfl
  have hoffLeft := hleft .calledOffSample rfl
  rw [TransportFault.downloadSample, hrefused] at hrefusedLeft
  rw [TransportFault.downloadSample, hoff] at hoffLeft
  obtain rfl : refused = .refused := by cases hrefusedLeft; rfl
  obtain rfl : off = .calledOffSample := by cases hoffLeft; rfl
  have hcalled : TransportFault.calledOffSample.CalledOff :=
    ⟨rfl, ⟨[], rfl⟩, by decide, by decide, by decide⟩
  have hunreachable : ¬ TransportFault.refused.CalledOff := fun h => absurd h.2.2.2.1 (by decide)
  refine ⟨⟨_, hrefused, hunreachable, ?_⟩, ⟨_, hoff, hcalled, (hunreported _ rfl).mpr hcalled⟩⟩
  rw [← Bool.not_eq_false, hreported _ rfl]
  exact hunreachable

/-- Retries that are used up without a report: of requests that are called off, of bodies that are garbled, of a
download that is called off three times, and of responses with which what processes them is not content. -/
theorem retried_unreported_sample :
    (TransportFault.calledOffSample.severity = .transient ∧
      TransportFault.calledOffSample.isConnectionFault = false) ∧
    (TransportFault.garbledSample.transferSeverity = .transient ∧
      TransportFault.garbledSample.isConnectionFault = false) ∧
    (Remote.patientSample.retried (.failing .calledOffSample) .segmentSample none HttpResponse.readBody ()).1 =
      ⟨.error (.transport .calledOffSample), 3, Remote.patientSample.policy.waits⟩ ∧
    (RetrievalError.download ⟨"f", 1, 0, 1⟩ (.transport .calledOffSample)).isConnectionError = false ∧
    (Script.run [.ok ⟨{}, .retryable⟩, .ok ⟨{}, .retryable⟩] ⟨1, ⟨0⟩⟩ Script.judge).1 =
      ⟨.error (.other "processed 200"), 2, RetryPolicy.waits ⟨1, ⟨0⟩⟩⟩ ∧
    (RetrievalError.service (.other "processed 200")).isConnectionError = false := by
  refine ⟨by decide, by decide, Network.retried_failing rfl rfl _ _ _, rfl, ?_, rfl⟩
  have hexhausts : RetryPolicy.Exhausts ⟨1, ⟨0⟩⟩ Script.send (·.response.status) Script.judge
      [.ok ⟨{}, .retryable⟩, .ok ⟨{}, .retryable⟩] := by
    intro i hi
    rcases Nat.le_one_iff_eq_zero_or_eq_one.mp hi with rfl | rfl <;> exact id
  obtain ⟨error, houtcome, hrun⟩ := hexhausts.exists_error
  rw [Script.run, hrun, ← Attempt.retryable.inj houtcome]
  rfl

end Reassembly
