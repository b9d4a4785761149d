import Reassembly.Http.Remote
import Reassembly.Proofs.Action

/-!
# Requests that are answered

A request that is answered in full is made once, whatever the policy of retries allows: what comes of it is what
the response is processed into, or the error that its status tells of.
-/

namespace Reassembly

variable {σ α : Type}

/-- What comes of an attempt that is not repeated. -/
def Attempt.result : Attempt α → Except ServiceError α
  | .done value => .ok value
  | .fatal error => .error error
  | .retryable error => .error error

/-- An attempt that is not repeated comes to a value when it has brought one. -/
theorem Attempt.result_eq_ok {attempt : Attempt α} {a : α} (h : attempt.result = .ok a) : attempt = .done a := by
  cases attempt with
  | done value => exact congrArg _ (Except.ok.inj h)
  | fatal error => exact absurd h (by simp [result])
  | retryable error => exact absurd h (by simp [result])

/-- An attempt is not repeated. -/
def Attempt.IsLast : Attempt α → Prop
  | .retryable _ => False
  | _ => True

/-- An attempt that is not repeated is the only one. -/
theorem RetryPolicy.run_of_isLast {policy : RetryPolicy} {attempt : StateM σ (Attempt α)} {s s' : σ}
    {outcome : Attempt α} (h : attempt s = (outcome, s')) (hlast : outcome.IsLast) :
    policy.run attempt s = (⟨outcome.result, 1, []⟩, s') := by
  obtain ⟨limit, delay⟩ := policy
  have hrun : RetryPolicy.run ⟨limit, delay⟩ attempt s = attemptFrom attempt delay limit 0 s := rfl
  rw [hrun, attemptFrom, Action.bind_run, h]
  cases outcome with
  | done value => rfl
  | fatal error => rfl
  | retryable error => exact hlast.elim

/-- What comes of a response: the error that its status tells of, or what it is processed into. -/
def HttpResponse.outcome (response : HttpResponse) (process : HttpResponse → Attempt α) : Attempt α :=
  if isError response.status then .fatal (.transport (.ofStatus response.status)) else process response

/-- A response that comes to a value does not tell of an error, and is processed into that value. -/
theorem HttpResponse.outcome_eq_done {response : HttpResponse} {process : HttpResponse → Attempt α} {a : α}
    (h : response.outcome process = .done a) : isError response.status = false ∧ process response = .done a := by
  rw [outcome] at h
  split at h
  · simp at h
  · next hstatus => exact ⟨Bool.eq_false_iff.mpr hstatus, h⟩

/-- A body that arrives whole is read. -/
theorem HttpResponse.readBody_of_complete {response : HttpResponse} (h : response.complete = true) :
    response.readBody = .done response.body := if_pos h

/-- A body that breaks off may be asked for again. -/
theorem HttpResponse.readBody_of_broken {response : HttpResponse} (h : response.complete = false) :
    response.readBody = .retryable (.transport .shortened) := by
  rw [readBody, h]
  rfl

/-- What is read of a body is the body of a response that arrives whole. -/
theorem HttpResponse.readBody_eq_done_iff {response : HttpResponse} {bytes : Bytes} :
    response.readBody = .done bytes ↔ response.complete = true ∧ response.body = bytes := by
  cases hcomplete : response.complete with
  | false => simp [readBody_of_broken hcomplete]
  | true => simp [readBody_of_complete hcomplete]

/-- A manifest is read from a body that arrives whole. -/
theorem HttpResponse.readManifest_body {response : HttpResponse} (h : response.complete = true) :
    response.readManifest =
      match Manifest.parse response.body with
      | .ok manifest => .done manifest
      | .error fault => .fatal (.invalidResponse s!"json body could not be parsed: {fault.message}") := by
  cases hparse : Manifest.parse response.body <;> simp only [readManifest, readBody_of_complete h, hparse]

/-- What is read of a manifest is what is written by the body of a response that arrives whole. -/
theorem HttpResponse.readManifest_eq_done_iff {response : HttpResponse} {manifest : Manifest} :
    response.readManifest = .done manifest ↔
      response.complete = true ∧ Manifest.parse response.body = .ok manifest := by
  cases hcomplete : response.complete with
  | false => simp [readManifest, readBody_of_broken hcomplete]
  | true =>
    rw [readManifest_body hcomplete]
    cases Manifest.parse response.body <;> simp

/-- A body that arrives whole is not asked for again. -/
theorem HttpResponse.isLast_readBody {response : HttpResponse} (h : response.complete = true) :
    (response.outcome readBody).IsLast := by
  rw [outcome, readBody_of_complete h]
  split <;> trivial

/-- A manifest whose text arrives whole is not asked for again. -/
theorem HttpResponse.isLast_readManifest {response : HttpResponse} (h : response.complete = true) :
    (response.outcome readManifest).IsLast := by
  rw [outcome, readManifest_body h]
  split
  · trivial
  · split <;> trivial

/-- A request that is answered comes to what comes of the response. -/
theorem Remote.exchange_of_response {network : Network σ} {remote : Remote} {url : Url} {authorization : Option String}
    {process : HttpResponse → Attempt α} {s s' : σ} {response : HttpResponse} (hhttp : url.isHttp = true)
    (hnetwork : network (.ofUrl url authorization remote.agent) s = (.ok response, s'))
    (hlast : (response.outcome process).IsLast) :
    remote.exchange network url authorization process s = ((response.outcome process).result, s') := by
  have hsend : remote.send network url authorization s = (.ok response, s') := by
    rw [send, if_pos hhttp, Action.bind_run, hnetwork]
    rfl
  have hattempt : RetryPolicy.attempt (remote.send network url authorization) (·.status) process s =
      (response.outcome process, s') := by
    rw [RetryPolicy.attempt, Action.bind_run, hsend, HttpResponse.outcome]
    dsimp only
    split <;> rfl
  rw [exchange, Action.bind_run, RetryPolicy.run_of_isLast hattempt hlast]
  rfl

end Reassembly
