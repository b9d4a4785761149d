import Reassembly.Duration
import Reassembly.Http.Exchange

/-!
# Retries

A request that fails in passing is repeated, with a longer wait before each retry, until it succeeds,
fails for good, or has been retried as often as it may. The first wait is a base delay and each
further one is twice as long; doubling ends when the factor or the wait can grow no more.
-/

namespace Reassembly

/-- How often a request may be retried, and the wait before the first retry. -/
structure RetryPolicy where
  limit : Nat
  delay : Duration
  deriving Repr, DecidableEq

/-- What came of a request: its result, the attempts made, and the waits between them. -/
structure Retried (α : Type) where
  result : Except ServiceError α
  attempts : Nat
  waits : List Duration

namespace RetryPolicy

/-- Retries are counted in 32 bits where the factor of a wait is computed. -/
def counterBound : Nat := 0x100000000

/-- The greatest factor of a wait. -/
def maxFactor : Nat := 0xffffffff

/-- The factor of the wait before a retry, counted from zero. -/
def factor (retry : Nat) : Nat :=
  let counted := retry % counterBound
  if counted < 32 then Nat.pow 2 counted else maxFactor

/-- The wait before a retry, counted from zero. -/
def wait (base : Duration) (retry : Nat) : Duration := base.scale (factor retry)

/-- The waits before the retries that a policy allows. -/
def waits (policy : RetryPolicy) : List Duration :=
  (List.range policy.limit).map (wait policy.delay)

variable {σ α ρ : Type}

/-- Attempt until an attempt is not to be repeated, or `left` retries have been made. -/
def attemptFrom (attempt : StateM σ (Attempt α)) (base : Duration) :
    (left retry : Nat) → StateM σ (Retried α)
  | left, retry => do
    match ← attempt with
    | .done value => return ⟨.ok value, 1, []⟩
    | .fatal error => return ⟨.error error, 1, []⟩
    | .retryable error =>
      match left with
      | 0 => return ⟨.error error, 1, []⟩
      | left + 1 =>
        let rest ← attemptFrom attempt base left (retry + 1)
        return ⟨rest.result, rest.attempts + 1, wait base retry :: rest.waits⟩

/-- Attempt as often as a policy allows. -/
def run (policy : RetryPolicy) (attempt : StateM σ (Attempt α)) : StateM σ (Retried α) :=
  attemptFrom attempt policy.delay policy.limit 0

/-- One attempt: send a request and process the response, unless its status tells of an error. -/
def attempt (send : StateM σ (Except RequestFault ρ)) (status : ρ → Nat) (process : ρ → Attempt α) :
    StateM σ (Attempt α) := do
  match ← send with
  | .error fault => return .failed fault.error fault.severity
  | .ok response =>
    if HttpResponse.isError (status response) then
      return .fatal (.transport (.ofStatus (status response)))
    else return process response

end RetryPolicy

end Reassembly
