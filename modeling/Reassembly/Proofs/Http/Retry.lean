import Mathlib.Data.Nat.Find
import Reassembly.Proofs.Http.Exchange

/-!
# How often a request is made

Attempts are made until one is not to be repeated or the retries are used up, whichever comes first. The last
attempt made decides the result, and the waits are those that the policy allows, as many as there were retries.
What a request brings when it is made again may depend in any way on the requests before it.
-/

namespace Reassembly

variable {σ ρ α : Type}

/-- What an action brings when it is done again and again, counted from zero, with the state that it leaves. -/
def Action.again (act : StateM σ α) (s : σ) : Nat → α × σ
  | 0 => act s
  | n + 1 => again act (act s).2 n

namespace RetryPolicy

/-- What comes of a request: its fault, the error that the status of its response tells of, or what the response is
processed into. -/
def outcome (status : ρ → Nat) (process : ρ → Attempt α) : Except RequestFault ρ → Attempt α
  | .error fault => .failed fault.error fault.severity
  | .ok response =>
    if HttpResponse.isError (status response) then .fatal (.transport (.ofStatus (status response)))
    else process response

variable {send : StateM σ (Except RequestFault ρ)} {status : ρ → Nat} {process : ρ → Attempt α}

/-- An attempt makes one request, and comes to what comes of it. -/
theorem attempt_run (s : σ) : attempt send status process s = (outcome status process (send s).1, (send s).2) := by
  rw [attempt, Action.bind_run]
  cases (send s).1 with
  | error fault => rfl
  | ok response =>
    rw [outcome]
    dsimp only
    split <;> rfl

/-- Attempts that are made again and again make their requests again and again. -/
theorem again_attempt (s : σ) (n : Nat) : Action.again (attempt send status process) s n =
    (outcome status process (Action.again send s n).1, (Action.again send s n).2) := by
  induction n generalizing s with
  | zero => exact attempt_run s
  | succ n ih =>
    rw [Action.again, attempt_run, ih]
    rfl

/-- Attempts end with the first that is not to be repeated, or with the last that is left. -/
theorem attemptFrom_eq {act : StateM σ (Attempt α)} (base : Duration) {left n : Nat} (hn : n ≤ left) {s : σ}
    (hbefore : ∀ i < n, ¬ (Action.again act s i).1.IsLast) (hend : n = left ∨ (Action.again act s n).1.IsLast)
    (retry : Nat) :
    attemptFrom act base left retry s = (⟨(Action.again act s n).1.result, n + 1,
      (List.range' retry n).map (wait base)⟩, (Action.again act s n).2) := by
  induction n generalizing left s retry with
  | zero =>
    rw [attemptFrom, Action.bind_run, Action.again]
    rw [Action.again] at hend
    cases hfirst : (act s).1 with
    | done value => rfl
    | fatal error => rfl
    | retryable error =>
      rw [hfirst] at hend
      rcases hend with rfl | hlast
      · rfl
      · exact hlast.elim
  | succ n ih =>
    obtain ⟨left, rfl⟩ : ∃ fewer, left = fewer + 1 := ⟨left - 1, by omega⟩
    have hretry : ¬ (act s).1.IsLast := hbefore 0 (Nat.succ_pos n)
    have hrest := ih (Nat.le_of_succ_le_succ hn) (s := (act s).2) (fun i hi => hbefore (i + 1) (Nat.succ_lt_succ hi))
      (hend.imp_left Nat.succ.inj) (retry + 1)
    rw [attemptFrom, Action.bind_run]
    cases hfirst : (act s).1 with
    | done value =>
      rw [hfirst] at hretry
      exact absurd trivial hretry
    | fatal error =>
      rw [hfirst] at hretry
      exact absurd trivial hretry
    | retryable error =>
      dsimp only
      rw [Action.bind_run, hrest]
      rfl

/-- The first waits of a policy. -/
theorem take_waits (policy : RetryPolicy) {n : Nat} (hn : n ≤ policy.limit) :
    policy.waits.take n = (List.range' 0 n).map (wait policy.delay) := by
  rw [waits, ← List.map_take, List.take_range, Nat.min_eq_left hn, List.range_eq_range']

/-- A request ends with the first attempt that is not to be repeated, or with the last that the policy allows. -/
theorem run_eq {policy : RetryPolicy} {n : Nat} (hn : n ≤ policy.limit) {s : σ}
    (hbefore : ∀ i < n, ¬ (outcome status process (Action.again send s i).1).IsLast)
    (hend : n = policy.limit ∨ (outcome status process (Action.again send s n).1).IsLast) :
    policy.run (attempt send status process) s =
      (⟨(outcome status process (Action.again send s n).1).result, n + 1, policy.waits.take n⟩,
        (Action.again send s n).2) := by
  rw [run, attemptFrom_eq policy.delay hn _ _ 0, take_waits policy hn, again_attempt]
  · simpa only [again_attempt] using hbefore
  · simpa only [again_attempt] using hend

/-- There is an attempt that a request ends with. -/
theorem exists_last (policy : RetryPolicy) (last : Nat → Prop) :
    ∃ n ≤ policy.limit, (∀ i < n, ¬ last i) ∧ (n = policy.limit ∨ last n) := by
  classical
  have hends : ∃ n, n = policy.limit ∨ last n := ⟨policy.limit, .inl rfl⟩
  refine ⟨Nat.find hends, Nat.find_min' hends (.inl rfl), fun i hi hlast => ?_, Nat.find_spec hends⟩
  exact Nat.find_min hends hi (.inr hlast)

end RetryPolicy

/-- A network that plays a script of exchanges before it is used as it is. -/
def Network.behind (network : Network σ) : Network (List (Except TransportFault HttpResponse) × σ) :=
  fun request (script, s) =>
    match script with
    | [] => ((network request s).1, ([], (network request s).2))
    | exchange :: rest => (exchange, (rest, s))

namespace Remote

variable {network : Network σ} {remote : Remote} {url : Url} {authorization : Option String}

/-- A request that cannot be sent does not use the network. -/
theorem send_of_not_isHttp (hhttp : url.isHttp = false) (s : σ) :
    remote.send network url authorization s = (.error (.transport .unbuildable), s) := by
  rw [send, if_neg (by simp [hhttp])]
  rfl

/-- A request that is sent brings what the network brings. -/
theorem send_of_isHttp (hhttp : url.isHttp = true) (s : σ) :
    remote.send network url authorization s =
      ((network (.ofUrl url authorization remote.agent) s).1.mapError .transport,
        (network (.ofUrl url authorization remote.agent) s).2) := by
  rw [send, if_pos hhttp]
  rfl

/-- The first exchange of a script comes of the first request. -/
theorem send_behind_cons (hhttp : url.isHttp = true) (exchange : Except TransportFault HttpResponse)
    (rest : List (Except TransportFault HttpResponse)) (s : σ) :
    remote.send network.behind url authorization (exchange :: rest, s) =
      (exchange.mapError .transport, (rest, s)) := send_of_isHttp hhttp _

/-- Behind a script come the requests that are made of the network. -/
theorem again_behind_append (hhttp : url.isHttp = true) (script rest : List (Except TransportFault HttpResponse))
    (s : σ) (n : Nat) :
    Action.again (remote.send network.behind url authorization) (script ++ rest, s) (script.length + n) =
      Action.again (remote.send network.behind url authorization) (rest, s) n := by
  induction script with
  | nil => rw [List.length_nil, Nat.zero_add, List.nil_append]
  | cons exchange script ih =>
    rw [List.length_cons, Nat.add_right_comm, Action.again, List.cons_append, send_behind_cons hhttp, ih]

/-- When the script has ended, requests bring what they bring without it. -/
theorem again_behind_nil (hhttp : url.isHttp = true) (s : σ) (n : Nat) :
    Action.again (remote.send network.behind url authorization) ([], s) n =
      ((Action.again (remote.send network url authorization) s n).1,
        ([], (Action.again (remote.send network url authorization) s n).2)) := by
  induction n generalizing s with
  | zero =>
    rw [Action.again, Action.again, send_of_isHttp hhttp, send_of_isHttp hhttp]
    rfl
  | succ n ih =>
    have hfirst : (remote.send network.behind url authorization ([], s)).2 =
        ([], (remote.send network url authorization s).2) := by
      rw [send_of_isHttp hhttp, send_of_isHttp hhttp]
      rfl
    rw [Action.again, hfirst, ih, Action.again]

/-- While a script lasts, requests bring its exchanges. -/
theorem exists_exchange (hhttp : url.isHttp = true) {script : List (Except TransportFault HttpResponse)} {i : Nat}
    (hi : i < script.length) (rest : List (Except TransportFault HttpResponse)) (s : σ) :
    ∃ exchange ∈ script, (Action.again (remote.send network.behind url authorization) (script ++ rest, s) i).1 =
      exchange.mapError .transport := by
  induction script generalizing i with
  | nil => exact absurd hi (Nat.not_lt_zero i)
  | cons exchange script ih =>
    cases i with
    | zero =>
      rw [Action.again, List.cons_append, send_behind_cons hhttp]
      exact ⟨exchange, List.mem_cons_self, rfl⟩
    | succ i =>
      obtain ⟨other, hother, heq⟩ := ih (Nat.lt_of_succ_lt_succ hi)
      rw [Action.again, List.cons_append, send_behind_cons hhttp, heq]
      exact ⟨other, List.mem_cons_of_mem _ hother, rfl⟩

end Remote

end Reassembly
