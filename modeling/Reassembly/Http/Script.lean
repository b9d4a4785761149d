import Reassembly.Http.Retry

/-!
# Scripted exchanges

A script decides in advance what comes of each request: the nth request gets the nth entry. It
stands for a network in rehearsals, either as a list of outcomes or as a server that answers
its connections one by one.
-/

namespace Reassembly

/-- What a processing step is told to do with a response. -/
inductive Verdict
  | accept
  | retryable
  | fatal
  deriving Repr, DecidableEq

/-- A response together with the verdict on it. -/
structure ScriptedResponse where
  response : HttpResponse
  verdict : Verdict := .accept
  deriving Repr, DecidableEq

/-- The outcomes of requests, in order. -/
abbrev Script := List (Except RequestFault ScriptedResponse)

namespace Script

/-- Take the next entry of a script; beyond its end every request is refused. -/
def send : StateM Script (Except RequestFault ScriptedResponse)
  | [] => (.error (.intercepted "script exhausted"), [])
  | entry :: rest => (entry, rest)

/-- Do with a response as its verdict says. -/
def judge (scripted : ScriptedResponse) : Attempt String :=
  let text := s!"processed {scripted.response.status}"
  match scripted.verdict with
  | .accept => .done text
  | .retryable => .retryable (.other text)
  | .fatal => .fatal (.other text)

/-- Send requests by a script as often as a policy allows. -/
def run {α : Type} (script : Script) (policy : RetryPolicy) (process : ScriptedResponse → Attempt α) :
    Retried α × Script :=
  policy.run (RetryPolicy.attempt send (·.response.status) process) script

end Script

/-- What a scripted server does with one connection: it closes it, or answers. -/
inductive ServerAct
  | drop
  | answer (status : Nat) (body : Bytes) (declared : Option Nat)
  deriving Repr, DecidableEq

namespace ServerAct

/-- A response of this status has no body. -/
def isBodiless (status : Nat) : Bool := status = 204 || status = 304

/-- What a connection brings. -/
def exchange : ServerAct → Except TransportFault HttpResponse
  | drop => .error .dropped
  | answer status body declared =>
    if isBodiless status then .ok { status }
    else
      let declared := declared.getD body.length
      .ok { status, body := body.take declared, complete := declared ≤ body.length }

end ServerAct

/-- A server that plays a script, and the requests that it has seen, last first. -/
structure ScriptedServer where
  acts : List ServerAct
  seen : List HttpRequest := []
  deriving Repr, DecidableEq

/-- The network of a scripted server. It closes every connection once its script has ended. -/
def ScriptedServer.network : Network ScriptedServer := fun request server =>
  let seen := request :: server.seen
  match server.acts with
  | [] => (.error .dropped, { acts := [], seen })
  | act :: acts => (act.exchange, { acts, seen })

end Reassembly
