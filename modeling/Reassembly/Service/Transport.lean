/-!
# Transport faults

An exchange with a server fails at some stage, for a chain of causes, each underlying the one
before it. Three questions are asked of such a fault, and they are not the same question: whether a
request that failed with it may be repeated, whether a transfer that it interrupted may be repeated,
and whether it is reported as a failure to reach the server.
-/

namespace Reassembly

/-- The stage at which an exchange failed. -/
inductive Stage
  | building
  | requesting
  | redirecting
  | answering (status : Nat)
  | receiving
  | decoding
  | upgrading
  deriving Repr, DecidableEq

/-- What was wrong with a message of the protocol. -/
inductive MessageFault
  | incomplete
  | canceled
  | timedOut
  | malformed
  deriving Repr, DecidableEq

/-- One cause in the chain that underlies a fault. -/
inductive Cause
  | timedOut
  | unreachable
  | message (fault : MessageFault)
  | system (expired : Bool)
  | unknown
  deriving Repr, DecidableEq

/-- A failed exchange: its stage, and its causes from the outermost in. -/
structure TransportFault where
  stage : Stage
  causes : List Cause := []
  deriving Repr, DecidableEq

namespace Cause

/-- The cause is a deadline that passed, in whichever layer. -/
def isTimeout : Cause → Bool
  | timedOut => true
  | message .timedOut => true
  | system expired => expired
  | _ => false

/-- The cause was reported by the operating system. -/
def isSystem : Cause → Bool
  | system _ => true
  | _ => false

end Cause

/-- Whether a failure may be mended by trying again. -/
inductive Severity
  | transient
  | fatal
  deriving Repr, DecidableEq

namespace TransportFault

/-- A deadline passed. -/
def isTimeout (fault : TransportFault) : Bool := fault.causes.any Cause.isTimeout

/-- No connection could be made. -/
def isUnreachable (fault : TransportFault) : Bool := fault.causes.contains .unreachable

/-- The status of the answer that was the failure. -/
def status? (fault : TransportFault) : Option Nat :=
  match fault.stage with
  | .answering status => some status
  | _ => none

/-- The first message fault of a chain, and the causes below it. -/
def firstMessage? : List Cause → Option (MessageFault × List Cause)
  | [] => none
  | .message fault :: below => some (fault, below)
  | _ :: below => firstMessage? below

/-- A message that was cut short or called off underlies the fault, or a system fault below any
other message fault; without a message fault, any system fault does. -/
def isInterrupted (fault : TransportFault) : Bool :=
  match firstMessage? fault.causes with
  | some (.incomplete, _) => true
  | some (.canceled, _) => true
  | some (_, below) => below.any Cause.isSystem
  | none => fault.causes.any Cause.isSystem

/-- Whether a request that failed may be repeated. -/
def severity (fault : TransportFault) : Severity :=
  if fault.isTimeout || fault.isUnreachable then .transient
  else
    match fault.stage with
    | .requesting => if fault.isInterrupted then .transient else .fatal
    | _ => .fatal

/-- Whether a request may be repeated when its answer failed while being read. -/
def transferSeverity (fault : TransportFault) : Severity :=
  if fault.isUnreachable || fault.stage = .receiving || fault.isTimeout || fault.stage = .decoding then
    .transient
  else .fatal

/-- The first message fault of a chain is a message that was cut short. -/
def isCutShort (fault : TransportFault) : Bool :=
  match firstMessage? fault.causes with
  | some (.incomplete, _) => true
  | _ => false

/-- The fault is reported as a failure to reach the server or to hear back from it. -/
def isConnectionFault (fault : TransportFault) : Bool :=
  fault.isUnreachable || fault.isTimeout || fault.stage = .receiving || fault.isCutShort ||
    fault.causes.any Cause.isSystem

/-- The wording of a fault, by its stage. -/
def message (fault : TransportFault) : String :=
  match fault.stage with
  | .building => "request cannot be built"
  | .requesting => "request was not answered"
  | .redirecting => "redirection was not followed"
  | .answering status => s!"server answered with status {status}"
  | .receiving => "body was not received"
  | .decoding => "body cannot be decoded"
  | .upgrading => "connection was not upgraded"

/-- A connection that was refused. -/
def refused : TransportFault := ⟨.requesting, [.unreachable, .system false]⟩

/-- A connection that the server closed before it answered. -/
def dropped : TransportFault := ⟨.requesting, [.unknown, .message .incomplete]⟩

/-- A server that did not answer in time. -/
def expired : TransportFault := ⟨.requesting, [.timedOut]⟩

/-- An answer whose body ended before its declared length. -/
def shortened : TransportFault := ⟨.decoding, [.unknown, .message .incomplete, .system false]⟩

/-- A request that cannot be built from what it was given. -/
def unbuildable : TransportFault := ⟨.building, [.unknown]⟩

/-- An answer whose status is not a success. -/
def ofStatus (status : Nat) : TransportFault := ⟨.answering status, []⟩

end TransportFault

end Reassembly
