import Reassembly.Session.Basic

/-!
# The clock of a session

Everything that can happen at an instant happens before anyone looks. Waiting moves the clock from
arrival to arrival until what is waited for is there. Each arrival finishes a download, so the
unfinished downloads bound the number of moves.
-/

namespace Reassembly.Session

/-- Take in the download that the caller waits for, if it arrives now. -/
def deliverErrand : SessionM Unit := do
  let session ← get
  match session.errand with
  | .download download =>
    if download.due ≤ session.now then
      modify fun session =>
        { session with
          backend.inner := session.backend.inner.arrived download
          errand := .arrived download.reply }
    else return
  | _ => return

/-- Let everything happen that can happen now. -/
def settle : SessionM Unit := do
  let now := (← get).now
  changeFetches fun service fetch => fetch.deliverAll service now
  deliverErrand
  changeFetches fun service fetch => fetch.requestAll service now

/-- Move the clock to the next arrival, and let everything happen then. -/
def advance : SessionM Unit := do
  match (← get).nextDue? with
  | some due => do
    modify fun session => { session with now := max session.now due }
    settle
  | none => return

/-- Attempt and move the clock by turns, until an attempt is no longer pending. -/
def awaitFrom {α : Type} (attempt : SessionM (Poll α)) : (fuel : Nat) → SessionM (Poll α)
  | 0 => return .pending
  | fuel + 1 => do
    match ← attempt with
    | .pending => do
      advance
      awaitFrom attempt fuel
    | poll => return poll

/-- Wait until an attempt is no longer pending. -/
def await {α : Type} (attempt : SessionM (Poll α)) : SessionM (Poll α) := do
  match ← attempt with
  | .pending => do
    settle
    awaitFrom attempt ((← get).unfinished + 1)
  | poll => return poll

/-- Move the clock from arrival to arrival as far as a given instant. -/
def passUntil (instant : Nat) : (fuel : Nat) → SessionM Unit
  | 0 => return
  | fuel + 1 => do
    match (← get).nextDue? with
    | some due =>
      if due ≤ instant then do
        advance
        passUntil instant fuel
      else return
    | none => return

/-- Let time pass. -/
def sleep (milliseconds : Nat) : SessionM Unit := do
  let session ← get
  let instant := session.now + milliseconds
  passUntil instant session.unfinished
  modify ({ · with now := instant })
  settle

/-- Poll a fetch of the session, kept where `find` finds it. -/
def pollFetch (find : Session → Option Fetch) (keep : Fetch → Session → Session) :
    SessionM (Poll Block) := do
  match find (← get) with
  | some fetch => do
    let (poll, fetch) := fetch.next
    modify (keep fetch)
    return poll
  | none => return .ended

/-- Poll a stream of the session, kept where `find` finds it. -/
def pollStream (find : Session → Option FragmentStream) (keep : FragmentStream → Session → Session) :
    SessionM (Poll Block) := do
  match find (← get) with
  | some stream => do
    let (poll, stream) ← withService stream.pollWith
    modify (keep stream)
    return poll
  | none => return .ended

/-- Wait for items until there are no more. -/
def collectFrom {α : Type} (attempt : SessionM (Poll α)) :
    (fuel : Nat) → SessionM (List (Except RetrievalError α))
  | 0 => return []
  | fuel + 1 => do
    match ← await attempt with
    | .item result => return result :: (← collectFrom attempt fuel)
    | _ => return []

/-- Wait for items until there are no more or one of them is an error. -/
def joinFrom {α : Type} (attempt : SessionM (Poll α)) :
    (fuel : Nat) → SessionM (Except RetrievalError (List α))
  | 0 => return .ok []
  | fuel + 1 => do
    match ← await attempt with
    | .item (.ok value) => return (← joinFrom attempt fuel).map (value :: ·)
    | .item (.error error) => return .error error
    | _ => return .ok []

end Reassembly.Session
