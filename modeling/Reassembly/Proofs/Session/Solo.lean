import Reassembly.Proofs.Retrieval.Course
import Reassembly.Proofs.Session.Await

/-!
# Single retrievals

A session that has one retrieval under way, and nothing else, lets the tasks of that make steps when an instant is
settled, and leaves it alone otherwise. So what steps of tasks keep, and polls that find nothing, still holds at the
poll with which a wait is over. A session with several retrievals is not treated here: there, what one of them asks of
the services comes between what another asks.
-/

namespace Reassembly

/-- What is done to the fetch of a stream, one change after another. -/
theorem FragmentStream.onFetch_bind {σ : Type} (change next : Fetch → StateM σ Fetch) (stream : FragmentStream)
    (backend : σ) :
    stream.onFetch (fun fetch => change fetch >>= next) backend =
      (stream.onFetch change backend).1.onFetch next (stream.onFetch change backend).2 := by
  cases hholding : stream.holding with
  | fetching fetch =>
    rw [onFetch_of_fetching hholding, onFetch_of_fetching hholding, onFetch_of_fetching rfl]
    rfl
  | unopened | released =>
    have hnone : ∀ fetch, stream.holding ≠ .fetching fetch := by simp [hholding]
    rw [onFetch_of_holding hnone, onFetch_of_holding hnone, onFetch_of_holding hnone]

/-- To do nothing to the fetch of a stream is to do nothing. -/
theorem FragmentStream.onFetch_pure {σ : Type} (stream : FragmentStream) (backend : σ) :
    stream.onFetch pure backend = (stream, backend) := by
  cases hholding : stream.holding with
  | fetching fetch =>
    rw [onFetch_of_fetching hholding]
    show (({ stream with holding := .fetching fetch } : FragmentStream), backend) = _
    rw [← hholding]
  | unopened | released => exact onFetch_of_holding (by simp [hholding]) pure backend

namespace Session

/-- The one retrieval that a session has under way: what the caller waits for, or a stream under a name. -/
inductive Solo
  | fetch (fetch : Fetch)
  | stream (stream : FragmentStream)
  | named (name : String) (stream : FragmentStream)

namespace Solo

variable {service : Service Backend}

/-- A session with this one retrieval under way. -/
def within (session : Session) : Solo → Session
  | fetch found => { session with streams := {}, fetches := {}, errand := .fetch found }
  | stream found => { session with streams := {}, fetches := {}, errand := .stream found }
  | named name found => { session with streams := ⟨[(name, found)]⟩, fetches := {}, errand := .none }

/-- Change the fetch of a retrieval, if it has one. -/
def onFetch (change : Fetch → StateM Backend Fetch) : Solo → StateM Backend Solo
  | fetch found => fetch <$> change found
  | stream found => stream <$> found.onFetch change
  | named name found => named name <$> found.onFetch change

/-- To change every fetch of such a session is to change that of its retrieval. -/
theorem changeFetches_within (change : Service Backend → Fetch → StateM Backend Fetch) (solo : Solo)
    (session : Session) :
    (changeFetches change (solo.within session)).2 =
      (solo.onFetch (change session.service) session.backend).1.within
        { session with backend := (solo.onFetch (change session.service) session.backend).2 } := by
  cases solo <;> rfl

/-- One change after another. -/
theorem onFetch_bind (change next : Fetch → StateM Backend Fetch) (solo : Solo) (backend : Backend) :
    solo.onFetch (fun fetch => change fetch >>= next) backend =
      (solo.onFetch change backend).1.onFetch next (solo.onFetch change backend).2 := by
  cases solo with
  | fetch found => rfl
  | stream found => exact congrArg (Prod.map stream id) (found.onFetch_bind change next backend)
  | named name found => exact congrArg (Prod.map (named name) id) (found.onFetch_bind change next backend)

/-- To do nothing. -/
theorem onFetch_pure (solo : Solo) (backend : Backend) : solo.onFetch pure backend = (solo, backend) := by
  cases solo with
  | fetch found => rfl
  | stream found => exact congrArg (Prod.map stream id) (found.onFetch_pure backend)
  | named name found => exact congrArg (Prod.map (named name) id) (found.onFetch_pure backend)

/-- What is done to the fetch of a retrieval comes to some steps of its tasks, when it is made of such steps. -/
theorem exists_workAll {change : Fetch → StateM Backend Fetch} (h : Fetch.MadeOfSteps service change) (solo : Solo)
    (backend : Backend) :
    ∃ steps, solo.onFetch change backend = solo.onFetch (Fetch.workAll service steps) backend := by
  have hstream : ∀ found : FragmentStream,
      ∃ steps, found.onFetch change backend = found.onFetch (Fetch.workAll service steps) backend := by
    intro found
    cases hholding : found.holding with
    | fetching fetch =>
      obtain ⟨steps, hsteps⟩ := h fetch backend
      refine ⟨steps, ?_⟩
      rw [FragmentStream.onFetch_of_fetching hholding, FragmentStream.onFetch_of_fetching hholding, hsteps]
    | unopened | released =>
      have hnone : ∀ fetch, found.holding ≠ .fetching fetch := by simp [hholding]
      exact ⟨[], by rw [FragmentStream.onFetch_of_holding hnone, FragmentStream.onFetch_of_holding hnone]⟩
  cases solo with
  | fetch found =>
    obtain ⟨steps, hsteps⟩ := h found backend
    exact ⟨steps, congrArg (Prod.map fetch id) hsteps⟩
  | stream found =>
    obtain ⟨steps, hsteps⟩ := hstream found
    exact ⟨steps, congrArg (Prod.map stream id) hsteps⟩
  | named name found =>
    obtain ⟨steps, hsteps⟩ := hstream found
    exact ⟨steps, congrArg (Prod.map (named name) id) hsteps⟩

/-- A property of a retrieval and the services that every step of a task keeps. -/
def KeptBySteps (service : Service Backend) (keeps : Solo → Backend → Prop) : Prop :=
  ∀ step solo backend, keeps solo backend →
    keeps (solo.onFetch (Fetch.workWith service step) backend).1
      (solo.onFetch (Fetch.workWith service step) backend).2

variable {keeps : Solo → Backend → Prop}

/-- What every step keeps, actions that are made of steps keep. -/
theorem KeptBySteps.of_madeOfSteps (hkeeps : KeptBySteps service keeps) {change : Fetch → StateM Backend Fetch}
    (h : Fetch.MadeOfSteps service change) {solo : Solo} {backend : Backend} (hstart : keeps solo backend) :
    keeps (solo.onFetch change backend).1 (solo.onFetch change backend).2 := by
  obtain ⟨steps, hsteps⟩ := exists_workAll h solo backend
  rw [hsteps]
  clear hsteps
  induction steps generalizing solo backend with
  | nil =>
    rw [show Fetch.workAll service [] = pure from rfl, onFetch_pure]
    exact hstart
  | cons step rest ih =>
    rw [show Fetch.workAll service (step :: rest) =
      fun fetch => Fetch.workWith service step fetch >>= Fetch.workAll service rest from
        funext fun fetch => List.foldlM_cons, onFetch_bind]
    exact ih (hkeeps step solo backend hstart)

end Solo

/-- A session that differs from another in its clock and its services, and has one retrieval under way, with a property
of the retrieval and the services. -/
inductive Plays (base : Session) (keeps : Solo → Backend → Prop) : Session → Prop
  | intro {solo : Solo} {backend : Backend} (kept : keeps solo backend) (now : Nat) :
      Plays base keeps (solo.within { base with backend, now })

namespace Plays

variable {base session : Session} {keeps : Solo → Backend → Prop}

/-- What the property implies may take its place. -/
theorem mono {more : Solo → Backend → Prop} (h : Plays base keeps session)
    (himplies : ∀ solo backend, keeps solo backend → more solo backend) : Plays base more session := by
  obtain ⟨kept, now⟩ := h
  exact .intro (himplies _ _ kept) now

/-- What is made of steps keeps the property. -/
theorem changeFetches (h : Plays base keeps session) (hkeeps : Solo.KeptBySteps base.service keeps)
    (change : Service Backend → Fetch → StateM Backend Fetch)
    (hmade : Fetch.MadeOfSteps base.service (change base.service)) :
    Plays base keeps (Session.changeFetches change session).2 := by
  obtain ⟨kept, now⟩ := h
  rw [Solo.changeFetches_within]
  exact .intro (hkeeps.of_madeOfSteps hmade kept) now

/-- The caller does not wait for a download. -/
theorem deliverErrand_eq (h : Plays base keeps session) : (deliverErrand session).2 = session := by
  obtain ⟨kept, now⟩ := h
  rename_i solo backend
  cases solo <;> rfl

/-- The clock does not matter. -/
theorem reset (h : Plays base keeps session) (now : Nat) : Plays base keeps { session with now } := by
  obtain ⟨kept, before⟩ := h
  rename_i solo backend
  cases solo <;> exact .intro kept now

/-- To settle an instant keeps the property. -/
theorem settle (h : Plays base keeps session) (hkeeps : Solo.KeptBySteps base.service keeps) :
    Plays base keeps (Session.settle session).2 := by
  obtain ⟨delivering, requesting⟩ := Fetch.madeOfSteps_schedule base.service session.now
  have hdelivered := h.changeFetches hkeeps (fun service fetch => fetch.deliverAll service session.now) delivering
  rw [settle_eq, hdelivered.deliverErrand_eq]
  exact hdelivered.changeFetches hkeeps (fun service fetch => fetch.requestAll service session.now) requesting

/-- To move the clock keeps the property. -/
theorem advance (h : Plays base keeps session) (hkeeps : Solo.KeptBySteps base.service keeps) :
    Plays base keeps (Session.advance session).2 := by
  cases hdue : session.nextDue? with
  | some due =>
    rw [advance_eq hdue]
    exact (h.reset _).settle hkeeps
  | none =>
    simp only [Session.advance, Action.bind_run, Action.get_run, hdue]
    exact h

/-- To let time pass keeps the property. -/
theorem sleep (h : Plays base keeps session) (hkeeps : Solo.KeptBySteps base.service keeps) (milliseconds : Nat) :
    Plays base keeps (Session.sleep milliseconds session).2 := by
  have hpass : ∀ (instant fuel : Nat) {session : Session}, Plays base keeps session →
      Plays base keeps (passUntil instant fuel session).2 := by
    intro instant fuel
    induction fuel with
    | zero => exact id
    | succ fuel ih =>
      intro session h
      cases hdue : session.nextDue? with
      | none =>
        simp only [passUntil, Action.bind_run, Action.get_run, hdue]
        exact h
      | some due =>
        simp only [passUntil, Action.bind_run, Action.get_run, hdue]
        split
        · exact ih (h.advance hkeeps)
        · exact h
  have hslept : (Session.sleep milliseconds session).2 =
      (Session.settle
        { (passUntil (session.now + milliseconds) session.unfinished session).2 with
          now := session.now + milliseconds }).2 := rfl
  rw [hslept]
  exact ((hpass _ _ h).reset _).settle hkeeps

end Plays

/-- What a wait comes to: an attempt that is made while the property holds, or nothing, and the property still holds. -/
inductive Waited (base : Session) (keeps : Solo → Backend → Prop) (attempt : SessionM (Poll Block)) :
    Poll Block × Session → Prop
  | attempted {before : Session} (plays : Plays base keeps before) : Waited base keeps attempt (attempt before)
  | nothing {after : Session} (plays : Plays base keeps after) : Waited base keeps attempt (.pending, after)

section Waiting

variable {base session : Session} {keeps : Solo → Backend → Prop} {attempt : SessionM (Poll Block)}

/-- Attempts and moves of the clock by turns. -/
theorem waited_awaitFrom (hkeeps : Solo.KeptBySteps base.service keeps)
    (hpending : ∀ {session}, Plays base keeps session → (attempt session).1 = .pending →
      Plays base keeps (attempt session).2)
    (fuel : Nat) (h : Plays base keeps session) : Waited base keeps attempt (awaitFrom attempt fuel session) := by
  induction fuel generalizing session with
  | zero => exact .nothing h
  | succ fuel ih =>
    rw [awaitFrom, Action.bind_run]
    have hlater := hpending h
    rcases hfound : attempt session with ⟨poll, after⟩
    rw [hfound] at hlater
    cases poll with
    | pending =>
      show Waited base keeps attempt (awaitFrom attempt fuel (advance after).2)
      exact ih ((hlater rfl).advance hkeeps)
    | ended | item =>
      have hattempted : Waited base keeps attempt (attempt session) := .attempted h
      rwa [hfound] at hattempted

/-- Waiting comes to an attempt, with nothing found before it. -/
theorem waited_await (attempt : SessionM (Poll Block)) (hkeeps : Solo.KeptBySteps base.service keeps)
    (hpending : ∀ {session}, Plays base keeps session → (attempt session).1 = .pending →
      Plays base keeps (attempt session).2)
    (h : Plays base keeps session) : Waited base keeps attempt (await attempt session) := by
  rw [await, Action.bind_run]
  have hlater := hpending h
  rcases hfound : attempt session with ⟨poll, after⟩
  rw [hfound] at hlater
  cases poll with
  | pending =>
    simp only [Action.bind_run, Action.get_run]
    exact waited_awaitFrom hkeeps hpending _ ((hlater rfl).settle hkeeps)
  | ended | item =>
    have hattempted : Waited base keeps attempt (attempt session) := .attempted h
    rwa [hfound] at hattempted

end Waiting

end Session

end Reassembly
