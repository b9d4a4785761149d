import Reassembly.Proofs.LifeCycle
import Reassembly.Proofs.Session.Retrieval
import Reassembly.Proofs.Session.Solo

/-!
# Streams of a session

A session has a stream under a name, or because its caller waits for it. Between its polls the session lets the tasks of
the stream make steps, and each of its polls finds the look-up answered at once. What comes of the stream is what comes
of its life under some events, and what the session has been given is what the polls of that life have brought.
-/

namespace Reassembly

namespace FragmentStream

/-- The answer to a look-up does not matter to a stream that has been opened. -/
theorem poll_of_opened {stream : FragmentStream} (h : stream.isUnopened = false)
    (answer other : Option (Except ServiceError Manifest)) : stream.poll answer = stream.poll other := by
  by_cases hterminal : stream.state.isTerminal = true
  · rw [poll, poll, if_pos hterminal, if_pos hterminal]
  · rw [poll_eq (by simpa using hterminal), poll_eq (by simpa using hterminal)]
    cases hholding : stream.holding with
    | fetching | released => rfl
    | unopened => simp [isUnopened, hholding, hterminal] at h

/-- A stream that is polled with an answer, or does not need it, is open then. -/
theorem isUnopened_poll_of {stream : FragmentStream} {answer : Option (Except ServiceError Manifest)}
    (h : stream.isUnopened = true → answer ≠ none) : (stream.poll answer).2.isUnopened = false := by
  by_cases hterminal : stream.state.isTerminal = true
  · rw [poll, if_pos hterminal, isUnopened]
    cases stream.holding <;> simp [hterminal]
  · have hlive : stream.state.isTerminal = false := by simpa using hterminal
    cases hunopened : stream.isUnopened with
    | true =>
      obtain ⟨found, rfl⟩ := Option.ne_none_iff_exists'.mp (h hunopened)
      have hopened := isUnopened_poll ⟨found, fun _ => .crashed⟩ hlive
      rw [hunopened] at hopened
      exact hopened
    | false =>
      have hopened := isUnopened_poll ⟨.ok default, fun _ => .crashed⟩ hlive
      rw [poll_of_opened hunopened _ answer] at hopened
      exact hopened

/-- No poll cancels a stream. -/
theorem Fits.cancelled {before : StreamState} {found : Poll Block} (h : Fits before found .cancelled) :
    before = .cancelled := by
  cases h
  rfl

/-- A stream whose poll finds the end has ended. -/
theorem Fits.isTerminal {before after : StreamState} (h : Fits before .ended after) : after.isTerminal = true := by
  cases h with
  | past terminal => exact terminal
  | ended => rfl

/-- A stream that is cancelled is not one that is not open yet. -/
theorem isUnopened_cancel (stream : FragmentStream) : stream.cancel.isUnopened = false := by
  by_cases hterminal : stream.state.isTerminal = true
  · rw [cancel_of_terminal hterminal, isUnopened]
    cases stream.holding <;> simp [hterminal]
  · rw [cancel_of_live (by simpa using hterminal)]
    rfl

/-- What the poll of a stream of a service comes to, by the answer that it finds. -/
theorem pollWith_run {σ : Type} (service : Service σ) {stream : FragmentStream} {backend : σ}
    {found : Option (Except ServiceError Manifest) × σ}
    (h : (if stream.isUnopened then some <$> service.lookup stream.fileId else pure none : StateM σ _) backend =
      found) :
    stream.pollWith service backend =
      (stream.poll found.1,
        if (stream.poll found.1).2.state.isTerminal then (stream.downloads.forM service.abandoned found.2).2
        else found.2) := by
  rw [pollWith_eq, Action.bind_run, h]
  split <;> rfl

end FragmentStream

namespace Life

variable {σ : Type}

/-- A stream that is not open has not asked for its manifest. -/
def Ready (life : Life σ) : Prop := life.stream.isUnopened = true → life.answer = none

/-- A poll that finds its look-up answered at once is the poll of a stream of a service. -/
theorem perform_poll_answered (service : Service σ) (life : Life σ) (hready : life.Ready) :
    let polled := life.stream.pollWith service life.backend
    polled.1.2.isUnopened = false ∧ ∃ answer, life.perform service (.poll true) =
      { stream := polled.1.2
        answer
        found := life.found ++ [polled.1.1]
        backend := polled.2
        consumed := life.consumed ++ life.stream.taken } := by
  cases hunopened : life.stream.isUnopened with
  | true =>
    rw [FragmentStream.pollWith_run service (by rw [hunopened, if_pos rfl])]
    refine ⟨FragmentStream.isUnopened_poll_of fun _ => Option.some_ne_none _,
      some (service.lookup life.stream.fileId life.backend).1, ?_⟩
    rw [perform, life.toCourse.ask_of_unopened service hunopened (hready hunopened)]
    rfl
  | false =>
    rw [FragmentStream.pollWith_run service (by rw [hunopened])]
    refine ⟨FragmentStream.isUnopened_poll_of (by simp [hunopened]), life.answer, ?_⟩
    rw [perform, life.toCourse.ask_of_known service (.inl hunopened) life.backend,
      FragmentStream.poll_of_opened hunopened _ life.answer]
    rfl

/-- A life of a stream that comes from another by events. Its polls have brought the items, and it is cancelled only if
that was asked for. -/
structure Rehearsed (service : Service σ) (start : Life σ) (stopped : Prop) (items : List (Except RetrievalError Block))
    (life : Life σ) : Prop where
  reached : ∃ events, start.run service events = life
  lawful : ∃ requested, life.Lawful requested
  ready : life.Ready
  items : FragmentStream.yielded life.found = items
  uncancelled : life.stream.state = .cancelled → stopped

namespace Rehearsed

variable {service : Service σ} {start life : Life σ} {stopped : Prop} {items : List (Except RetrievalError Block)}

/-- The life of a stream that has not been polled. -/
theorem refl (service : Service σ) (fileId : String) (credentials : Credentials) (range : ByteRange) (limit : Nat)
    (backend : σ) (stopped : Prop) :
    Rehearsed service (.start fileId credentials range limit backend) stopped []
      (.start fileId credentials range limit backend) where
  reached := ⟨[], rfl⟩
  lawful := ⟨range, lawful_start fileId credentials range limit backend⟩
  ready _ := rfl
  items := rfl
  uncancelled h := by simp [Life.start, FragmentStream.ofRange] at h

/-- One more event. -/
theorem perform (h : Rehearsed service start stopped items life) (event : LifeEvent) :
    (∃ events, start.run service events = life.perform service event) ∧
      ∃ requested, (life.perform service event).Lawful requested := by
  obtain ⟨events, rfl⟩ := h.reached
  obtain ⟨requested, hlawful⟩ := h.lawful
  exact ⟨⟨events ++ [event], List.foldl_append⟩, requested, (hlawful.keeps service event).lawful⟩

/-- A task makes a step. -/
theorem task (h : Rehearsed service start stopped items life) (step : TaskStep) :
    Rehearsed service start stopped items (life.perform service (.task step)) := by
  obtain ⟨hreached, hlawful⟩ := h.perform (.task step)
  obtain ⟨requested, hlife⟩ := h.lawful
  refine ⟨hreached, hlawful, ?_, h.items, ?_⟩
  · rcases perform_task service life step hlife.stage with hsame | ⟨fetch, backend, -, hafter, -⟩
    · rw [hsame]
      exact h.ready
    · rw [hafter]
      intro hunopened
      simp [FragmentStream.isUnopened] at hunopened
  · rcases perform_task service life step hlife.stage with hsame | ⟨fetch, backend, -, hafter, -⟩
    · rw [hsame]
      exact h.uncancelled
    · rw [hafter]
      exact h.uncancelled

/-- The stream is cancelled. -/
theorem cancel (h : Rehearsed service start stopped items life) (hstopped : stopped) :
    Rehearsed service start stopped items (life.perform service .cancel) := by
  obtain ⟨hreached, hlawful⟩ := h.perform .cancel
  refine ⟨hreached, hlawful, fun hunopened => ?_, h.items, fun _ => hstopped⟩
  rw [perform_cancel, FragmentStream.isUnopened_cancel] at hunopened
  simp at hunopened

/-- The stream is polled. What this brings fits how its state moves. -/
theorem poll (h : Rehearsed service start stopped items life) :
    let polled := life.stream.pollWith service life.backend
    FragmentStream.Fits life.stream.state polled.1.1 polled.1.2.state ∧
      ∃ later, Rehearsed service start stopped (items ++ FragmentStream.yielded [polled.1.1]) later ∧
        later.stream = polled.1.2 ∧ later.backend = polled.2 := by
  intro polled
  obtain ⟨hopened, answer, hafter⟩ := life.perform_poll_answered service h.ready
  obtain ⟨hreached, hlawful⟩ := h.perform (.poll true)
  obtain ⟨requested, hlife⟩ := h.lawful
  have hfits : FragmentStream.Fits life.stream.state polled.1.1 polled.1.2.state := by
    show FragmentStream.Fits _ (life.stream.pollWith service life.backend).1.1
      (life.stream.pollWith service life.backend).1.2.state
    rw [FragmentStream.pollWith_run service rfl]
    exact (hlife.stage.leads _).fits
  rw [hafter] at hreached hlawful
  refine ⟨hfits, _, ⟨hreached, hlawful, fun hunopened => ?_, ?_, fun hcancelled => ?_⟩, rfl, rfl⟩
  · simp [hopened] at hunopened
  · rw [← h.items]
    exact List.filterMap_append
  · apply h.uncancelled
    replace hcancelled : polled.1.2.state = .cancelled := hcancelled
    rw [hcancelled] at hfits
    exact hfits.cancelled

/-- A life that has brought a failure, or has come to its end, is completed or failed if it was not cancelled. -/
theorem ended (h : Rehearsed service start False items life)
    (hover : (∃ error, .error error ∈ items) ∨ life.stream.state.isTerminal = true) :
    life.stream.state = .completed ∨ life.stream.state = .failed := by
  obtain ⟨requested, hlawful⟩ := h.lawful
  rcases hover with ⟨error, hmem⟩ | hterminal
  · rw [← h.items] at hmem
    cases hlawful.brings with
    | fragments _ fragments all =>
      rw [all] at hmem
      simp at hmem
    | failure state => exact .inr state
  · cases hstate : life.stream.state with
    | completed => exact .inl rfl
    | failed => exact .inr rfl
    | cancelled => exact (h.uncancelled hstate).elim
    | idle | streaming => simp [hstate, StreamState.isTerminal] at hterminal

end Rehearsed

end Life

namespace Named

variable {α : Type}

/-- The one value under a name. -/
theorem get?_single (name : String) (value : α) : (⟨[(name, value)]⟩ : Named α).get? name = some value := by
  simp [get?]

/-- Another value in the place of the one. -/
theorem put_single (name : String) (value other : α) :
    (⟨[(name, value)]⟩ : Named α).put name other = ⟨[(name, other)]⟩ := by
  simp [put, putInto]

end Named

namespace Session

/-- A place at which a session may have a stream: what the caller waits for, or a name. -/
structure Seat where
  solo : FragmentStream → Solo
  attempt : SessionM (Poll Block)
  onFetch_solo : ∀ change stream backend,
    (solo stream).onFetch change backend =
      (solo (stream.onFetch change backend).1, (stream.onFetch change backend).2)
  attempt_within : ∀ stream session,
    attempt ((solo stream).within session) =
      ((stream.pollWith session.service session.backend).1.1,
        (solo (stream.pollWith session.service session.backend).1.2).within
          { session with backend := (stream.pollWith session.service session.backend).2 })

namespace Seat

/-- The caller waits for the stream. -/
def errand : Seat where
  solo := .stream
  attempt := pollErrandStream
  onFetch_solo _ _ _ := rfl
  attempt_within _ _ := rfl

/-- The stream has a name. -/
def named (name : String) : Seat where
  solo := .named name
  attempt := pollNamedStream name
  onFetch_solo _ _ _ := rfl
  attempt_within stream session := by
    simp only [pollNamedStream, pollStream, Action.bind_run, Action.get_run, Solo.within, Named.get?_single,
      withService_run, Action.modify_run, Named.put_single]
    rfl

variable {seat : Seat} {base session : Session} {start : Life Backend} {stopped : Prop}
  {items : List (Except RetrievalError Block)}

/-- A stream at a seat, in front of the services, is that of a life with a property. -/
def Shows (seat : Seat) (holds : Life Backend → Prop) (solo : Solo) (backend : Backend) : Prop :=
  ∃ life, holds life ∧ solo = seat.solo life.stream ∧ backend = life.backend

/-- What a property implies may take its place. -/
theorem Shows.mono {holds more : Life Backend → Prop} (himplies : ∀ life, holds life → more life) (solo : Solo)
    (backend : Backend) (h : seat.Shows holds solo backend) : seat.Shows more solo backend := by
  obtain ⟨life, hlife, hrest⟩ := h
  exact ⟨life, himplies life hlife, hrest⟩

/-- Every step of a task keeps a rehearsed life. -/
theorem keptBySteps (seat : Seat) (service : Service Backend) (start : Life Backend) (stopped : Prop)
    (items : List (Except RetrievalError Block)) :
    Solo.KeptBySteps service (seat.Shows (Life.Rehearsed service start stopped items)) := by
  rintro step solo backend ⟨life, hlife, rfl, rfl⟩
  rw [seat.onFetch_solo]
  exact ⟨_, hlife.task step, rfl, rfl⟩

/-- What a poll has made of a rehearsed life. -/
def Polled (service : Service Backend) (start : Life Backend) (stopped : Prop)
    (items : List (Except RetrievalError Block)) (poll : Poll Block) (life : Life Backend) : Prop :=
  Life.Rehearsed service start stopped (items ++ FragmentStream.yielded [poll]) life ∧
    (poll = .ended → life.stream.state.isTerminal = true)

/-- A poll at a seat is a poll of a rehearsed life. -/
theorem attempted (h : Plays base (seat.Shows (Life.Rehearsed base.service start stopped items)) session) :
    Plays base (seat.Shows (Polled base.service start stopped items (seat.attempt session).1))
      (seat.attempt session).2 := by
  obtain ⟨⟨life, hlife, rfl, rfl⟩, now⟩ := h
  obtain ⟨hfits, later, hlater, hstream, hbackend⟩ := hlife.poll
  rw [seat.attempt_within]
  refine .intro ⟨later, ⟨hlater, fun hended => ?_⟩, congrArg seat.solo hstream.symm, hbackend.symm⟩ now
  replace hended : (life.stream.pollWith base.service life.backend).1.1 = .ended := hended
  rw [hended, ← hstream] at hfits
  exact hfits.isTerminal

/-- A wait at a seat is a poll of a rehearsed life, at the end. -/
theorem awaited (h : Plays base (seat.Shows (Life.Rehearsed base.service start stopped items)) session) :
    Plays base (seat.Shows (Polled base.service start stopped items (await seat.attempt session).1))
      (await seat.attempt session).2 := by
  have hwaited := waited_await seat.attempt (seat.keptBySteps base.service start stopped items)
    (fun hplays hpending => by
      have hafter := attempted hplays
      rw [hpending] at hafter
      exact hafter.mono (Shows.mono fun life hlife => by simpa [FragmentStream.yielded] using hlife.1)) h
  generalize await seat.attempt session = found at hwaited
  cases hwaited with
  | attempted plays => exact attempted plays
  | nothing plays =>
    exact plays.mono (Shows.mono fun life hlife => ⟨by simpa [FragmentStream.yielded] using hlife, by simp⟩)

/-- A wait for the stream that the caller waits for. -/
theorem awaited_errand (h : Plays base (errand.Shows (Life.Rehearsed base.service start stopped items)) session) :
    Plays base (errand.Shows (Polled base.service start stopped items (await pollErrandStream session).1))
      (await pollErrandStream session).2 := awaited h

/-- To collect what is left is to poll a rehearsed life as often. -/
theorem collected (fuel : Nat)
    (h : Plays base (seat.Shows (Life.Rehearsed base.service start stopped items)) session) :
    Plays base
      (seat.Shows (Life.Rehearsed base.service start stopped (items ++ (collectFrom seat.attempt fuel session).1)))
      (collectFrom seat.attempt fuel session).2 := by
  induction fuel generalizing items session with
  | zero =>
    show Plays base (seat.Shows (Life.Rehearsed base.service start stopped (items ++ []))) session
    rwa [List.append_nil]
  | succ fuel ih =>
    have hfirst := awaited h
    rw [collectFrom, Action.bind_run]
    generalize await seat.attempt session = found at hfirst
    obtain ⟨poll, after⟩ := found
    cases poll with
    | item result =>
      have hrest := ih (hfirst.mono (Shows.mono fun _ hlife => hlife.1))
      rw [List.append_assoc] at hrest
      exact hrest
    | pending | ended => exact hfirst.mono (Shows.mono fun _ hlife => hlife.1)

/-- To join what is left is to poll a rehearsed life until it brings an error or has ended, if it is over a steady
service. -/
theorem joined {holds : Backend → Prop} {answer : String → Except ServiceError Manifest} {reply : String → Reply}
    {fileId : String} {owed : List (Except RetrievalError Block)} (fuel : Nat)
    (hretrieving : Retrieving true holds answer reply fileId owed session) (hfuel : owed.length < fuel)
    (h : Plays base (errand.Shows (Life.Rehearsed base.service start stopped items)) session) :
    ∃ more, (joinFrom pollErrandStream fuel session).1 = more.mapM id ∧
      Plays base
        (errand.Shows fun life => Life.Rehearsed base.service start stopped (items ++ more) life ∧
          ((∃ error, .error error ∈ more) ∨ life.stream.state.isTerminal = true))
        (joinFrom pollErrandStream fuel session).2 := by
  induction fuel generalizing items owed session with
  | zero => simp at hfuel
  | succ fuel ih =>
    have hawaited := awaited_await (fun h => attempted_pollErrandStream h) hretrieving
    have hfirst := awaited_errand h
    rw [joinFrom, Action.bind_run]
    generalize await pollErrandStream session = found at hawaited hfirst
    cases hawaited with
    | ended nothing =>
      exact ⟨[], rfl, hfirst.mono (Shows.mono fun _ hlife => ⟨hlife.1, .inr (hlife.2 rfl)⟩)⟩
    | @item after result rest first retrieving _ =>
      cases result with
      | error error =>
        exact ⟨[.error error], rfl, hfirst.mono (Shows.mono fun _ hlife => ⟨hlife.1, .inl ⟨error, by simp⟩⟩)⟩
      | ok block =>
        obtain ⟨more, hmore, hplays⟩ := ih retrieving (by rw [first, List.length_cons] at hfuel; omega)
          (hfirst.mono (Shows.mono fun _ hlife => hlife.1))
        refine ⟨.ok block :: more, ?_, hplays.mono (Shows.mono fun life hlife => ⟨?_, ?_⟩)⟩
        · show (joinFrom pollErrandStream fuel after).1.map (block :: ·) = _
          rw [hmore, Result.mapM_cons, id_eq, Result.ok_bind]
          cases more.mapM id <;> rfl
        · have hitems := hlife.1
          rwa [List.append_assoc] at hitems
        · exact hlife.2.imp_left (Exists.imp fun _ => List.mem_cons_of_mem _)

end Seat

end Session

end Reassembly
