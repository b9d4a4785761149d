import Mathlib
import Reassembly.Proofs.Retrieval.Life
import Reassembly.Service.Sources

/-!
# The life cycle of streams

Whatever sequence of polls and cancellations a stream goes through, and whatever its tasks do meanwhile, it
opens once, ends once, and stays as it ended. The polls are told with what they have brought, and with the
tasks whose blocks they have consumed. The tasks that a stream lets go of are dropped at once here, with their
downloads; nothing that is said of the stream itself depends on when the runtime drops them.
-/

namespace Reassembly

variable {σ : Type} {service : Service σ}

/-- The course of a stream in front of a service, with the tasks whose blocks its polls have consumed. -/
structure Life (σ : Type) extends Course where
  backend : σ
  consumed : List FetchTask := []

/-- What can happen to a stream. -/
inductive LifeEvent
  /-- A task of its fetch makes a step. -/
  | task (step : TaskStep)
  /-- It is polled, and if it waits for the look-up of its file, finds that answered or not. -/
  | poll (answered : Bool)
  /-- It is cancelled. -/
  | cancel

namespace FragmentStream

/-- Drop a stream, which cancels it if it is streaming. -/
def dropWith (service : Service σ) (stream : FragmentStream) : StateM σ FragmentStream :=
  if stream.state = .streaming then stream.cancelWith service else pure stream

variable {stream : FragmentStream} {consumed : List FetchTask}

/-- What a poll brings tells how the state moves. -/
theorem Fits.moves {before after : StreamState} {found : Poll Block} (h : Fits before found after) :
    Relation.ReflTransGen StreamState.Moves before after := by
  have hopen : before.isTerminal = false → Relation.ReflTransGen StreamState.Moves before .streaming := by
    intro hlive
    cases before with
    | idle => exact .single .opens
    | streaming => exact .refl
    | completed | failed | cancelled => simp [StreamState.isTerminal] at hlive
  cases h with
  | past => exact .refl
  | pending live => exact hopen live
  | fragment live => exact hopen live
  | error live => exact (hopen live).tail .fails
  | ended live => exact (hopen live).tail .completes

/-- A poll brings an error when the stream fails, and only then. -/
theorem Fits.error_iff {before after : StreamState} {found : Poll Block} (h : Fits before found after) :
    (∃ error, found = .item (.error error)) ↔ before ≠ .failed ∧ after = .failed := by
  cases h with
  | past | pending | fragment | ended => simp
  | error live error =>
    refine ⟨fun _ => ⟨?_, rfl⟩, fun _ => ⟨error, rfl⟩⟩
    rintro rfl
    simp [StreamState.isTerminal] at live

/-- A stream that does not hold a fetch has no downloads in flight. -/
theorem downloads_of_not_fetching (h : ∀ fetch, stream.holding ≠ .fetching fetch) : stream.downloads = [] := by
  rw [downloads]
  split
  · next fetch hholding => exact absurd hholding (h fetch)
  · rfl

/-- To cancel a stream that has ended changes nothing. -/
theorem cancel_of_terminal (h : stream.state.isTerminal = true) : stream.cancel = stream := if_pos h

/-- To cancel a stream that has not ended ends it. -/
theorem cancel_of_live (h : stream.state.isTerminal = false) : stream.cancel = stream.finish .cancelled :=
  if_neg (by simp [h])

/-- Cancelling leads from any stage to the next, and moves the state. -/
theorem Stage.cancel (h : stream.Stage consumed) :
    stream.cancel.Stage consumed ∧ Relation.ReflTransGen StreamState.Moves stream.state stream.cancel.state ∧
      stream.cancel.offset = stream.offset ∧ stream.cancel.range = stream.range := by
  by_cases hterminal : stream.state.isTerminal = true
  · rw [cancel_of_terminal hterminal]
    exact ⟨h, .refl, rfl, rfl⟩
  · have hlive : stream.state.isTerminal = false := by simpa using hterminal
    rw [cancel_of_live hlive]
    refine ⟨.stopped (.inr rfl) rfl, ?_, rfl, rfl⟩
    rcases idle_or_streaming hlive with hidle | hstreaming
    · rw [hidle]
      exact .single .forgoes
    · rw [hstreaming]
      exact .single .stops

/-- A dropped stream is idle or has ended, and has no downloads in flight; those that it had are abandoned. -/
theorem Stage.dropWith (h : stream.Stage consumed) (service : Service σ) (backend : σ) :
    (stream.dropWith service backend).2 = (stream.downloads.forM service.abandoned backend).2 ∧
      (stream.dropWith service backend).1.downloads = [] ∧
      ((stream.dropWith service backend).1.state = .idle ∨
        (stream.dropWith service backend).1.state.isTerminal = true) ∧
      Relation.ReflTransGen StreamState.Moves stream.state (stream.dropWith service backend).1.state := by
  rw [FragmentStream.dropWith]
  by_cases hstreaming : stream.state = .streaming
  · obtain ⟨-, hmoves, -, -⟩ := h.cancel
    rw [if_pos hstreaming]
    refine ⟨rfl, ?_, .inr ?_, hmoves⟩
    · show stream.cancel.downloads = []
      rw [cancel_of_live (by rw [hstreaming]; rfl)]
      rfl
    · show stream.cancel.state.isTerminal = true
      rw [cancel_of_live (by rw [hstreaming]; rfl)]
      rfl
  · rw [if_neg hstreaming]
    have hnone : stream.downloads = [] := by
      refine downloads_of_not_fetching fun fetch hholding => ?_
      cases h with
      | unopened _ holding | completed _ holding | stopped _ holding => simp [hholding] at holding
      | fetching state => exact hstreaming state
    refine ⟨by rw [hnone]; rfl, hnone, ?_, .refl⟩
    show stream.state = .idle ∨ stream.state.isTerminal = true
    cases hstate : stream.state with
    | idle => exact .inl rfl
    | streaming => exact absurd hstate hstreaming
    | completed | failed | cancelled => exact .inr rfl

end FragmentStream

namespace Life

open FragmentStream

variable {life : Life σ} {requested : ByteRange}

/-- The life of the stream over a range of a file, before anything has happened. -/
def start (fileId : String) (credentials : Credentials) (range : ByteRange) (limit : Nat) (backend : σ) : Life σ :=
  { stream := .ofRange fileId credentials range limit, backend }

/-- What an event makes of the life of a stream. -/
def perform (service : Service σ) (life : Life σ) : LifeEvent → Life σ
  | .task step =>
    let (stream, backend) := life.stream.onFetch (Fetch.workWith service step) life.backend
    { life with stream, backend }
  | .poll answered =>
    let (asked, backend) := life.toCourse.ask service life.backend
    let course := asked.advance answered
    { course with
      backend :=
        if course.stream.state.isTerminal then (life.stream.downloads.forM service.abandoned backend).2 else backend
      consumed := life.consumed ++ life.stream.taken }
  | .cancel =>
    let (stream, backend) := life.stream.cancelWith service life.backend
    { life with stream, backend }

/-- What events make of the life of a stream, one after the other. -/
def run (service : Service σ) (life : Life σ) (events : List LifeEvent) : Life σ :=
  events.foldl (perform service) life

/-- To cancel a stream is to let go of what it holds, and to tell the service of the downloads that are
abandoned. -/
theorem perform_cancel (service : Service σ) (life : Life σ) :
    life.perform service .cancel =
      { life with
        stream := life.stream.cancel
        backend := (life.stream.downloads.forM service.abandoned life.backend).2 } := rfl

/-- The polls of a stream have brought fragments, and an error after them when the stream has failed. -/
inductive Brings (state : StreamState) (found : List (Poll Block)) : Prop
  | fragments (state : state ≠ .failed) (fragments : List Block) (all : yielded found = fragments.map .ok)
  | failure (state : state = .failed) (fragments : List Block) (error : RetrievalError)
      (all : yielded found = fragments.map .ok ++ [.error error])

/-- What holds throughout the life of a stream over a range. -/
structure Lawful (requested : ByteRange) (life : Life σ) : Prop where
  stage : life.stream.Stage life.consumed
  brings : Brings life.stream.state life.found
  start_eq : life.stream.range.start = requested.start
  last_eq : life.stream.range.last = requested.last

/-- One more poll brings what fits the change of the state. -/
theorem Brings.concat {before after : StreamState} {found : List (Poll Block)} {poll : Poll Block}
    (h : Brings before found) (hfits : Fits before poll after) : Brings after (found ++ [poll]) := by
  have happend : yielded (found ++ [poll]) = yielded found ++ yielded [poll] := List.filterMap_append
  have hnot : before.isTerminal = false → ∃ fragments : List Block, yielded found = fragments.map .ok := by
    intro hlive
    cases h with
    | fragments _ fragments all => exact ⟨fragments, all⟩
    | failure state =>
      rw [state] at hlive
      simp [StreamState.isTerminal] at hlive
  cases hfits with
  | past terminal =>
    cases h with
    | fragments state fragments all => exact .fragments state fragments (by rw [happend, all]; simp [yielded])
    | failure state fragments error all =>
      exact .failure state fragments error (by rw [happend, all]; simp [yielded])
  | pending live =>
    obtain ⟨fragments, all⟩ := hnot live
    exact .fragments (by simp) fragments (by rw [happend, all]; simp [yielded])
  | fragment live block =>
    obtain ⟨fragments, all⟩ := hnot live
    exact .fragments (by simp) (fragments ++ [block]) (by rw [happend, all]; simp [yielded])
  | error live error =>
    obtain ⟨fragments, all⟩ := hnot live
    exact .failure rfl fragments error (by rw [happend, all]; simp [yielded])
  | ended live =>
    obtain ⟨fragments, all⟩ := hnot live
    exact .fragments (by simp) fragments (by rw [happend, all]; simp [yielded])

/-- A stream that has not been polled is lawful. -/
theorem lawful_start (fileId : String) (credentials : Credentials) (requested : ByteRange) (limit : Nat)
    (backend : σ) : Lawful requested (start fileId credentials requested limit backend) where
  stage := .unopened (.inl rfl) rfl rfl rfl
  brings := .fragments (by simp [start, ofRange]) [] rfl
  start_eq := rfl
  last_eq := rfl

/-- A poll of a stream is a poll with some answer. Only one that is not open yet asks the service for anything, and one
that ends tells it of the downloads that are abandoned. -/
theorem perform_poll (service : Service σ) (life : Life σ) (answered : Bool) :
    ∃ answer known asked, (life.stream.isUnopened = false → known = life.answer ∧ asked = life.backend) ∧
      life.perform service (.poll answered) =
        { stream := (life.stream.poll answer).2
          answer := known
          found := life.found ++ [(life.stream.poll answer).1]
          backend :=
            if (life.stream.poll answer).2.state.isTerminal then (life.stream.downloads.forM service.abandoned asked).2
            else asked
          consumed := life.consumed ++ life.stream.taken } := by
  obtain ⟨hstream, hfound⟩ := life.toCourse.ask_keeps service life.backend
  have hquiet := fun h => life.toCourse.ask_of_known service (.inl h) life.backend
  rcases hask : life.toCourse.ask service life.backend with ⟨⟨stream, known, found⟩, asked⟩
  rw [hask] at hstream hfound hquiet
  obtain rfl : stream = life.stream := hstream
  obtain rfl : found = life.found := hfound
  refine ⟨(⟨life.stream, known, life.found⟩ : Course).known answered, known, asked, fun h => ?_, ?_⟩
  · obtain ⟨hsame, hbackend⟩ := Prod.mk.inj (hquiet h)
    exact ⟨congrArg Course.answer hsame, hbackend⟩
  · rw [perform, hask]
    rfl

/-- A stream that holds no fetch has no tasks that could make a step. -/
theorem perform_task_of_holding (service : Service σ) (life : Life σ)
    (h : ∀ fetch, life.stream.holding ≠ .fetching fetch) (step : TaskStep) :
    life.perform service (.task step) = life := by
  rw [perform, onFetch_of_holding h]

/-- A step of a task changes the fetch of a stream, and leaves it at its stage. -/
theorem perform_task (service : Service σ) (life : Life σ) (step : TaskStep) (h : life.stream.Stage life.consumed) :
    life.perform service (.task step) = life ∨
      ∃ (fetch : Fetch) (backend : σ), life.stream.state = .streaming ∧
        life.perform service (.task step) =
          { life with stream := { life.stream with holding := .fetching fetch }, backend } ∧
        ({ life.stream with holding := .fetching fetch } : FragmentStream).Stage life.consumed := by
  cases h with
  | unopened _ holding | completed _ holding | stopped _ holding =>
    exact .inl (perform_task_of_holding service life (by simp [holding]) step)
  | @fetching fetch state holding selected =>
    have hworks := Fetch.works_workWith service step fetch life.backend
    refine .inr ⟨_, _, state, by rw [perform, onFetch_of_fetching holding], .fetching state rfl ?_⟩
    rcases hworks.advances with hsame | ⟨replies, hadvance⟩
    · rw [hsame]
      exact ⟨selected.layout, selected.complete, selected.split, selected.read, selected.sound, selected.ahead⟩
    · obtain ⟨hfile, -⟩ := hadvance.keeps
      have hchunks := hadvance.chunks_eq
      refine ⟨by rw [hfile]; exact selected.layout, by rw [hfile]; exact selected.complete, ?_, selected.read,
        hadvance.sound selected.sound, ?_⟩
      · rw [List.map_append, hchunks, hfile, ← List.map_append]
        exact selected.split
      · rw [hchunks]
        exact selected.ahead

/-- What an event of a lawful life keeps to. -/
structure Keeps (service : Service σ) (requested : ByteRange) (life after : Life σ) : Prop where
  lawful : after.Lawful requested
  moves : Relation.ReflTransGen StreamState.Moves life.stream.state after.stream.state
  offset_le : life.stream.offset ≤ after.stream.offset
  fails : (∃ error, after.found = life.found ++ [.item (.error error)]) ↔
    life.stream.state ≠ .failed ∧ after.stream.state = .failed
  abandons : ∀ fetch, life.stream.holding = .fetching fetch → after.stream.state.isTerminal = true →
    after.backend = (fetch.abandon service life.backend).2

/-- Nothing has happened. -/
theorem Lawful.idle (h : life.Lawful requested) (service : Service σ) : Keeps service requested life life where
  lawful := h
  moves := .refl
  offset_le := Nat.le_refl _
  fails := by simp
  abandons fetch hholding hterminal := by
    have hreleased := h.stage.released hterminal
    simp [hreleased] at hholding

/-- Every event keeps to the law. -/
theorem Lawful.keeps (h : life.Lawful requested) (service : Service σ) (event : LifeEvent) :
    Keeps service requested life (life.perform service event) := by
  cases event with
  | task step =>
    rcases perform_task service life step h.stage with hsame | ⟨fetch, backend, hstate, hafter, hstage⟩
    · rw [hsame]
      exact h.idle service
    · rw [hafter]
      refine ⟨⟨hstage, h.brings, h.start_eq, h.last_eq⟩, .refl, Nat.le_refl _, ?_, fun _ _ hterminal => ?_⟩
      · simp [hstate]
      replace hterminal : life.stream.state.isTerminal = true := hterminal
      simp [hstate, StreamState.isTerminal] at hterminal
  | poll answered =>
    obtain ⟨answer, known, asked, hasked, hpoll⟩ := perform_poll service life answered
    have hleads := h.stage.leads answer
    rw [hpoll]
    refine ⟨⟨hleads.stage, h.brings.concat hleads.fits, hleads.start_eq.trans h.start_eq,
      hleads.last_eq.trans h.last_eq⟩, hleads.fits.moves, hleads.offset_le, ?_, ?_⟩
    · simp only [← hleads.fits.error_iff, List.append_cancel_left_eq, List.cons.injEq, and_true]
    · intro fetch hholding hterminal
      replace hterminal : (life.stream.poll answer).2.state.isTerminal = true := hterminal
      rw [(hasked (by rw [isUnopened, hholding])).2, if_pos hterminal, downloads, hholding]
      rfl
  | cancel =>
    obtain ⟨hstage, hmoves, hoffset, hrange⟩ := h.stage.cancel
    have hfailed : life.stream.cancel.state = .failed ↔ life.stream.state = .failed := by
      by_cases hterminal : life.stream.state.isTerminal = true
      · rw [cancel_of_terminal hterminal]
      · rw [cancel_of_live (by simpa using hterminal)]
        constructor
        · intro hequal
          simp [finish] at hequal
        · intro hequal
          simp [hequal, StreamState.isTerminal] at hterminal
    have hbrings : Brings life.stream.cancel.state life.found := by
      cases h.brings with
      | fragments state fragments all => exact .fragments (mt hfailed.mp state) fragments all
      | failure state fragments error all => exact .failure (hfailed.mpr state) fragments error all
    rw [perform_cancel]
    refine ⟨⟨hstage, hbrings, by rw [← h.start_eq, ← hrange], by rw [← h.last_eq, ← hrange]⟩, hmoves,
      Nat.le_of_eq hoffset.symm, ?_, fun fetch hholding _ => ?_⟩
    · refine ⟨by simp, ?_⟩
      rintro ⟨hbefore, hafter⟩
      exact absurd (hfailed.mp hafter) hbefore
    · rw [downloads, hholding]
      rfl

/-- A lawful life stays lawful. -/
theorem Lawful.run (h : life.Lawful requested) (service : Service σ) (events : List LifeEvent) :
    (life.run service events).Lawful requested :=
  Schedule.foldl_induction (motive := Lawful requested) (fun _ event hlater => (hlater.keeps service event).lawful)
    events h

/-- A stream that has ended stays as it is, and its polls find the end. -/
theorem Lawful.past (h : life.Lawful requested) (service : Service σ)
    (hterminal : life.stream.state.isTerminal = true) :
    life.stream.holding = .released ∧ life.stream.downloads = [] ∧
      (∀ answered, life.perform service (.poll answered) = { life with found := life.found ++ [.ended] }) ∧
      life.perform service .cancel = life ∧ ∀ event, life.perform service (.task event) = life := by
  have hreleased := h.stage.released hterminal
  have hnone : life.stream.downloads = [] := downloads_of_not_fetching (by simp [hreleased])
  refine ⟨hreleased, hnone, fun answered => ?_, ?_, perform_task_of_holding service life (by simp [hreleased])⟩
  · obtain ⟨answer, known, asked, hasked, hafter⟩ := perform_poll service life answered
    have hpoll : life.stream.poll answer = (.ended, life.stream) := if_pos hterminal
    obtain ⟨rfl, rfl⟩ := hasked (by rw [isUnopened, hreleased])
    rw [hafter, hpoll, hnone, taken, hreleased, List.append_nil, if_pos hterminal]
    rfl
  · rw [perform_cancel, cancel_of_terminal hterminal, hnone]
    rfl

/-- As long as a stream has not been polled, nothing is asked of its service. -/
theorem backend_run (service : Service σ) (life : Life σ) (hholding : ∀ fetch, life.stream.holding ≠ .fetching fetch)
    {events : List LifeEvent} (hunpolled : ∀ answered, .poll answered ∉ events) :
    (life.run service events).backend = life.backend := by
  induction events generalizing life with
  | nil => rfl
  | cons event rest ih =>
    have hrest : ∀ answered, LifeEvent.poll answered ∉ rest := fun answered hmem =>
      hunpolled answered (List.mem_cons_of_mem _ hmem)
    show (Life.run service (life.perform service event) rest).backend = life.backend
    cases event with
    | poll answered => exact absurd List.mem_cons_self (hunpolled answered)
    | task step =>
      rw [perform_task_of_holding service life hholding]
      exact ih life hholding hrest
    | cancel =>
      have hcancelled : ∀ fetch, life.stream.cancel.holding ≠ .fetching fetch := by
        by_cases hterminal : life.stream.state.isTerminal = true
        · rw [cancel_of_terminal hterminal]
          exact hholding
        · rw [cancel_of_live (by simpa using hterminal)]
          intro fetch hfetch
          simp [finish] at hfetch
      rw [perform_cancel, downloads_of_not_fetching hholding]
      exact ih _ hcancelled hrest

/-- What a stream that is completed has consumed: the blocks of all chunks that its range selects. -/
theorem Lawful.consumed (h : life.Lawful requested) (hcompleted : life.stream.state = .completed) :
    ∃ layout, life.stream.layout = some layout ∧
      life.consumed.map (·.chunk) = Layout.overlapping layout.chunks life.stream.range ∧
      ∀ task ∈ life.consumed, task.Delivered := by
  cases h.stage with
  | unopened state => rcases state with state | state <;> simp [hcompleted] at state
  | fetching state => simp [hcompleted] at state
  | completed _ _ known all read => exact ⟨_, known, all, read⟩
  | stopped state => rcases state with state | state <;> simp [hcompleted] at state

/-- What a stream that is fetching holds and has consumed. -/
theorem Lawful.selected (h : life.Lawful requested) {fetch : Fetch} (hholding : life.stream.holding = .fetching fetch) :
    life.stream.Selected fetch life.consumed := by
  cases h.stage with
  | unopened _ holding | completed _ holding | stopped _ holding => simp [hholding] at holding
  | @fetching found _ holding selected =>
    obtain rfl : fetch = found := Holding.fetching.inj (hholding.symm.trans holding)
    exact selected

end Life

/-- The life cycle of a stream.

Let anything happen to a stream over a range of a file, in any order: it is polled, whether what it waits for is
there or not, its tasks make steps, and it is cancelled. Then every event moves its state on, from idle to
streaming and from there to one of the three ends, or from idle to cancelled. Once it has ended it holds nothing
and has no download in flight, and whatever happens then changes nothing but that polls find the end. Its polls
bring fragments, and an error after them when it has failed and only then, by the poll with which it fails. While
it is fetching, the tasks that it has consumed and those that it holds are those of the selected chunks, and it
is completed when it has consumed a block of each. Downloads that are in flight when it ends are abandoned. Its
offset never decreases, nothing is asked of the service before it is polled, and its range is the one that was
asked for but for how far it runs. Dropping it ends it if it is streaming, and leaves no download in flight. -/
theorem stream_lifeCycle (service : Service σ) (backend : σ) (fileId : String) (credentials : Credentials)
    (requested : ByteRange) (limit : Nat) (events : List LifeEvent) :
    let life := (Life.start fileId credentials requested limit backend).run service events
    (∀ event, Relation.ReflTransGen StreamState.Moves life.stream.state (life.perform service event).stream.state) ∧
    (life.stream.state.isTerminal = true →
      life.stream.holding = .released ∧ life.stream.downloads = [] ∧
      (∀ answered, life.perform service (.poll answered) = { life with found := life.found ++ [.ended] }) ∧
      life.perform service .cancel = life ∧ ∀ event, life.perform service (.task event) = life) ∧
    Life.Brings life.stream.state life.found ∧
    (∀ event, (∃ error, (life.perform service event).found = life.found ++ [.item (.error error)]) ↔
      life.stream.state ≠ .failed ∧ (life.perform service event).stream.state = .failed) ∧
    (∀ fetch, life.stream.holding = .fetching fetch → life.stream.Selected fetch life.consumed) ∧
    (life.stream.state = .completed → ∃ layout, life.stream.layout = some layout ∧
      life.consumed.map (·.chunk) = Layout.overlapping layout.chunks life.stream.range ∧
      ∀ task ∈ life.consumed, task.Delivered) ∧
    (∀ event fetch, life.stream.holding = .fetching fetch →
      (life.perform service event).stream.state.isTerminal = true →
        (life.perform service event).backend = (fetch.abandon service life.backend).2) ∧
    (∀ event, life.stream.offset ≤ (life.perform service event).stream.offset) ∧
    ((∀ answered, .poll answered ∉ events) → life.backend = backend) ∧
    (life.stream.range.start = requested.start ∧ life.stream.range.last = requested.last) ∧
    let dropped := life.stream.dropWith service life.backend
    dropped.2 = (life.stream.downloads.forM service.abandoned life.backend).2 ∧ dropped.1.downloads = [] ∧
      (dropped.1.state = .idle ∨ dropped.1.state.isTerminal = true) ∧
      Relation.ReflTransGen StreamState.Moves life.stream.state dropped.1.state := by
  intro life
  have hlawful : life.Lawful requested :=
    (Life.lawful_start fileId credentials requested limit backend).run service events
  refine ⟨fun event => (hlawful.keeps service event).moves, hlawful.past service, hlawful.brings,
    fun event => (hlawful.keeps service event).fails, fun _ => hlawful.selected, hlawful.consumed,
    fun event => (hlawful.keeps service event).abandons, fun event => (hlawful.keeps service event).offset_le,
    fun hunpolled => ?_, ⟨hlawful.start_eq, hlawful.last_eq⟩, hlawful.stage.dropWith service life.backend⟩
  have hholding : ∀ fetch,
      (Life.start fileId credentials requested limit backend).stream.holding ≠ .fetching fetch := by
    intro fetch hfetch
    rw [show (Life.start fileId credentials requested limit backend).stream.holding = .unopened from rfl] at hfetch
    simp at hfetch
  exact Life.backend_run service _ hholding hunpolled

/-- A depot with a file of two chunks, all bytes of which are the same. -/
def Depot.sample : Depot :=
  { files := ⟨[("f", ⟨{}, "none", [⟨2, [7, 7], 0, false⟩, ⟨3, [7, 7, 7], 0, false⟩], none⟩)]⟩ }

namespace Life

/-- The events by which a stream of one chunk is opened and has its download in flight. -/
def opening : List LifeEvent := [.poll true, .task (.request 0 0)]

/-- The events by which it then comes to its end. -/
def closing : List LifeEvent := [.task (.deliver 0), .task (.decode 0), .poll true, .poll true]

/-- The life of a stream of the second byte of the file of two chunks. -/
def sample (events : List LifeEvent) : Life Depot :=
  run Depot.service (start "f" (.bearer "t") ⟨1, some 1, false⟩ 1 Depot.sample) events

end Life

/-- The fetch of the stream in the middle of its download. -/
def Life.underWay : Fetch :=
  ⟨⟨⟨"f", none, .none, [⟨1, 0, 2, "local://f/0"⟩, ⟨2, 2, 3, "local://f/1"⟩], 5⟩, none⟩, some 0,
    [⟨⟨1, 0, 2, "local://f/0"⟩, .downloading ⟨.payload [7, 7], 0, true⟩⟩]⟩

/-- A stream that is left to itself brings its fragment and is completed, having consumed the one chunk that it selects;
to cancel it then changes nothing. One that is cancelled while its download is in flight abandons it, so that the depot
has none in flight any more, and its polls find the end. -/
theorem stream_lifeCycle_sample :
    (Life.sample (Life.opening ++ Life.closing)).found = [.pending, .item (.ok ⟨"f", 1, 1, [7]⟩), .ended] ∧
      (Life.sample (Life.opening ++ Life.closing)).consumed.map (·.chunk) = [⟨1, 0, 2, "local://f/0"⟩] ∧
      (Life.sample (Life.opening ++ Life.closing)).perform Depot.service .cancel =
        Life.sample (Life.opening ++ Life.closing) ∧
      (Life.sample Life.opening).backend.tally.inFlight = 1 ∧
      (Life.sample (Life.opening ++ [.cancel])).stream.state = .cancelled ∧
      (Life.sample (Life.opening ++ [.cancel])).backend.tally.inFlight = 0 ∧
      ∀ answered, (Life.sample (Life.opening ++ [.cancel])).perform Depot.service (.poll answered) =
        { Life.sample (Life.opening ++ [.cancel]) with
          found := (Life.sample (Life.opening ++ [.cancel])).found ++ [.ended] } := by
  -- The stream that is left to itself.
  obtain ⟨-, hpast, -, -, -, hcompleted, -⟩ :=
    stream_lifeCycle Depot.service Depot.sample "f" (.bearer "t") ⟨1, some 1, false⟩ 1 (Life.opening ++ Life.closing)
  obtain ⟨layout, hlayout, hconsumed, -⟩ := hcompleted (by cbv)
  have hlaid : (Life.sample (Life.opening ++ Life.closing)).stream.layout = some Life.underWay.file.layout := by cbv
  obtain rfl : Life.underWay.file.layout = layout := Option.some.inj (hlaid.symm.trans hlayout)
  obtain ⟨-, -, -, hagain, -⟩ := hpast (by cbv)
  -- The stream that is cancelled.
  obtain ⟨-, -, -, -, -, -, habandons, -⟩ :=
    stream_lifeCycle Depot.service Depot.sample "f" (.bearer "t") ⟨1, some 1, false⟩ 1 Life.opening
  have hfetching : (Life.sample Life.opening).stream.holding = .fetching Life.underWay := by cbv
  have hlast := habandons .cancel Life.underWay hfetching (by cbv)
  obtain ⟨-, hstopped, -⟩ :=
    stream_lifeCycle Depot.service Depot.sample "f" (.bearer "t") ⟨1, some 1, false⟩ 1 (Life.opening ++ [.cancel])
  obtain ⟨-, -, hpolls, -⟩ := hstopped (by cbv)
  refine ⟨?_, hconsumed.trans ?_, hagain, ?_, ?_, (congrArg (·.tally.inFlight) hlast).trans ?_, hpolls⟩
  all_goals cbv

end Reassembly
