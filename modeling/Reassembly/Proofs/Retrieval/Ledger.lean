import Reassembly.Proofs.LifeCycle
import Reassembly.Proofs.Retrieval.Operation

/-!
# What operations ask for

An operation has a plan: the chunks that it is to download, once it is known which these are. What has been asked
of the service beyond the look-up, and what can still be asked for, is together the plan at any time. Tasks that
wait for their requests hold what can still be asked for, and after the end those that are aborted and not dropped yet
do; so nothing is asked for twice, and all of the plan has been asked for when no task has waited at the end. What an
aborted task would have asked for is lost when it is dropped first.
-/

namespace Reassembly

open List (Perm Subperm)

variable {σ γ : Type} {first record : List Question} {plan : Except RetrievalError (List Chunk)}
  {left rest : List Chunk}

/-- After some first questions, chunks of a plan have been asked for, and those that are left have not. -/
def Drawn (first : List Question) (plan : Except RetrievalError (List Chunk)) (left : List Chunk)
    (record : List Question) : Prop :=
  ∃ selected asked, plan = .ok selected ∧ Perm (asked ++ left) selected ∧ record = first ++ asked.map .ofChunk

/-- Nothing has been asked for but some first questions, or chunks of a plan have; those that are neither asked for nor
left are lost. -/
inductive Ledger (first : List Question) (plan : Except RetrievalError (List Chunk)) (left : List Chunk)
    (record : List Question) : Prop
  | bare (nothing : left = []) (only : record = first)
  | drawn {lost : List Chunk} (drawn : Drawn first plan (left ++ lost) record)

/-- What has been asked for in the end is right, and all of a plan if the operation has succeeded. -/
structure Balanced (first : List Question) (plan : Except RetrievalError (List Chunk)) (record : List Question)
    (succeeded : Prop) : Prop where
  ledger : ∃ left, Ledger first plan left record
  thorough : succeeded → Drawn first plan [] record

namespace Drawn

/-- At first all of a plan is left. -/
theorem start {selected : List Chunk} (h : plan = .ok selected) : Drawn first plan selected first :=
  ⟨selected, [], h, Perm.refl _, by simp⟩

/-- What is left may be asked for. -/
theorem draw (h : Drawn first plan left record) {chunks : List Chunk} (hperm : Perm (chunks ++ rest) left) :
    Drawn first plan rest (record ++ chunks.map .ofChunk) := by
  obtain ⟨selected, asked, hplan, hselected, rfl⟩ := h
  refine ⟨selected, asked ++ chunks, hplan, ?_, by rw [List.map_append, List.append_assoc]⟩
  rw [List.append_assoc]
  exact (hperm.append_left asked).trans hselected

end Drawn

/-- All that has not been asked for is left. -/
theorem Drawn.ledger (h : Drawn first plan left record) : Ledger first plan left record :=
  .drawn (show Drawn first plan (left ++ []) record from (List.append_nil left).symm ▸ h)

/-- If some of what is left is asked for, and some is lost, the ledger goes on. -/
theorem Ledger.draw (h : Ledger first plan left record) {chunks : List Chunk} (hless : Subperm (chunks ++ rest) left) :
    Ledger first plan rest (record ++ chunks.map .ofChunk) := by
  cases h with
  | @drawn lost drawn =>
    obtain ⟨some, hperm, hsublist⟩ := hless
    obtain ⟨more, hmore⟩ := hsublist.exists_perm_append
    have hleft : Perm (chunks ++ (rest ++ (more ++ lost))) (left ++ lost) := by
      rw [← List.append_assoc, ← List.append_assoc]
      exact ((hperm.symm.append_right more).trans hmore.symm).append_right lost
    exact .drawn (drawn.draw hleft)
  | bare nothing only =>
    rw [nothing] at hless
    obtain ⟨rfl, rfl⟩ := List.append_eq_nil_iff.mp (List.subperm_nil.mp hless)
    exact .bare rfl (by rw [only, List.map_nil, List.append_nil])

/-- Where a record is right, it is some first questions and questions for chunks of the plan, for all of them in the
end if the operation has succeeded. -/
theorem Balanced.exists_asked {succeeded : Prop} (h : Balanced first plan record succeeded) :
    ∃ asked : List Chunk, record = first ++ asked.map .ofChunk ∧
      (asked ≠ [] ∨ succeeded → ∃ selected, plan = .ok selected ∧ List.Subperm asked selected ∧
        (succeeded → Perm asked selected)) := by
  by_cases hsuccess : succeeded
  · obtain ⟨selected, asked, hplan, hperm, hrecord⟩ := h.thorough hsuccess
    rw [List.append_nil] at hperm
    exact ⟨asked, hrecord, fun _ => ⟨selected, hplan, hperm.subperm, fun _ => hperm⟩⟩
  · obtain ⟨left, hledger⟩ := h.ledger
    cases hledger with
    | bare _ only => exact ⟨[], by rw [only, List.map_nil, List.append_nil], by simp [hsuccess]⟩
    | @drawn lost drawn =>
      obtain ⟨selected, asked, hplan, hperm, hrecord⟩ := drawn
      exact ⟨asked, hrecord, fun _ => ⟨selected, hplan,
        (List.sublist_append_left asked (left ++ lost)).subperm.trans hperm.subperm, fun h => absurd h hsuccess⟩⟩

namespace FetchTask

/-- Taking fragments takes no task that waits. -/
theorem unasked_takeFragment (range : ByteRange) (tasks : List FetchTask) :
    unasked (FragmentStream.takeFragment range tasks).2 = unasked tasks := by
  fun_induction FragmentStream.takeFragment range tasks with
  | case1 => rfl
  | case2 chunk block rest fragment hempty ih => exact ih
  | case3 => rfl
  | case4 => rfl
  | case5 => rfl

/-- There are no tasks left when no fragment is to be taken any more. -/
theorem takeFragment_ended {range : ByteRange} {tasks : List FetchTask}
    (h : (FragmentStream.takeFragment range tasks).1 = .ended) :
    (FragmentStream.takeFragment range tasks).2 = [] := by
  fun_induction FragmentStream.takeFragment range tasks with
  | case1 => rfl
  | case2 chunk block rest fragment hempty ih => exact ih h
  | case3 | case4 | case5 => simp at h

end FetchTask

/-- The chunks of the tasks of a fetch, if there is one, that have not begun their downloads. -/
def Fetch.unaskedOf (held : Option Fetch) : List Chunk := held.elim [] fun fetch => FetchTask.unasked fetch.tasks

namespace Undertaking

/-- The chunks of the aborted tasks that have not begun their downloads and are not dropped yet. -/
def stragglers (undertaking : Undertaking γ σ) : List Chunk := Fetch.unaskedOf undertaking.left

/-- As long as no fetch was let go of, there are no stragglers. -/
theorem stragglers_of_none {undertaking : Undertaking γ σ} (h : undertaking.left = none) :
    undertaking.stragglers = [] := by
  rw [stragglers, h]
  rfl

/-- When the fetch of an operation is let go of, its tasks that wait become stragglers. -/
theorem stragglers_release {undertaking : Undertaking γ σ} (h : undertaking.left = none) (held : Option Fetch)
    (stage : γ) : (undertaking.release held stage).stragglers = Fetch.unaskedOf held := by
  rw [stragglers, release, h, Option.or_none]

/-- Nothing happens to a fetch before it is let go of. -/
theorem linger_of_none (service : Service σ) {undertaking : Undertaking γ σ} (h : undertaking.left = none)
    (event : CrewEvent) : undertaking.linger service event = undertaking := by
  rw [linger, h]

/-- Of a fetch that is let go of, only stragglers ask, each for its chunk. -/
theorem linger_cases (service : Service σ) (undertaking : Undertaking γ (σ × List Question)) (event : CrewEvent) :
    (undertaking.linger service.recorded event).stage = undertaking.stage ∧
      ∃ chunks : List Chunk,
        (undertaking.linger service.recorded event).backend.2 = undertaking.backend.2 ++ chunks.map .ofChunk ∧
          Subperm (chunks ++ (undertaking.linger service.recorded event).stragglers) undertaking.stragglers := by
  obtain ⟨stage, backend, left⟩ := undertaking
  cases left with
  | none => exact ⟨rfl, [], by simp [linger], (Perm.refl _).subperm⟩
  | some fetch => exact ⟨rfl, Crew.asks_leaving service (Crew.cancel ⟨fetch, [], backend⟩) rfl event⟩

/-- Without stragglers nothing is asked for, and there are none later. -/
theorem linger_of_nil (service : Service σ) {undertaking : Undertaking γ (σ × List Question)}
    (h : undertaking.stragglers = []) (event : CrewEvent) :
    (undertaking.linger service.recorded event).stragglers = [] ∧
      (undertaking.linger service.recorded event).backend.2 = undertaking.backend.2 := by
  obtain ⟨-, chunks, hrecord, hless⟩ := undertaking.linger_cases service event
  rw [h] at hless
  obtain ⟨rfl, hnone⟩ := List.append_eq_nil_iff.mp (List.subperm_nil.mp hless)
  exact ⟨hnone, by rw [hrecord, List.map_nil, List.append_nil]⟩

end Undertaking

namespace FragmentStream

/-- A poll of a stream that is fetching leaves the tasks alone that wait, or ends the stream. -/
theorem pollFetch_cases (stream : FragmentStream) (fetch : Fetch) :
    ((stream.pollFetch fetch).2.state = stream.state ∧
      ∃ after, (stream.pollFetch fetch).2.holding = .fetching after ∧
        FetchTask.unasked after.tasks = FetchTask.unasked fetch.tasks) ∨
    ((stream.pollFetch fetch).2.state = .completed ∧ (stream.pollFetch fetch).2.holding = .released ∧
      FetchTask.unasked fetch.tasks = []) ∨
    ((stream.pollFetch fetch).2.state = .failed ∧ (stream.pollFetch fetch).2.holding = .released ∧
      ∃ error, (stream.pollFetch fetch).1 = .item (.error error)) := by
  have hunasked := FetchTask.unasked_takeFragment stream.range fetch.tasks
  have hended := @FetchTask.takeFragment_ended stream.range fetch.tasks
  rw [pollFetch]
  generalize takeFragment stream.range fetch.tasks = found at hunasked hended
  obtain ⟨poll, tasks⟩ := found
  cases poll with
  | pending => exact .inl ⟨rfl, _, rfl, hunasked⟩
  | ended =>
    obtain rfl : tasks = [] := hended rfl
    exact .inr (.inl ⟨rfl, rfl, hunasked.symm⟩)
  | item result =>
    cases result with
    | ok fragment => exact .inl ⟨rfl, _, rfl, hunasked⟩
    | error error => exact .inr (.inr ⟨rfl, rfl, _, rfl⟩)

/-- The chunks that a stream is to download once its look-up is answered. -/
def planned (stream : FragmentStream) (answer : Except ServiceError Manifest) : Except RetrievalError (List Chunk) :=
  (stream.opening answer).map fun opened => FetchTask.unasked opened.2.tasks

end FragmentStream

namespace Course

open FragmentStream

variable {idle : FragmentStream} {answer : Except ServiceError Manifest}
  {undertaking : Undertaking Course (σ × List Question)}

/-- How the course of a stream stands after its first poll. -/
inductive Stands (first : List Question) (plan : Except RetrievalError (List Chunk)) (idle : FragmentStream)
    (answer : Except ServiceError Manifest) (undertaking : Undertaking Course (σ × List Question)) : Prop
  | asked (live : undertaking.stage.stream.state.isTerminal = false)
      (stream : undertaking.stage.stream.polling = idle.polling) (known : undertaking.stage.answer = some answer)
      (plan_eq : plan = idle.planned answer) (calm : undertaking.left = none)
      (only : undertaking.backend.2 = first)
  | fetching {fetch : Fetch} (state : undertaking.stage.stream.state = .streaming)
      (holding : undertaking.stage.stream.holding = .fetching fetch) (calm : undertaking.left = none)
      (drawn : Drawn first plan (FetchTask.unasked fetch.tasks) undertaking.backend.2)
  | ended (state : undertaking.stage.stream.state.isTerminal = true)
      (holding : undertaking.stage.stream.holding = .released)
      (ledger : Ledger first plan undertaking.stragglers undertaking.backend.2)
      (completed : undertaking.stage.stream.state = .completed →
        undertaking.stragglers = [] ∧ Drawn first plan [] undertaking.backend.2)
      (failed : undertaking.stage.stream.state = .failed →
        ∃ error, .error error ∈ yielded undertaking.stage.found)

/-- What a poll of a stream that is not open comes to. -/
inductive Unopened (idle : FragmentStream) (answer : Except ServiceError Manifest) :
    (answered : Bool) → Poll Block × FragmentStream → Prop
  | unanswered : Unopened idle answer false (.pending, idle.polling)
  | refused {error} (opening : idle.opening answer = .error error) :
      Unopened idle answer true (idle.polling.fail error)
  | opened {range fetch} (opening : idle.opening answer = .ok (range, fetch)) :
      Unopened idle answer true
        (FragmentStream.pollFetch { idle.polling with range, layout := some fetch.file.layout } fetch)

/-- A poll of a stream that is not open finds the look-up unanswered, or is refused, or opens the stream. -/
theorem unopened_poll (h : idle.holding = .unopened) {stream : FragmentStream} (hlive : stream.state.isTerminal = false)
    (hstream : stream.polling = idle.polling) (answered : Bool) :
    Unopened idle answer answered (stream.poll (if answered then some answer else none)) := by
  have hholding : stream.holding = .unopened := (congrArg FragmentStream.holding hstream).trans h
  have hopening : stream.opening answer = idle.opening answer := by
    show stream.polling.opening answer = idle.polling.opening answer
    rw [hstream]
  rw [poll_eq hlive, hholding, hstream]
  cases answered with
  | false => exact .unanswered
  | true =>
    simp only [if_true, hopening]
    cases hopen : idle.opening answer with
    | error error => exact .refused hopen
    | ok opened => exact .opened hopen

/-- A stream that is not open asks for its manifest when it is first polled, and goes on from there. -/
theorem perform_poll_of_unopened (service : Service σ) {stream : FragmentStream} (h : stream.isUnopened = true)
    (backend : σ) (answered : Bool) :
    perform service ⟨⟨stream, none, []⟩, backend, none⟩ (.poll answered) =
      perform service ⟨⟨stream, some (service.lookup stream.fileId backend).1, []⟩,
        (service.lookup stream.fileId backend).2, none⟩ (.poll answered) := by
  have hasks := ask_of_unopened service ⟨stream, none, []⟩ h rfl backend
  have hknown := ask_of_known service ⟨stream, some (service.lookup stream.fileId backend).1, []⟩ (.inr rfl)
    (service.lookup stream.fileId backend).2
  simp only [perform, hasks, hknown]
  rfl

/-- As long as a stream does not fetch, it has no tasks that could make a step. -/
theorem perform_task_of_holding (service : Service σ) {undertaking : Undertaking Course σ}
    (h : ∀ fetch, undertaking.stage.stream.holding ≠ .fetching fetch) (step : TaskStep) :
    perform service undertaking (.task step) = undertaking := by
  rw [perform, onFetch_of_holding h]

/-- A stream that does not fetch has no fetch. -/
theorem fetch?_of_holding {stream : FragmentStream} (h : ∀ fetch, stream.holding ≠ .fetching fetch) :
    stream.fetch? = none := by
  rw [fetch?]
  split
  · next fetch hholding => exact absurd hholding (h fetch)
  · rfl

/-- What a poll makes of the course of a stream that asks for nothing. -/
theorem perform_poll_of_known (service : Service σ) {undertaking : Undertaking Course σ}
    (h : undertaking.stage.stream.isUnopened = false ∨ undertaking.stage.answer.isSome = true) {answered : Bool}
    {found : Poll Block × FragmentStream}
    (hfound : undertaking.stage.stream.poll (undertaking.stage.known answered) = found) :
    perform service undertaking (.poll answered) =
      undertaking.turn undertaking.stage.stream.fetch?
        ⟨found.2, undertaking.stage.answer, undertaking.stage.found ++ [found.1]⟩ found.2.state.isTerminal := by
  simp only [perform, ask_of_known service _ h, advance, hfound]

/-- How the course of a stream stands that ends without a fetch that it had. -/
theorem stands_release {held : Option Fetch} {after : Course} (state : after.stream.state.isTerminal = true)
    (holding : after.stream.holding = .released)
    (ledger : Ledger first plan (undertaking.release held after).stragglers undertaking.backend.2)
    (completed : after.stream.state = .completed →
      (undertaking.release held after).stragglers = [] ∧ Drawn first plan [] undertaking.backend.2)
    (failed : after.stream.state = .failed → ∃ error, .error error ∈ yielded after.found) :
    Stands first plan idle answer (undertaking.release held after) :=
  .ended state holding ledger completed failed

/-- How the course of a stream stands after a poll with a fetch, which it had before or has just begun. -/
theorem stands_pollFetch {stream : FragmentStream} (hstate : stream.state = .streaming) {fetch : Fetch}
    {held : Option Fetch} (hheld : held = none ∨ held = some fetch) (hcalm : undertaking.left = none)
    (hdrawn : Drawn first plan (FetchTask.unasked fetch.tasks) undertaking.backend.2)
    (hledger : Ledger first plan (Fetch.unaskedOf held) undertaking.backend.2)
    (known : Option (Except ServiceError Manifest)) (found : List (Poll Block)) :
    Stands first plan idle answer (undertaking.turn held
      ⟨(stream.pollFetch fetch).2, known, found ++ [(stream.pollFetch fetch).1]⟩
      (stream.pollFetch fetch).2.state.isTerminal) := by
  have hleft := undertaking.stragglers_release hcalm held
    ⟨(stream.pollFetch fetch).2, known, found ++ [(stream.pollFetch fetch).1]⟩
  rw [← hleft] at hledger
  rcases stream.pollFetch_cases fetch with ⟨hsame, after, hholding, hunasked⟩ | ⟨hdone, hholding, hunasked⟩ |
    ⟨hfailed, hholding, error, herror⟩
  · rw [hstate] at hsame
    rw [hsame]
    exact .fetching hsame hholding hcalm (hunasked ▸ hdrawn)
  · have hterminal : (stream.pollFetch fetch).2.state.isTerminal = true := by rw [hdone]; rfl
    rw [hterminal]
    refine stands_release hterminal hholding hledger (fun _ => ⟨?_, hunasked ▸ hdrawn⟩) (by simp [hdone])
    rw [hleft]
    rcases hheld with rfl | rfl
    · rfl
    · exact hunasked
  · have hterminal : (stream.pollFetch fetch).2.state.isTerminal = true := by rw [hfailed]; rfl
    rw [hterminal]
    refine stands_release hterminal hholding hledger (by simp [hfailed]) fun _ => ⟨error, ?_⟩
    rw [herror, yielded, List.filterMap_append]
    simp

variable (hholding : idle.holding = .unopened)

include hholding in
/-- A course that has asked for its manifest holds no fetch. -/
theorem holding_of_asked (hstream : undertaking.stage.stream.polling = idle.polling) :
    undertaking.stage.stream.holding = .unopened :=
  (congrArg FragmentStream.holding hstream).trans hholding

/-- Wherever a stream stands, it has asked for its manifest or does not need it any more. -/
theorem Stands.asks_nothing (h : Stands first plan idle answer undertaking) :
    undertaking.stage.stream.isUnopened = false ∨ undertaking.stage.answer.isSome = true := by
  cases h with
  | asked live stream known plan_eq calm only => exact .inr (by rw [known]; rfl)
  | fetching state holding calm drawn => exact .inl (by rw [isUnopened, holding])
  | ended state holding ledger completed failed => exact .inl (by rw [isUnopened, holding])

include hholding in
/-- A course that has asked for its manifest has no fetch. -/
theorem not_fetching_of_asked (hstream : undertaking.stage.stream.polling = idle.polling) (fetch : Fetch) :
    undertaking.stage.stream.holding ≠ .fetching fetch := by
  simp [holding_of_asked hholding hstream]

include hholding in
/-- A step of a task leaves the course of a stream where it stands. -/
theorem Stands.work (h : Stands first plan idle answer undertaking) (service : Service σ) (step : TaskStep) :
    Stands first plan idle answer (perform service.recorded undertaking (.task step)) := by
  cases h with
  | @fetching fetch state holding calm drawn =>
    obtain ⟨chunks, hrecord, hperm⟩ := (fetch.works_workWith service.recorded step undertaking.backend).asks
    rw [Course.perform, onFetch_of_fetching holding]
    exact .fetching state rfl calm (hrecord ▸ drawn.draw hperm)
  | asked live stream known plan_eq calm only =>
    rw [perform_task_of_holding service.recorded (not_fetching_of_asked hholding stream)]
    exact .asked live stream known plan_eq calm only
  | ended state holding ledger completed failed =>
    rw [perform_task_of_holding service.recorded (by simp [holding])]
    exact .ended state holding ledger completed failed

include hholding in
/-- A poll leads the course of a stream to where it can stand. -/
theorem Stands.poll (h : Stands first plan idle answer undertaking) (service : Service σ) (answered : Bool) :
    Stands first plan idle answer (perform service.recorded undertaking (.poll answered)) := by
  have hasks := h.asks_nothing
  cases h with
  | asked live stream known plan_eq calm only =>
    have hheld := fetch?_of_holding (not_fetching_of_asked hholding stream)
    have hknown : undertaking.stage.known answered = if answered then some answer else none := by
      rw [Course.known, known]
    rw [perform_poll_of_known service.recorded hasks rfl, hknown, hheld]
    have hunopened : Unopened idle answer answered _ := unopened_poll hholding live stream answered
    generalize undertaking.stage.stream.poll (if answered then some answer else none) = found at hunopened
    cases hunopened with
    | unanswered => exact .asked rfl rfl known plan_eq calm only
    | @refused error opening =>
      refine stands_release rfl rfl (.bare (undertaking.stragglers_of_none calm) only) (by simp [fail, finish])
        fun _ => ?_
      exact ⟨.stream idle.polling.offset error, by simp [yielded, fail]⟩
    | opened opening =>
      -- Now the plan is known, and all of it is left to be asked for.
      refine stands_pollFetch rfl (.inl rfl) calm ?_ (.bare rfl only) _ _
      rw [only]
      exact .start (by rw [plan_eq, planned, opening]; rfl)
  | @fetching fetch state holding calm drawn =>
    have hpoll : undertaking.stage.stream.poll (undertaking.stage.known answered) =
        undertaking.stage.stream.polling.pollFetch fetch := by
      rw [poll_eq (by rw [state]; rfl), holding]
    have hheld : undertaking.stage.stream.fetch? = some fetch := by rw [fetch?, holding]
    rw [perform_poll_of_known service.recorded hasks hpoll, hheld]
    exact stands_pollFetch rfl (.inr rfl) calm drawn drawn.ledger _ _
  | ended state holding ledger completed failed =>
    have hpoll : undertaking.stage.stream.poll (undertaking.stage.known answered) =
        (.ended, undertaking.stage.stream) := if_pos state
    rw [perform_poll_of_known service.recorded hasks hpoll, state, fetch?_of_holding (by simp [holding])]
    refine stands_release state holding ledger completed fun hfailed => ?_
    obtain ⟨error, hmem⟩ := failed hfailed
    refine ⟨error, ?_⟩
    show _ ∈ yielded (undertaking.stage.found ++ [.ended])
    rw [yielded, List.filterMap_append]
    exact List.mem_append_left _ hmem

include hholding in
/-- A cancellation ends the course of a stream, if nothing has ended it before. -/
theorem Stands.cancel (h : Stands first plan idle answer undertaking) (service : Service σ) :
    Stands first plan idle answer (perform service.recorded undertaking .cancel) := by
  rw [Course.perform]
  cases h with
  | asked live stream known plan_eq calm only =>
    rw [fetch?_of_holding (not_fetching_of_asked hholding stream), cancel_of_live live]
    exact stands_release rfl rfl (.bare (undertaking.stragglers_of_none calm) only) (by simp [finish])
      (by simp [finish])
  | @fetching fetch state holding calm drawn =>
    have hheld : undertaking.stage.stream.fetch? = some fetch := by rw [fetch?, holding]
    rw [hheld, cancel_of_live (by rw [state]; rfl)]
    exact stands_release rfl rfl drawn.ledger (by simp [finish]) (by simp [finish])
  | ended state holding ledger completed failed =>
    rw [fetch?_of_holding (by simp [holding]), cancel_of_terminal state]
    exact stands_release state holding ledger completed failed

/-- What happens to a fetch that was let go of leaves the course of a stream where it stands. -/
theorem Stands.linger (h : Stands first plan idle answer undertaking) (service : Service σ) (event : CrewEvent) :
    Stands first plan idle answer (perform service.recorded undertaking (.linger event)) := by
  rw [Course.perform]
  cases h with
  | asked live stream known plan_eq calm only =>
    rw [undertaking.linger_of_none service.recorded calm]
    exact .asked live stream known plan_eq calm only
  | @fetching fetch state holding calm drawn =>
    rw [undertaking.linger_of_none service.recorded calm]
    exact .fetching state holding calm drawn
  | ended state holding ledger completed failed =>
    obtain ⟨hstage, chunks, hrecord, hless⟩ := undertaking.linger_cases service event
    refine .ended (hstage ▸ state) (hstage ▸ holding) (hrecord ▸ ledger.draw hless) (fun hcompleted => ?_)
      (hstage ▸ failed)
    obtain ⟨hnone, hdrawn⟩ := completed (hstage ▸ hcompleted)
    obtain ⟨hstill, hsame⟩ := undertaking.linger_of_nil service hnone event
    exact ⟨hstill, hsame.symm ▸ hdrawn⟩

include hholding in
/-- An event leads the course of a stream to where it can stand. -/
theorem Stands.perform (h : Stands first plan idle answer undertaking) (service : Service σ) (event : OperationEvent) :
    Stands first plan idle answer (perform service.recorded undertaking event) := by
  cases event with
  | task step => exact h.work hholding service step
  | poll answered => exact h.poll hholding service answered
  | cancel => exact h.cancel hholding service
  | linger event => exact h.linger service event

include hholding in
/-- However the course of a stream stands after its first poll, so it stands after more events. -/
theorem Stands.events (h : Stands first plan idle answer undertaking) (service : Service σ)
    (events : List OperationEvent) :
    Stands first plan idle answer (events.foldl (Course.perform service.recorded) undertaking) :=
  Schedule.foldl_induction (motive := Stands first plan idle answer)
    (fun _ event hlater => hlater.perform hholding service event) events h

/-- Wherever the course of a stream stands, its record is right, and it has found an error if it has failed. -/
theorem Stands.balanced (h : Stands first plan idle answer undertaking) :
    Balanced first plan undertaking.backend.2 (undertaking.stage.stream.state = .completed) ∧
      (undertaking.stage.stream.state = .failed → ∃ error, .error error ∈ yielded undertaking.stage.found) := by
  cases h with
  | asked live stream known plan_eq calm only =>
    have hlive : ∀ state, undertaking.stage.stream.state = state → state.isTerminal = false := fun _ h => h ▸ live
    exact ⟨⟨⟨[], .bare rfl only⟩, fun h => absurd (hlive _ h) (by decide)⟩, fun h => absurd (hlive _ h) (by decide)⟩
  | fetching state holding calm drawn =>
    exact ⟨⟨⟨_, drawn.ledger⟩, by simp [state]⟩, by simp [state]⟩
  | ended state holding ledger completed failed => exact ⟨⟨⟨_, ledger⟩, fun hdone => (completed hdone).2⟩, failed⟩

/-- The course of a stream that has just asked for its manifest. -/
def awaiting (service : Service σ) (idle : FragmentStream) (backend : σ) : Undertaking Course (σ × List Question) :=
  ⟨⟨idle, some (service.lookup idle.fileId backend).1, []⟩,
    ((service.lookup idle.fileId backend).2, [.manifest idle.fileId]), none⟩

/-- A stream stands where it awaits the answer that it has asked for. -/
theorem stands_awaiting (hlive : idle.state.isTerminal = false) (service : Service σ) (backend : σ) :
    Stands [.manifest idle.fileId] (idle.planned (service.lookup idle.fileId backend).1) idle
      (service.lookup idle.fileId backend).1 (awaiting service idle backend) :=
  .asked hlive rfl rfl rfl rfl rfl

include hholding in
/-- A stream that is cancelled before it is polled stands at its end, without a question. -/
theorem stands_cancelled (hlive : idle.state.isTerminal = false) (service : Service σ) (backend : σ) :
    Stands [] (.error .shutDown) idle (service.lookup idle.fileId backend).1
      (perform service.recorded ⟨⟨idle, none, []⟩, (backend, []), none⟩ .cancel) := by
  rw [Course.perform, fetch?_of_holding (by simp [hholding])]
  simp only [cancel_of_live hlive]
  exact stands_release rfl rfl (.bare rfl rfl) (by simp [finish]) (by simp [finish])

include hholding in
/-- Before a stream is polled there are no tasks that could make a step. -/
theorem run_task (service : Service σ) (step : TaskStep) (rest : List OperationEvent) (backend : σ) :
    run service idle (.task step :: rest) backend = run service idle rest backend := by
  rw [run, List.foldl_cons, perform_task_of_holding service (by simp [hholding])]
  rfl

include hholding in
/-- With its first poll a stream asks for its manifest. -/
theorem run_poll (hlive : idle.state.isTerminal = false) (service : Service σ) (answered : Bool)
    (rest : List OperationEvent) (backend : σ) :
    run service.recorded idle (.poll answered :: rest) (backend, []) =
      (.poll answered :: rest).foldl (perform service.recorded) (awaiting service idle backend) := by
  have hunopened : idle.isUnopened = true := by rw [isUnopened, hholding, hlive]; rfl
  rw [run, List.foldl_cons, perform_poll_of_unopened service.recorded hunopened]
  rfl

/-- The record of a stream is right: it has asked for its manifest when it has been polled before it was cancelled,
and for the chunks that the plan then was for. -/
theorem balanced_run (hidle : idle.state = .idle) (hholding : idle.holding = .unopened) (service : Service σ)
    (events : List OperationEvent) (backend : σ) :
    Balanced (if OperationEvent.wake events then [.manifest idle.fileId] else [])
      (if OperationEvent.wake events then idle.planned (service.lookup idle.fileId backend).1 else .error .shutDown)
      (run service.recorded idle events (backend, [])).backend.2
      ((run service.recorded idle events (backend, [])).stage.stream.state = .completed) ∧
    ((run service.recorded idle events (backend, [])).stage.stream.state = .failed →
      ∃ error, .error error ∈ yielded (run service.recorded idle events (backend, [])).stage.found) := by
  have hlive : idle.state.isTerminal = false := by rw [hidle]; rfl
  induction events with
  | nil =>
    refine ⟨⟨⟨[], .bare rfl rfl⟩, fun hdone => ?_⟩, fun hfailed => ?_⟩
    · exact absurd (hidle.symm.trans hdone) (by decide)
    · exact absurd (hidle.symm.trans hfailed) (by decide)
  | cons event rest ih =>
    cases event with
    | task step =>
      rw [run_task hholding]
      exact ih
    | linger event => exact ih
    | poll answered =>
      rw [run_poll hholding hlive]
      exact ((stands_awaiting hlive service backend).events hholding service (.poll answered :: rest)).balanced
    | cancel =>
      exact ((stands_cancelled hholding hlive service backend).events hholding service rest).balanced

end Course

namespace Call

open FetchTask (unasked)

variable {undertaking : Undertaking Call (σ × List Question)}

/-- The chunks that a call is to download once its look-up is answered. -/
def planned (started : Except RetrievalError (Fetch ⊕ Nat)) : Except RetrievalError (List Chunk) :=
  started.map (Sum.elim (fun fetch => unasked fetch.tasks) fun _ => [])

/-- How a call stands after its first poll. -/
inductive Stands (first : List Question) (plan : Except RetrievalError (List Chunk))
    (undertaking : Undertaking Call (σ × List Question)) : Prop
  | asked {started} (stage : undertaking.stage = .asked started) (plan_eq : plan = planned started)
      (calm : undertaking.left = none) (only : undertaking.backend.2 = first)
  | joining {fetch blocks} (stage : undertaking.stage = .joining fetch blocks) (calm : undertaking.left = none)
      (drawn : Drawn first plan (unasked fetch.tasks) undertaking.backend.2)
  | ended {answer} (stage : undertaking.stage = .ended answer)
      (ledger : Ledger first plan undertaking.stragglers undertaking.backend.2)
      (succeeded : (Outcome.answered answer).Succeeds →
        undertaking.stragglers = [] ∧ Drawn first plan [] undertaking.backend.2)

/-- What a call comes to that joins a fetch and takes its next result. -/
inductive Joined (fetch : Fetch) : Call → Prop
  | goes {after blocks} (same : unasked after.tasks = unasked fetch.tasks) : Joined fetch (.joining after blocks)
  | ended {blocks} (empty : fetch.tasks = []) : Joined fetch (.ended (some (.blocks blocks)))
  | failed {error} : Joined fetch (.ended (some (.failed error)))

/-- Taking a result takes no task that waits. -/
theorem joined_receive (blocks : List Block) (fetch : Fetch) :
    Joined fetch (ofJoining (Joining.receive blocks fetch.next)) := by
  obtain ⟨file, permits, tasks⟩ := fetch
  rw [Fetch.next]
  cases tasks with
  | nil => exact .ended rfl
  | cons task rest =>
    obtain ⟨chunk, progress⟩ := task
    cases progress with
    | waiting | downloading | decoding => exact .goes rfl
    | done result =>
      cases result with
      | ok block => exact .goes rfl
      | error error => exact .failed

/-- How a call stands that ends without a fetch that it had. -/
theorem stands_release {held : Option Fetch} {answer : Option Answer}
    (ledger : Ledger first plan (undertaking.release held (ended answer)).stragglers undertaking.backend.2)
    (succeeded : (Outcome.answered answer).Succeeds →
      (undertaking.release held (ended answer)).stragglers = [] ∧ Drawn first plan [] undertaking.backend.2) :
    Stands first plan (undertaking.release held (ended answer)) :=
  .ended rfl ledger succeeded

/-- What a poll makes of a call that has begun. -/
theorem perform_poll_of_stage (service : Service σ) (start : StateM σ (Except RetrievalError (Fetch ⊕ Nat)))
    {undertaking : Undertaking Call σ} (h : undertaking.stage ≠ .unpolled) (answered : Bool) :
    perform service start undertaking (.poll answered) =
      undertaking.turn undertaking.stage.fetch? (undertaking.stage.advance answered)
        (undertaking.stage.advance answered).isOver := by
  have hask : undertaking.stage.ask start undertaking.backend = (undertaking.stage, undertaking.backend) := by
    cases hstage : undertaking.stage with
    | unpolled => exact absurd hstage h
    | asked | joining | ended => rfl
  simp only [perform, hask]

/-- As long as a call joins no fetch, it has no tasks that could make a step. -/
theorem perform_task_of_stage (service : Service σ) (start : StateM σ (Except RetrievalError (Fetch ⊕ Nat)))
    {undertaking : Undertaking Call σ} (h : ∀ fetch blocks, undertaking.stage ≠ .joining fetch blocks)
    (step : TaskStep) : perform service start undertaking (.task step) = undertaking := by
  rw [perform]
  cases hstage : undertaking.stage with
  | joining fetch blocks => exact absurd hstage (h fetch blocks)
  | unpolled | asked | ended => rfl

section Standing

variable (service : Service σ) (start : StateM (σ × List Question) (Except RetrievalError (Fetch ⊕ Nat)))

/-- A step of a task leaves a call where it stands. -/
theorem Stands.work (h : Stands first plan undertaking) (step : TaskStep) :
    Stands first plan (perform service.recorded start undertaking (.task step)) := by
  cases h with
  | @joining fetch blocks stage calm drawn =>
    obtain ⟨chunks, hrecord, hperm⟩ := (fetch.works_workWith service.recorded step undertaking.backend).asks
    simp only [perform, stage]
    exact .joining rfl calm (hrecord ▸ drawn.draw hperm)
  | asked stage plan_eq calm only =>
    rw [perform_task_of_stage service.recorded start (by simp [stage])]
    exact .asked stage plan_eq calm only
  | ended stage ledger succeeded =>
    rw [perform_task_of_stage service.recorded start (by simp [stage])]
    exact .ended stage ledger succeeded

/-- A poll leads a call to where it can stand. -/
theorem Stands.poll (h : Stands first plan undertaking) (answered : Bool) :
    Stands first plan (perform service.recorded start undertaking (.poll answered)) := by
  cases h with
  | @asked started stage plan_eq calm only =>
    rw [perform_poll_of_stage service.recorded start (by simp [stage]), stage]
    have hnone := undertaking.stragglers_of_none calm
    cases answered with
    | false => exact .asked rfl plan_eq calm only
    | true =>
      cases started with
      | error error => exact stands_release (.bare hnone only) False.elim
      | ok goal =>
        cases goal with
        | inl fetch => exact .joining rfl calm (only ▸ .start plan_eq)
        | inr size => exact stands_release (.bare hnone only) fun _ => ⟨hnone, only ▸ .start plan_eq⟩
  | @joining fetch blocks stage calm drawn =>
    rw [perform_poll_of_stage service.recorded start (by simp [stage]), stage]
    have hjoined := joined_receive blocks fetch
    rw [advance]
    generalize ofJoining (Joining.receive blocks fetch.next) = after at hjoined
    cases hjoined with
    | goes same => exact .joining rfl calm (same ▸ drawn)
    | ended empty =>
      have hnone : unasked fetch.tasks = [] := by rw [empty]; rfl
      exact stands_release drawn.ledger fun _ => ⟨hnone, hnone ▸ drawn⟩
    | failed => exact stands_release drawn.ledger False.elim
  | @ended answer stage ledger succeeded =>
    rw [perform_poll_of_stage service.recorded start (by simp [stage]), stage]
    exact stands_release ledger succeeded

/-- A cancellation ends a call, if nothing has ended it before. -/
theorem Stands.cancel (h : Stands first plan undertaking) :
    Stands first plan (perform service.recorded start undertaking .cancel) := by
  rw [perform]
  cases h with
  | asked stage plan_eq calm only =>
    rw [stage]
    exact stands_release (.bare (undertaking.stragglers_of_none calm) only) False.elim
  | joining stage calm drawn =>
    rw [stage]
    exact stands_release drawn.ledger False.elim
  | ended stage ledger succeeded =>
    rw [stage]
    exact stands_release ledger succeeded

/-- What happens to a fetch that was let go of leaves a call where it stands. -/
theorem Stands.linger (h : Stands first plan undertaking) (event : CrewEvent) :
    Stands first plan (perform service.recorded start undertaking (.linger event)) := by
  rw [perform]
  cases h with
  | asked stage plan_eq calm only =>
    rw [undertaking.linger_of_none service.recorded calm]
    exact .asked stage plan_eq calm only
  | joining stage calm drawn =>
    rw [undertaking.linger_of_none service.recorded calm]
    exact .joining stage calm drawn
  | ended stage ledger succeeded =>
    obtain ⟨hstage, chunks, hrecord, hless⟩ := undertaking.linger_cases service event
    refine .ended (hstage.trans stage) (hrecord ▸ ledger.draw hless) fun hanswer => ?_
    obtain ⟨hnone, hdrawn⟩ := succeeded hanswer
    obtain ⟨hstill, hsame⟩ := undertaking.linger_of_nil service hnone event
    exact ⟨hstill, hsame.symm ▸ hdrawn⟩

/-- An event leads a call to where it can stand. -/
theorem Stands.perform (h : Stands first plan undertaking) (event : OperationEvent) :
    Stands first plan (perform service.recorded start undertaking event) := by
  cases event with
  | task step => exact h.work service start step
  | poll answered => exact h.poll service start answered
  | cancel => exact h.cancel service start
  | linger event => exact h.linger service start event

/-- However a call stands after its first poll, so it stands after more events. -/
theorem Stands.events (h : Stands first plan undertaking) (events : List OperationEvent) :
    Stands first plan (events.foldl (Call.perform service.recorded start) undertaking) :=
  Schedule.foldl_induction (motive := Stands first plan)
    (fun _ event hlater => hlater.perform service start event) events h

end Standing

/-- Wherever a call stands, its record is right. -/
theorem Stands.balanced (h : Stands first plan undertaking) :
    Balanced first plan undertaking.backend.2 (Outcome.answered undertaking.stage.answer?).Succeeds := by
  cases h with
  | asked stage plan_eq calm only =>
    rw [stage]
    exact ⟨⟨[], .bare rfl only⟩, False.elim⟩
  | joining stage calm drawn =>
    rw [stage]
    exact ⟨⟨_, drawn.ledger⟩, False.elim⟩
  | ended stage ledger succeeded =>
    rw [stage]
    exact ⟨⟨_, ledger⟩, fun hanswer => (succeeded hanswer).2⟩

/-- A call stands where it awaits the answer that it has asked for. -/
theorem stands_asked (begun : Except RetrievalError (Fetch ⊕ Nat) × σ × List Question) :
    Stands begun.2.2 (planned begun.1) ⟨asked begun.1, begun.2, none⟩ := .asked rfl rfl rfl rfl

/-- A call that is cancelled before it is polled stands at its end, without a question. -/
theorem stands_cancelled (service : Service σ)
    (start : StateM (σ × List Question) (Except RetrievalError (Fetch ⊕ Nat))) (backend : σ) :
    Stands [] (.error .shutDown) (perform service.recorded start ⟨unpolled, (backend, []), none⟩ .cancel) :=
  stands_release (.bare rfl rfl) False.elim

/-- Before a call is polled there are no tasks that could make a step. -/
theorem run_task (service : Service σ) (start : StateM σ (Except RetrievalError (Fetch ⊕ Nat))) (step : TaskStep)
    (rest : List OperationEvent) (backend : σ) :
    run service start (.task step :: rest) backend = run service start rest backend := by
  rw [run, List.foldl_cons, perform_task_of_stage service start (by simp)]
  rfl

/-- The record of a call is right: it is that of its beginning when it has been polled before it was cancelled, and
the chunks that the plan then was for. -/
theorem balanced_run (service : Service σ)
    (start : StateM (σ × List Question) (Except RetrievalError (Fetch ⊕ Nat))) (events : List OperationEvent)
    (backend : σ) :
    Balanced (if OperationEvent.wake events then (start (backend, [])).2.2 else [])
      (if OperationEvent.wake events then planned (start (backend, [])).1 else .error .shutDown)
      (run service.recorded start events (backend, [])).backend.2
      (Outcome.answered (run service.recorded start events (backend, [])).stage.answer?).Succeeds := by
  induction events with
  | nil => exact ⟨⟨[], .bare rfl rfl⟩, False.elim⟩
  | cons event rest ih =>
    cases event with
    | task step =>
      rw [run_task]
      exact ih
    | linger event => exact ih
    | poll answered =>
      exact ((stands_asked (start (backend, []))).events service start (.poll answered :: rest)).balanced
    | cancel => exact ((stands_cancelled service start backend).events service start rest).balanced

end Call

end Reassembly
