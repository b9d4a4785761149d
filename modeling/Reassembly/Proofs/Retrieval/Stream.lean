import Reassembly.Proofs.Result
import Reassembly.Proofs.Retrieval.Fetch
import Reassembly.Proofs.Schedule
import Reassembly.Retrieval.Stream

/-!
# What a stream yields

Once it is settled what the services bring, it is settled what a stream yields, whenever it is polled
and however its tasks take turns: the items that the fates of its tasks make. What it has yielded and
what it still owes are together the same list throughout. A fragment moves the offset to its end, an
empty one leaves it where it is, and an error is the last item.
-/

namespace Reassembly

/-- What the services bring a stream: the answer to its look-up, and the replies of its downloads. -/
structure Supply where
  answer : Except ServiceError Manifest
  replies : Replies

/-- What happens to a stream: one of its tasks moves, or it is polled, before or after the look-up is
answered. -/
inductive StreamEvent
  | move (move : Move)
  | poll (answered : Bool)

namespace FragmentStream

/-- The items that a range makes of the results of tasks, when the stream is at an offset. -/
def items (range : ByteRange) :
    (offset : Nat) → List (Except RetrievalError Block) → List (Except RetrievalError Block)
  | _, [] => []
  | offset, .error error :: _ => [.error (.stream offset error)]
  | offset, .ok block :: rest =>
    if (block.clip range).isEmpty then items range offset rest
    else .ok (block.clip range) :: items range (block.clip range).stop rest

/-- The items that a stream has yet to yield. -/
def owed (supply : Supply) (stream : FragmentStream) : List (Except RetrievalError Block) :=
  if stream.state.isTerminal then []
  else
    match stream.holding with
    | .released => []
    | .fetching fetch => items stream.range stream.offset (fetch.fates supply.replies)
    | .unopened =>
      match stream.opening supply.answer with
      | .error error => [.error (.stream stream.offset error)]
      | .ok (range, fetch) => items range stream.offset (fetch.fates supply.replies)

/-- The answer that a poll finds. -/
def found (supply : Supply) (answered : Bool) : Option (Except ServiceError Manifest) :=
  if answered then some supply.answer else none

/-- Let a task of a stream move. -/
def moved (supply : Supply) (stream : FragmentStream) (move : Move) : FragmentStream :=
  match stream.holding with
  | .fetching fetch => { stream with holding := .fetching (fetch.act supply.replies move) }
  | _ => stream

/-- Let something happen to a stream. -/
def step (supply : Supply) (stream : FragmentStream) : StreamEvent → FragmentStream
  | .move move => stream.moved supply move
  | .poll answered => (stream.poll (found supply answered)).2

/-- Let one thing after the other happen to a stream. -/
def run (supply : Supply) (stream : FragmentStream) (events : List StreamEvent) : FragmentStream :=
  events.foldl (step supply) stream

/-- What the polls among the events bring, in order. -/
def polls (supply : Supply) : FragmentStream → List StreamEvent → List (Poll Block)
  | _, [] => []
  | stream, .move move :: events => polls supply (stream.moved supply move) events
  | stream, .poll answered :: events =>
    (stream.poll (found supply answered)).1 ::
      polls supply (stream.poll (found supply answered)).2 events

/-- Polls that bring the first of some items and leave the rest. After an error, and after the end,
every poll finds the end. -/
inductive Shows :
    (items : List (Except RetrievalError Block)) → List (Poll Block) →
      (rest : List (Except RetrievalError Block)) → Prop
  | done {rest} : Shows rest [] rest
  | pending {items polls rest} (later : Shows items polls rest) : Shows items (.pending :: polls) rest
  | fragment {block items polls rest} (later : Shows items polls rest) :
      Shows (.ok block :: items) (.item (.ok block) :: polls) rest
  | error {error polls} (later : ∀ poll ∈ polls, poll = .ended) :
      Shows [.error error] (.item (.error error) :: polls) []
  | ended {polls} (later : ∀ poll ∈ polls, poll = .ended) : Shows [] (.ended :: polls) []

/-- The items among the results of polls. -/
def yielded (polls : List (Poll Block)) : List (Except RetrievalError Block) :=
  polls.filterMap fun
    | .item result => some result
    | _ => none

/-- The fragments among some items. -/
def fragmentsOf (items : List (Except RetrievalError Block)) : List Block :=
  items.filterMap Except.toOption

/-- Polls that find nothing but the end yield nothing. -/
theorem yielded_of_ended {polls : List (Poll Block)} (h : ∀ poll ∈ polls, poll = .ended) :
    yielded polls = [] := by
  refine List.filterMap_eq_nil_iff.mpr fun poll hmem => ?_
  rw [h poll hmem]

/-- What has been shown and what is left are together all items. -/
theorem Shows.yielded_append {items rest : List (Except RetrievalError Block)} {polls : List (Poll Block)}
    (h : Shows items polls rest) : yielded polls ++ rest = items := by
  induction h with
  | done => rfl
  | pending _ ih => exact ih
  | fragment _ ih => exact congrArg (_ :: ·) ih
  | @error error polls later =>
    show .error error :: yielded polls ++ [] = [.error error]
    rw [yielded_of_ended later]
    rfl
  | @ended polls later =>
    show yielded polls ++ [] = []
    rw [yielded_of_ended later]
    rfl

variable {supply : Supply} {stream : FragmentStream}

/-- A stream that has ended owes nothing. -/
theorem owed_of_terminal (h : stream.state.isTerminal = true) : stream.owed supply = [] := if_pos h

/-- A stream that is fetching owes the items of the fates of its tasks. -/
theorem owed_of_fetching {fetch : Fetch} (h : stream.state.isTerminal = false)
    (hholding : stream.holding = .fetching fetch) :
    stream.owed supply = items stream.range stream.offset (fetch.fates supply.replies) := by
  rw [owed, h, hholding]
  rfl

/-- So does one that is given a fetch, and an offset. -/
theorem owed_fetching (offset : Nat) (fetch : Fetch) (h : stream.state.isTerminal = false) :
    ({ stream with offset, holding := .fetching fetch } : FragmentStream).owed supply =
      items stream.range offset (fetch.fates supply.replies) :=
  owed_of_fetching h rfl

/-- A stream that has not been opened owes the error of opening it, or the items of what it will
fetch. -/
theorem owed_of_unopened (h : stream.state.isTerminal = false) (hholding : stream.holding = .unopened) :
    stream.owed supply =
      match stream.opening supply.answer with
      | .error error => [.error (.stream stream.offset error)]
      | .ok (range, fetch) => items range stream.offset (fetch.fates supply.replies) := by
  rw [owed, h, hholding]
  rfl

/-- What taking a fragment from the tasks of a fetch finds, told by the items that the tasks make at an
offset. The tasks that it passes over are done. -/
inductive Taken (range : ByteRange) (offset : Nat) (file : ResolvedFile) (replies : Replies)
    (tasks : List FetchTask) : Poll Block × List FetchTask → Prop
  | ended (nothing : items range offset (tasks.map (FetchTask.fate file replies)) = [])
      (done : ∀ task ∈ tasks, task.isDone = true) : Taken range offset file replies tasks (.ended, [])
  | pending {dropped rest : List FetchTask} (split : tasks = dropped ++ rest)
      (done : ∀ task ∈ dropped, task.isDone = true) (work : ∃ task ∈ rest, task.isDone = false)
      (same : items range offset (tasks.map (FetchTask.fate file replies)) =
        items range offset (rest.map (FetchTask.fate file replies))) :
      Taken range offset file replies tasks (.pending, rest)
  | fragment {dropped rest : List FetchTask} {fragment : Block} (split : tasks = dropped ++ rest)
      (done : ∀ task ∈ dropped, task.isDone = true) (some : dropped ≠ [])
      (first : items range offset (tasks.map (FetchTask.fate file replies)) =
        .ok fragment :: items range fragment.stop (rest.map (FetchTask.fate file replies))) :
      Taken range offset file replies tasks (.item (.ok fragment), rest)
  | error {rest : List FetchTask} {error : RetrievalError}
      (only : items range offset (tasks.map (FetchTask.fate file replies)) =
        [.error (.stream offset error)]) :
      Taken range offset file replies tasks (.item (.error error), rest)

/-- A done task in front of others is passed over when its fragment is empty. -/
theorem Taken.cons {range : ByteRange} {offset : Nat} {file : ResolvedFile} {replies : Replies}
    {chunk : Chunk} {block : Block} {tasks : List FetchTask} {found : Poll Block × List FetchTask}
    (hempty : (block.clip range).isEmpty = true) (h : Taken range offset file replies tasks found) :
    Taken range offset file replies (⟨chunk, .done (.ok block)⟩ :: tasks) found := by
  have hitems : items range offset
      ((⟨chunk, .done (.ok block)⟩ :: tasks).map (FetchTask.fate file replies)) =
        items range offset (tasks.map (FetchTask.fate file replies)) := if_pos hempty
  have hfirst : ∀ dropped : List FetchTask, (∀ task ∈ dropped, task.isDone = true) →
      ∀ task ∈ (⟨chunk, .done (.ok block)⟩ : FetchTask) :: dropped, task.isDone = true :=
    fun dropped hdone => List.forall_mem_cons.mpr ⟨rfl, hdone⟩
  cases h with
  | ended nothing done => exact .ended (hitems.trans nothing) (hfirst _ done)
  | pending split done work same =>
    exact .pending (congrArg (_ :: ·) split) (hfirst _ done) work (hitems.trans same)
  | fragment split done _ first =>
    exact .fragment (congrArg (_ :: ·) split) (hfirst _ done) (List.cons_ne_nil _ _) (hitems.trans first)
  | error only => exact .error (hitems.trans only)

/-- Taking a fragment finds what the items of the tasks tell. -/
theorem taken_takeFragment (range : ByteRange) (offset : Nat) (file : ResolvedFile) (replies : Replies)
    (tasks : List FetchTask) :
    Taken range offset file replies tasks (takeFragment range tasks) := by
  induction tasks with
  | nil => exact .ended rfl (by simp)
  | cons task rest ih =>
    obtain ⟨chunk, progress⟩ := task
    cases progress with
    | done result =>
      cases result with
      | error error => exact .error rfl
      | ok block =>
        rw [takeFragment]
        by_cases hempty : (block.clip range).isEmpty = true
        · rw [if_pos hempty]
          exact ih.cons hempty
        · rw [if_neg hempty]
          have hsplit : (⟨chunk, .done (.ok block)⟩ : FetchTask) :: rest =
              [⟨chunk, .done (.ok block)⟩] ++ rest := rfl
          exact .fragment hsplit (by simp [FetchTask.isDone]) (List.cons_ne_nil _ _) (if_neg hempty)
    | waiting | downloading | decoding =>
      exact .pending (List.nil_append _).symm (by simp) ⟨_, List.mem_cons_self, rfl⟩ rfl

/-- Tasks that are done can be dropped from a fetch without a loss of work or permits. -/
theorem dropped_done (fetch : Fetch) {dropped rest : List FetchTask}
    (hsplit : fetch.tasks = dropped ++ rest) (hdone : ∀ task ∈ dropped, task.isDone = true) :
    ({ fetch with tasks := rest } : Fetch).work = fetch.work ∧
      ({ fetch with tasks := rest } : Fetch).capacity? = fetch.capacity? := by
  obtain ⟨file, permits, tasks⟩ := fetch
  obtain rfl : tasks = dropped ++ rest := hsplit
  induction dropped with
  | nil => exact ⟨rfl, rfl⟩
  | cons task dropped ih =>
    obtain ⟨hwork, hcapacity⟩ := ih fun other hother => hdone other (by simp [hother])
    obtain ⟨chunk, progress⟩ := task
    cases progress with
    | done result =>
      refine ⟨hwork.trans ?_, hcapacity⟩
      simp [Fetch.work, FetchTask.stepsLeft]
    | waiting | downloading | decoding => simp [FetchTask.isDone] at hdone

/-- What a poll finds, told by the items that the stream owes before and after it. -/
inductive Polled (supply : Supply) (stream : FragmentStream) : Poll Block × FragmentStream → Prop
  | past {after : FragmentStream} (terminal : stream.state.isTerminal = true) (same : after = stream) :
      Polled supply stream (.ended, after)
  | ended {after : FragmentStream} (streaming : stream.state.isTerminal = false)
      (nothing : stream.owed supply = []) (completed : after.state = .completed)
      (offset : after.offset = stream.offset) :
      Polled supply stream (.ended, after)
  | pending {after : FragmentStream} (streaming : after.state = .streaming)
      (same : after.owed supply = stream.owed supply) (offset : after.offset = stream.offset) :
      Polled supply stream (.pending, after)
  | fragment {after : FragmentStream} {fragment : Block} (streaming : after.state = .streaming)
      (first : stream.owed supply = .ok fragment :: after.owed supply)
      (offset : after.offset = fragment.stop) :
      Polled supply stream (.item (.ok fragment), after)
  | error {after : FragmentStream} {error : RetrievalError} (failed : after.state = .failed)
      (only : stream.owed supply = [.error error]) (offset : after.offset = stream.offset) :
      Polled supply stream (.item (.error error), after)

/-- The stream that a poll starts from. -/
def polling (stream : FragmentStream) : FragmentStream := { stream with state := .streaming }

/-- What a poll of a stream that has not ended does depends on what the stream holds. -/
theorem poll_eq (h : stream.state.isTerminal = false) (answer : Option (Except ServiceError Manifest)) :
    stream.poll answer =
      match stream.holding, answer with
      | .released, _ => (.ended, stream.polling.finish .completed)
      | .fetching fetch, _ => stream.polling.pollFetch fetch
      | .unopened, none => (.pending, stream.polling)
      | .unopened, some answer =>
        match stream.opening answer with
        | .error error => stream.polling.fail error
        | .ok (range, fetch) =>
          pollFetch { stream.polling with range, layout := some fetch.file.layout } fetch := by
  rw [poll, h]
  rfl

/-- What a poll of a stream that is fetching finds. -/
theorem polled_pollFetch (fetch : Fetch) (hstate : stream.state = .streaming)
    {before : FragmentStream} (hbefore : before.state.isTerminal = false)
    (hoffset : stream.offset = before.offset)
    (howed : before.owed supply = items stream.range stream.offset (fetch.fates supply.replies)) :
    Polled supply before (stream.pollFetch fetch) := by
  have htaken := taken_takeFragment stream.range stream.offset fetch.file supply.replies fetch.tasks
  rw [pollFetch]
  generalize takeFragment stream.range fetch.tasks = found at htaken
  have hstreaming : stream.state.isTerminal = false := by rw [hstate]; rfl
  cases htaken with
  | ended nothing _ => exact .ended hbefore (howed.trans nothing) rfl hoffset
  | pending _ _ _ same =>
    refine .pending hstate ?_ hoffset
    rw [howed]
    exact (owed_fetching stream.offset _ hstreaming).trans same.symm
  | @fragment _ rest fragment _ _ _ first =>
    have hafter := @owed_fetching supply stream fragment.stop { fetch with tasks := rest } hstreaming
    exact .fragment hstate (howed.trans (first.trans (congrArg (_ :: ·) hafter.symm))) rfl
  | error only => exact .error rfl (howed.trans only) hoffset

/-- A poll finds what the owed items tell. -/
theorem polled_poll (supply : Supply) (stream : FragmentStream) (answered : Bool) :
    Polled supply stream (stream.poll (found supply answered)) := by
  by_cases hterminal : stream.state.isTerminal = true
  · rw [poll, if_pos hterminal]
    exact .past hterminal rfl
  · have hbefore : stream.state.isTerminal = false := by simpa using hterminal
    rw [poll_eq hbefore]
    cases hholding : stream.holding with
    | released =>
      have howed : stream.owed supply = [] := by
        rw [owed, hbefore, hholding]
        rfl
      exact .ended hbefore howed rfl rfl
    | fetching fetch => exact polled_pollFetch fetch rfl hbefore rfl (owed_of_fetching hbefore hholding)
    | unopened =>
      have howed := @owed_of_unopened supply stream hbefore hholding
      cases answered with
      | false => exact .pending rfl ((@owed_of_unopened supply stream.polling rfl hholding).trans howed.symm) rfl
      | true =>
        simp only [found, if_true]
        cases hopen : stream.opening supply.answer with
        | error error =>
          rw [hopen] at howed
          exact .error rfl howed rfl
        | ok opened =>
          rw [hopen] at howed
          exact polled_pollFetch opened.2 rfl hbefore rfl howed

/-- A task that moves changes nothing of what a stream owes. -/
theorem owed_moved (supply : Supply) (stream : FragmentStream) (move : Move) :
    (stream.moved supply move).owed supply = stream.owed supply := by
  rw [moved]
  split
  · next fetch hholding =>
    by_cases hterminal : stream.state.isTerminal = true
    · rw [owed_of_terminal hterminal]
      exact owed_of_terminal hterminal
    · have hstate : stream.state.isTerminal = false := by simpa using hterminal
      have hfates := Fetch.fates_acts supply.replies fetch [move]
      simp only [Fetch.acts, List.foldl_cons, List.foldl_nil] at hfates
      rw [owed_of_fetching hstate hholding, ← hfates]
      exact owed_fetching stream.offset _ hstate
  · rfl

/-- A task that moves changes neither the state of a stream nor its offset. -/
theorem moved_keeps (supply : Supply) (stream : FragmentStream) (move : Move) :
    (stream.moved supply move).state = stream.state ∧
      (stream.moved supply move).offset = stream.offset := by
  rw [moved]
  split <;> exact ⟨rfl, rfl⟩

/-- A stream that has ended stays as it is, and every poll finds its end. -/
theorem run_of_terminal (h : stream.state.isTerminal = true) (events : List StreamEvent) :
    (∀ poll ∈ stream.polls supply events, poll = .ended) ∧
      (stream.run supply events).state = stream.state ∧
        (stream.run supply events).offset = stream.offset := by
  induction events generalizing stream with
  | nil => exact ⟨by simp [polls], rfl, rfl⟩
  | cons event rest ih =>
    cases event with
    | move move =>
      obtain ⟨hstate, hoffset⟩ := moved_keeps supply stream move
      obtain ⟨hpolls, hlater, hend⟩ := @ih (stream.moved supply move) (by rw [hstate]; exact h)
      exact ⟨hpolls, hlater.trans hstate, hend.trans hoffset⟩
    | poll answered =>
      have hpoll : stream.poll (found supply answered) = (.ended, stream) := if_pos h
      obtain ⟨hpolls, hlater, hend⟩ := ih h
      rw [polls, hpoll]
      refine ⟨List.forall_mem_cons.mpr ⟨rfl, hpolls⟩, ?_, ?_⟩
      · rw [run, List.foldl_cons, step, hpoll]
        exact hlater
      · rw [run, List.foldl_cons, step, hpoll]
        exact hend

/-- Whenever a stream is polled and however its tasks take turns, its polls show what it owed, up to
what it still owes. -/
theorem shows_polls (supply : Supply) (stream : FragmentStream) (events : List StreamEvent) :
    Shows (stream.owed supply) (stream.polls supply events) ((stream.run supply events).owed supply) := by
  induction events generalizing stream with
  | nil => exact .done
  | cons event rest ih =>
    cases event with
    | move move =>
      have hlater := ih (stream.moved supply move)
      rw [owed_moved] at hlater
      exact hlater
    | poll answered =>
      have hpolled := polled_poll supply stream answered
      have hlater := ih (stream.poll (found supply answered)).2
      rw [polls, run, List.foldl_cons, step]
      generalize stream.poll (found supply answered) = found at hpolled hlater
      have hover : ∀ after : FragmentStream, after.state.isTerminal = true →
          (∀ poll ∈ after.polls supply rest, poll = .ended) ∧
            (after.run supply rest).owed supply = [] := by
        intro after hterminal
        obtain ⟨hpolls, hstate, -⟩ := @run_of_terminal supply after hterminal rest
        exact ⟨hpolls, owed_of_terminal (by rw [hstate]; exact hterminal)⟩
      cases hpolled with
      | @past after terminal same =>
        obtain ⟨hpolls, howed⟩ := hover after (by rw [same]; exact terminal)
        rw [owed_of_terminal terminal]
        show Shows [] (.ended :: _) ((after.run supply rest).owed supply)
        rw [howed]
        exact .ended hpolls
      | @ended after _ nothing completed _ =>
        obtain ⟨hpolls, howed⟩ := hover after (by rw [completed]; rfl)
        rw [nothing]
        show Shows [] (.ended :: _) ((after.run supply rest).owed supply)
        rw [howed]
        exact .ended hpolls
      | pending _ same _ =>
        rw [← same]
        exact .pending hlater
      | fragment _ first _ =>
        rw [first]
        exact .fragment hlater
      | @error after error failed only _ =>
        obtain ⟨hpolls, howed⟩ := hover after (by rw [failed]; rfl)
        rw [only]
        show Shows _ (.item (.error error) :: _) ((after.run supply rest).owed supply)
        rw [howed]
        exact .error hpolls

/-- The offset of a stream is the end of the last fragment that it has yielded. -/
theorem offset_run (supply : Supply) (stream : FragmentStream) (events : List StreamEvent) :
    (stream.run supply events).offset =
      (fragmentsOf (yielded (stream.polls supply events))).foldl (fun _ fragment => fragment.stop)
        stream.offset := by
  induction events generalizing stream with
  | nil => rfl
  | cons event rest ih =>
    cases event with
    | move move =>
      have hlater := ih (stream.moved supply move)
      rw [(moved_keeps supply stream move).2] at hlater
      exact hlater
    | poll answered =>
      have hpolled := polled_poll supply stream answered
      have hlater := ih (stream.poll (found supply answered)).2
      rw [polls, run, List.foldl_cons, step]
      generalize stream.poll (found supply answered) = found at hpolled hlater
      cases hpolled with
      | past _ same =>
        rw [same] at hlater ⊢
        exact hlater
      | ended _ _ _ offset => rw [← offset]; exact hlater
      | pending _ _ offset => rw [← offset]; exact hlater
      | fragment _ _ offset =>
        rw [offset] at hlater
        exact hlater
      | error _ _ offset => rw [← offset]; exact hlater

/-- A stream that has yielded an error has failed, and one that has ended without an error is
completed. -/
theorem state_run (supply : Supply) (h : stream.state.isTerminal = false) (events : List StreamEvent) :
    ((∃ error, .error error ∈ yielded (stream.polls supply events)) →
        (stream.run supply events).state = .failed) ∧
      ((stream.run supply events).state.isTerminal = true →
        (stream.run supply events).state = .completed ∨
          ∃ error, .error error ∈ yielded (stream.polls supply events)) := by
  induction events generalizing stream with
  | nil =>
    refine ⟨by simp [polls, yielded], fun hterminal => ?_⟩
    rw [run, List.foldl_nil, h] at hterminal
    simp at hterminal
  | cons event rest ih =>
    cases event with
    | move move => exact @ih (stream.moved supply move) (by rw [(moved_keeps supply stream move).1]; exact h)
    | poll answered =>
      have hpolled := polled_poll supply stream answered
      have hlater := @ih (stream.poll (found supply answered)).2
      rw [polls, run, List.foldl_cons, step]
      generalize stream.poll (found supply answered) = found at hpolled hlater
      cases hpolled with
      | past terminal _ => simp [h] at terminal
      | @ended after _ _ completed _ =>
        obtain ⟨hpolls, hstate, -⟩ := @run_of_terminal supply after (by rw [completed]; rfl) rest
        refine ⟨?_, fun _ => .inl (hstate.trans completed)⟩
        rintro ⟨error, herror⟩
        have hnone : yielded (after.polls supply rest) = [] := yielded_of_ended hpolls
        exact absurd herror (by show _ ∉ yielded (after.polls supply rest); simp [hnone])
      | pending streaming _ _ => exact hlater (by rw [streaming]; rfl)
      | @fragment after fragment streaming _ _ =>
        obtain ⟨hfailed, hend⟩ := hlater (by rw [streaming]; rfl)
        refine ⟨?_, fun hterminal => (hend hterminal).imp id fun ⟨error, herror⟩ =>
          ⟨error, List.mem_cons_of_mem _ herror⟩⟩
        rintro ⟨error, herror⟩
        rcases List.mem_cons.mp herror with hsame | herror
        · simp at hsame
        · exact hfailed ⟨error, herror⟩
      | @error after error failed _ _ =>
        obtain ⟨-, hstate, -⟩ := @run_of_terminal supply after (by rw [failed]; rfl) rest
        exact ⟨fun _ => hstate.trans failed, fun _ => .inr ⟨error, List.mem_cons_self⟩⟩

end FragmentStream

end Reassembly
