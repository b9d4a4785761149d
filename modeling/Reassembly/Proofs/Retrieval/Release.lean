import Reassembly.Proofs.LifeCycle
import Reassembly.Proofs.Retrieval.Operation

/-!
# Letting go

An operation that ends lets go of its fetch, and the runtime may drop the tasks of that at once. On such a schedule its
downloads are abandoned with the end, as those of a stream are in its life; so every life of a stream is that of a
course. A call is followed here as far as its polls alone lead.
-/

namespace Reassembly

section Aftermath

variable {γ σ : Type}

/-- What happens to the fetch that an operation has let go of happens to its crew. -/
theorem Undertaking.foldl_linger (service : Service σ) (stage : γ) (fetch : Fetch) (backend : σ)
    (events : List CrewEvent) :
    events.foldl (Undertaking.linger service) ⟨stage, backend, some fetch⟩ =
      ⟨stage, ((Crew.cancel ⟨fetch, [], backend⟩).run service events).backend,
        some ((Crew.cancel ⟨fetch, [], backend⟩).run service events).turned.fetch⟩ := by
  induction events generalizing fetch backend with
  | nil => rfl
  | cons event rest ih =>
    have hidle := (Crew.perform_leaving service (show (Crew.cancel ⟨fetch, [], backend⟩).fetch.tasks = [] from rfl)
      event).1
    rw [List.foldl_cons]
    show rest.foldl (Undertaking.linger service)
      ⟨stage, ((Crew.cancel ⟨fetch, [], backend⟩).perform service event).backend,
        some ((Crew.cancel ⟨fetch, [], backend⟩).perform service event).turned.fetch⟩ = _
    rw [ih]
    have hsame : Crew.cancel
        ⟨((Crew.cancel ⟨fetch, [], backend⟩).perform service event).turned.fetch, [],
          ((Crew.cancel ⟨fetch, [], backend⟩).perform service event).backend⟩ =
        (Crew.cancel ⟨fetch, [], backend⟩).perform service event := by
      generalize (Crew.cancel ⟨fetch, [], backend⟩).perform service event = crew at hidle
      obtain ⟨⟨file, permits, tasks⟩, leaving, state⟩ := crew
      obtain rfl : tasks = [] := hidle
      rfl
    rw [hsame]
    rfl

/-- An operation that has let go of a fetch can have all tasks of that dropped, which abandons its downloads. -/
theorem Undertaking.exists_linger (service : Service σ) (stage : γ) (fetch : Fetch) (backend : σ) :
    ∃ (events : List CrewEvent) (left : Option Fetch),
      events.foldl (Undertaking.linger service) ⟨stage, backend, some fetch⟩ =
        ⟨stage, (fetch.abandon service backend).2, left⟩ := by
  have hdropped : ((Crew.cancel ⟨fetch, [], backend⟩).run service
      (List.replicate fetch.tasks.length (.drop 0))).backend = (fetch.abandon service backend).2 :=
    congrArg (·.backend) (Crew.run_drop_all service { fetch with tasks := [] } fetch.tasks backend)
  have hrun := foldl_linger service stage fetch backend (List.replicate fetch.tasks.length (.drop 0))
  rw [hdropped] at hrun
  exact ⟨_, _, hrun⟩

end Aftermath

namespace Course

variable {σ : Type}

/-- A course that lets go of its stream can have all tasks of that dropped. -/
theorem exists_release (service : Service σ) (undertaking : Undertaking Course σ) (stream : FragmentStream)
    (course : Course) :
    ∃ (events : List OperationEvent) (left : Option Fetch),
      events.foldl (perform service) (undertaking.release stream.fetch? course) =
        ⟨course, (stream.downloads.forM service.abandoned undertaking.backend).2, left⟩ := by
  cases hholding : stream.holding with
  | fetching fetch =>
    obtain ⟨events, left, hevents⟩ := Undertaking.exists_linger service course fetch undertaking.backend
    refine ⟨events.map .linger, left, ?_⟩
    rw [List.foldl_map, FragmentStream.fetch?, FragmentStream.downloads, hholding]
    exact hevents
  | unopened | released =>
    refine ⟨[], undertaking.left, ?_⟩
    rw [FragmentStream.fetch?, FragmentStream.downloads, hholding]
    rfl

/-- Each event of the life of a stream comes to events of its course, after which the services are the same. -/
theorem exists_perform (service : Service σ) (life : Life σ) (left : Option Fetch) (event : LifeEvent) :
    ∃ (events : List OperationEvent) (later : Option Fetch),
      events.foldl (perform service) ⟨life.toCourse, life.backend, left⟩ =
        ⟨(life.perform service event).toCourse, (life.perform service event).backend, later⟩ := by
  cases event with
  | task step => exact ⟨[.task step], left, rfl⟩
  | cancel =>
    obtain ⟨events, later, hevents⟩ := exists_release service ⟨life.toCourse, life.backend, left⟩ life.stream
      { life.toCourse with stream := life.stream.cancel }
    exact ⟨.cancel :: events, later, hevents⟩
  | poll answered =>
    obtain ⟨hstream, -⟩ := life.toCourse.ask_keeps service life.backend
    rcases hask : life.toCourse.ask service life.backend with ⟨asked, backend⟩
    rw [hask] at hstream
    replace hstream : asked.stream = life.stream := hstream
    have hpolled : perform service ⟨life.toCourse, life.backend, left⟩ (.poll answered) =
        Undertaking.turn ⟨life.toCourse, backend, left⟩ life.stream.fetch? (asked.advance answered)
          (asked.advance answered).stream.state.isTerminal := by
      rw [perform, hask, ← hstream]
    rw [Life.perform, hask]
    by_cases hterminal : (asked.advance answered).stream.state.isTerminal = true
    · obtain ⟨events, later, hevents⟩ := exists_release service ⟨life.toCourse, backend, left⟩ life.stream
        (asked.advance answered)
      refine ⟨.poll answered :: events, later, ?_⟩
      rw [List.foldl_cons, hpolled, Undertaking.turn, if_pos hterminal]
      simp only [if_pos hterminal]
      exact hevents
    · refine ⟨[.poll answered], left, ?_⟩
      rw [List.foldl_cons, List.foldl_nil, hpolled, Undertaking.turn, if_neg hterminal]
      simp only [if_neg hterminal]

/-- Whatever comes of the life of a stream, some events bring its course to, with the services. -/
theorem exists_run (service : Service σ) (fileId : String) (credentials : Credentials) (range : ByteRange)
    (limit : Nat) (backend : σ) (events : List LifeEvent) :
    ∃ (more : List OperationEvent) (left : Option Fetch),
      run service (.ofRange fileId credentials range limit) more backend =
        ⟨((Life.start fileId credentials range limit backend).run service events).toCourse,
          ((Life.start fileId credentials range limit backend).run service events).backend, left⟩ := by
  suffices ∀ (life : Life σ) (left : Option Fetch), ∃ (more : List OperationEvent) (later : Option Fetch),
      more.foldl (perform service) ⟨life.toCourse, life.backend, left⟩ =
        ⟨(life.run service events).toCourse, (life.run service events).backend, later⟩ from
    this (.start fileId credentials range limit backend) none
  induction events with
  | nil => exact fun life left => ⟨[], left, rfl⟩
  | cons event rest ih =>
    intro life left
    obtain ⟨first, middle, hfirst⟩ := exists_perform service life left event
    obtain ⟨more, later, hmore⟩ := ih (life.perform service event) middle
    exact ⟨first ++ more, later, by rw [List.foldl_append, hfirst]; exact hmore⟩

end Course

namespace Call

variable {σ : Type} {service : Service σ} {start : StateM σ (Except RetrievalError (Fetch ⊕ Nat))}
  {events : List OperationEvent} {initial backend : σ} {fetch : Fetch} {blocks : List Block}

/-- Events after those that have made a call join a fetch. -/
theorem run_append (h : run service start events initial = ⟨joining fetch blocks, backend, none⟩)
    (more : List OperationEvent) :
    run service start (events ++ more) initial =
      more.foldl (perform service start) ⟨joining fetch blocks, backend, none⟩ := by
  rw [← h]
  exact List.foldl_append

/-- The first poll of a call, if it finds the look-up answered at once. -/
theorem run_poll (service : Service σ) (start : StateM σ (Except RetrievalError (Fetch ⊕ Nat))) (initial : σ) :
    run service start [.poll true] initial = ⟨(asked (start initial).1).advance true, (start initial).2, none⟩ := by
  show Undertaking.turn ⟨unpolled, (start initial).2, none⟩ none ((asked (start initial).1).advance true)
    ((asked (start initial).1).advance true).isOver = _
  rw [Undertaking.turn]
  split <;> rfl

/-- A call whose next poll ends it can have all tasks of its fetch dropped. -/
theorem exists_end (h : run service start events initial = ⟨joining fetch blocks, backend, none⟩)
    (result : Except RetrievalError (List Block)) (hended : Joining.receive blocks fetch.next = .ended result) :
    ∃ (more : List OperationEvent) (left : Option Fetch),
      run service start more initial =
        ⟨.ended (some (Session.answerBlocks result)), (fetch.next.2.abandon service backend).2, left⟩ := by
  obtain ⟨drops, left, hdrops⟩ :=
    Undertaking.exists_linger service (Call.ended (some (Session.answerBlocks result))) fetch backend
  refine ⟨events ++ .poll true :: drops.map .linger, left, ?_⟩
  rw [run_append h, List.foldl_cons, List.foldl_map]
  have hpolled : perform service start ⟨joining fetch blocks, backend, none⟩ (.poll true) =
      ⟨.ended (some (Session.answerBlocks result)), backend, some fetch⟩ := by
    show Undertaking.turn ⟨joining fetch blocks, backend, none⟩ (some fetch)
      (ofJoining (Joining.receive blocks fetch.next)) (ofJoining (Joining.receive blocks fetch.next)).isOver = _
    rw [hended]
    rfl
  rw [hpolled, Fetch.abandon, Fetch.downloads_next]
  exact hdrops

/-- A call whose next poll finds a block goes on with it. -/
theorem run_next (h : run service start events initial = ⟨joining fetch blocks, backend, none⟩) {block : Block}
    (hblock : fetch.next.1 = .item (.ok block)) :
    run service start (events ++ [.poll true]) initial = ⟨joining fetch.next.2 (blocks ++ [block]), backend, none⟩ := by
  rw [run_append h]
  rcases hnext : fetch.next with ⟨poll, later⟩
  obtain rfl : poll = .item (.ok block) := by rw [← hblock, hnext]
  show Undertaking.turn ⟨joining fetch blocks, backend, none⟩ (some fetch)
    (ofJoining (Joining.receive blocks fetch.next)) (ofJoining (Joining.receive blocks fetch.next)).isOver = _
  rw [hnext]
  rfl

end Call

end Reassembly
