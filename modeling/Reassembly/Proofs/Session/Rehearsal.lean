import Reassembly.Proofs.Retrieval.Release
import Reassembly.Proofs.Session.Seat

/-!
# Rehearsals

A session carries out what it is asked for on a schedule of its own. What it answers to a retrieval, and what it does
to the services, is what comes of the machines that take steps under any schedule: there are events with which a call, a
course or the life of a stream comes to the same. That is said of a session with nothing else under way; the requests of
other retrievals would come in between.
-/

namespace Reassembly

/-- A call for blocks that comes to a fetch has found the file over a steady service, which stays steady. -/
theorem Retriever.exists_start {σ : Type} {service : Service σ} {holds : σ → Prop}
    {answer : String → Except ServiceError Manifest} {reply : String → Reply} {retriever : Retriever} {fileId : String}
    {numbers : Option (List Nat)} {before after : σ} {fetch : Fetch} (hsteady : service.Steady holds answer reply)
    (hholds : holds before) (h : retriever.blocks service fileId numbers before = (.ok fetch, after)) :
    ∃ file chunks, Fetch.start file chunks retriever.limits.blockLimit = fetch ∧ holds after := by
  cases hshut : retriever.isShutDown with
  | true =>
    have hrefused : retriever.blocks service fileId numbers before = (.error .shutDown, before) := by
      rw [blocks, resolve, hshut]
      rfl
    rw [hrefused] at h
    cases h
  | false =>
    rw [blocks_run service hshut] at h
    obtain ⟨hfetch, rfl⟩ := Prod.mk.inj h
    obtain ⟨file, -, hchunks⟩ := Result.bind_eq_ok_iff.mp hfetch
    obtain ⟨chunks, -, rfl⟩ := Result.map_eq_ok_iff.mp hchunks
    exact ⟨file, chunks, rfl, (hsteady.lookup fileId before hholds).2⟩

/-- The items of a stream that an answer gives. -/
def Answer.items : Answer → List (Except RetrievalError Block)
  | .fragment found => [.ok found]
  | .failed error => [.error error]
  | .fragments found => found
  | _ => []

namespace Session

/-- A session that has nothing under way. -/
structure Idle (session : Session) : Prop where
  streams : session.streams = {}
  fetches : session.fetches = {}

variable {session : Session} {holds : Backend → Prop} {answer : String → Except ServiceError Manifest}
  {reply : String → Reply} {retriever : Retriever}

/-- A session that has nothing under way has only the retrieval that its caller waits for. -/
theorem Idle.plays (h : session.Idle) {keeps : Solo → Backend → Prop} {backend : Backend} :
    (∀ fetch, keeps (.fetch fetch) backend → Plays session keeps { session with backend, errand := .fetch fetch }) ∧
      ∀ stream, keeps (.stream stream) backend →
        Plays session keeps { session with backend, errand := .stream stream } := by
  obtain ⟨transport, credentials, requiredToken, before, now, retrievers, streams, files, fetches, errand⟩ := session
  obtain ⟨rfl, rfl⟩ := h
  exact ⟨fun fetch kept => .intro kept now, fun stream kept => .intro kept now⟩

/-- What the answer of a session is to an operation that comes to the same under some schedule. -/
def Carries (operation : Operation) (retriever : Retriever) (fileId : String) (act : SessionM Answer)
    (session : Session) : Prop :=
  ∃ events, operation.run session.service retriever fileId events session.backend =
    (.answered (some (act session).1), (act session).2.backend)

/-- A reading that has come to its end answers with what its items make, and lets go of nothing. -/
theorem exists_course {fileId : String} {credentials : Credentials} {range : ByteRange} {limit : Nat}
    {backend : Backend} {base after : Session} {items : List (Except RetrievalError Block)}
    (h : Plays base
      (Seat.errand.Shows fun life =>
        Life.Rehearsed base.service (.start fileId credentials range limit backend) False items life ∧
          ((∃ error, .error error ∈ items) ∨ life.stream.state.isTerminal = true)) after) :
    ∃ events, ((Course.run base.service (.ofRange fileId credentials range limit) events backend).stage.answer?,
        (Course.run base.service (.ofRange fileId credentials range limit) events backend).backend) =
      (some (answerBytes (items.mapM id)), (dropErrand after).2.backend) := by
  obtain ⟨⟨life, ⟨hlife, hover⟩, rfl, rfl⟩, now⟩ := h
  have hended := hlife.ended hover
  have hterminal : life.stream.state.isTerminal = true := by
    rcases hended with hstate | hstate <;> rw [hstate] <;> rfl
  obtain ⟨requested, hlawful⟩ := hlife.lawful
  have hnone : life.stream.downloads = [] :=
    FragmentStream.downloads_of_not_fetching (by simp [hlawful.stage.released hterminal])
  have hdropped : (dropErrand ((Seat.errand.solo life.stream).within
      { base with backend := life.backend, now })).2.backend = life.backend := by
    show (life.stream.downloads.forM base.service.abandoned life.backend).2 = life.backend
    rw [hnone]
    rfl
  obtain ⟨events, rfl⟩ := hlife.reached
  obtain ⟨more, left, hmore⟩ := Course.exists_run base.service fileId credentials range limit backend events
  refine ⟨more, ?_⟩
  rw [hmore, hdropped, ← hlife.items, Course.answer?]
  rcases hended with hstate | hstate <;> rw [hstate]

/-- A reading that ends with the items of a rehearsed life, and is answered with what they make, comes to the same under
some schedule. -/
theorem carries_of_course {fileId : String} {range : ByteRange} {credentials : Credentials} {limit : Nat}
    (hstream : retriever.stream fileId range = .ok (.ofRange fileId credentials range limit))
    (h : ∃ after items, Plays session
      (Seat.errand.Shows fun life =>
        Life.Rehearsed session.service (.start fileId credentials range limit session.backend) False items life ∧
          ((∃ error, .error error ∈ items) ∨ life.stream.state.isTerminal = true)) after ∧
      readRange fileId range retriever session = (answerBytes (items.mapM id), (dropErrand after).2)) :
    Carries (.readRange range) retriever fileId (readRange fileId range retriever) session := by
  obtain ⟨after, items, hends, hread⟩ := h
  obtain ⟨events, hevents⟩ := exists_course hends
  obtain ⟨hanswer, hbackend⟩ := Prod.mk.inj hevents
  refine ⟨events, ?_⟩
  rw [Operation.run, hstream, hread]
  simp only [hanswer, hbackend]

/-- What a session answers to a reading of a range over a steady service, if it has nothing else under way, and what it
does to the services, is what comes of the operation under some schedule. -/
theorem carries_readRange (hidle : session.Idle) (hsteady : session.service.Steady holds answer reply)
    (hholds : holds session.backend) (fileId : String) (range : ByteRange) :
    Carries (.readRange range) retriever fileId (readRange fileId range retriever) session := by
  cases hshut : retriever.isShutDown with
  | true =>
    have hstream : retriever.stream fileId range = .error .shutDown := by rw [Retriever.stream, hshut, if_pos rfl]
    refine ⟨[], ?_⟩
    rw [Operation.run, readRange, hstream]
    rfl
  | false =>
    have hstream : retriever.stream fileId range =
        .ok (.ofRange fileId retriever.credentials range retriever.limits.streamLimit) := by
      rw [Retriever.stream, hshut]
      rfl
    have hretrieving := retrieving_stream session hsteady hholds fileId retriever.credentials range
      retriever.limits.streamLimit
    have hplays : Plays session
        (Seat.errand.Shows
          (Life.Rehearsed session.service
            (.start fileId retriever.credentials range retriever.limits.streamLimit session.backend) False []))
        { session with
          errand := .stream (.ofRange fileId retriever.credentials range retriever.limits.streamLimit) } :=
      hidle.plays.2 _ ⟨_, .refl session.service fileId retriever.credentials range retriever.limits.streamLimit
        session.backend False, rfl, rfl⟩
    refine carries_of_course hstream ?_
    have hawaited := awaited_await (fun h => attempted_pollErrandStream h) hretrieving
    have hfirst := Seat.awaited_errand hplays
    rw [readRange, hstream]
    simp only [Action.bind_run, Action.modify_run, Action.get_run]
    generalize await pollErrandStream _ = found at hawaited hfirst ⊢
    cases hawaited with
    | @ended after nothing =>
      exact ⟨after, [], hfirst.mono (Seat.Shows.mono fun _ hlife => ⟨hlife.1, .inr (hlife.2 rfl)⟩), rfl⟩
    | @item after result rest first retrieving opened =>
      cases result with
      | error error =>
        exact ⟨after, [.error error],
          hfirst.mono (Seat.Shows.mono fun _ hlife => ⟨hlife.1, .inl ⟨error, by simp⟩⟩), rfl⟩
      | ok fragment =>
        obtain ⟨more, hmore, hends⟩ := Seat.joined (errandBound after) retrieving
          (retrieving.length_lt_errandBound opened) (hfirst.mono (Seat.Shows.mono fun _ hlife => hlife.1))
        refine ⟨_, .ok fragment :: more, hends.mono (Seat.Shows.mono fun life hlife => ⟨hlife.1, ?_⟩), ?_⟩
        · exact hlife.2.imp_left (Exists.imp fun _ => List.mem_cons_of_mem _)
        · rw [Result.mapM_cons, id_eq, Result.ok_bind, ← hmore]
          show (joinFrom pollErrandStream (errandBound after) >>= _) after = _
          rw [Action.bind_run]
          generalize joinFrom pollErrandStream (errandBound after) after = joined
          obtain ⟨result, last⟩ := joined
          cases result <;> rfl

/-- A fetch that the caller waits for, in front of the services, is that of a call with some blocks. -/
def Joins (service : Service Backend) (start : StateM Backend (Except RetrievalError (Fetch ⊕ Nat)))
    (initial : Backend) (blocks : List Block) (solo : Solo) (backend : Backend) : Prop :=
  ∃ fetch events, solo = .fetch fetch ∧
    Call.run service start events initial = ⟨.joining fetch blocks, backend, none⟩

/-- To poll the fetch that the caller waits for. -/
theorem pollErrandFetch_within (fetch : Fetch) (session : Session) :
    pollErrandFetch ((Solo.fetch fetch).within session) =
      (fetch.next.1, (Solo.fetch fetch.next.2).within session) := rfl

/-- Every step of a task keeps a call. -/
theorem keptBySteps_joins (service : Service Backend)
    (start : StateM Backend (Except RetrievalError (Fetch ⊕ Nat))) (initial : Backend) (blocks : List Block) :
    Solo.KeptBySteps service (Joins service start initial blocks) := by
  rintro step solo backend ⟨fetch, events, rfl, hrun⟩
  exact ⟨_, events ++ [.task step], rfl, Call.run_append hrun [.task step]⟩

/-- So does a poll that finds nothing yet. -/
theorem joins_of_pending {base session : Session} {start : StateM Backend (Except RetrievalError (Fetch ⊕ Nat))}
    {initial : Backend} {blocks : List Block} (h : Plays base (Joins base.service start initial blocks) session)
    (hpending : (pollErrandFetch session).1 = .pending) :
    Plays base (Joins base.service start initial blocks) (pollErrandFetch session).2 := by
  obtain ⟨⟨fetch, events, rfl, hrun⟩, now⟩ := h
  have kept : Joins base.service start initial blocks (.fetch fetch) _ := ⟨fetch, events, rfl, hrun⟩
  rw [pollErrandFetch_within, Fetch.next_of_pending hpending]
  exact .intro kept now

/-- To join a fetch is to poll a call until it has ended, if it is over a steady service. -/
theorem joined_fetch {fileId : String} {base : Session}
    {start : StateM Backend (Except RetrievalError (Fetch ⊕ Nat))} {initial : Backend} {blocks : List Block}
    {owed : List (Except RetrievalError Block)} (fuel : Nat)
    (hretrieving : Retrieving false holds answer reply fileId owed session) (hfuel : owed.length < fuel)
    (h : Plays base (Joins base.service start initial blocks) session) :
    ∃ (events : List OperationEvent) (left : Option Fetch),
      Call.run base.service start events initial =
        ⟨.ended (some (answerBlocks ((joinFrom pollErrandFetch fuel session).1.map (blocks ++ ·)))),
          (dropErrand (joinFrom pollErrandFetch fuel session).2).2.backend, left⟩ := by
  induction fuel generalizing blocks owed session with
  | zero => simp at hfuel
  | succ fuel ih =>
    have hawaited := awaited_await (fun h => attempted_pollErrandFetch h) hretrieving
    have hwaited := waited_await pollErrandFetch (keptBySteps_joins base.service start initial blocks)
      joins_of_pending h
    rw [joinFrom, Action.bind_run]
    generalize await pollErrandFetch session = found at hawaited hwaited
    cases hwaited with
    | nothing plays => cases hawaited
    | attempted plays =>
      obtain ⟨⟨fetch, events, rfl, hrun⟩, now⟩ := plays
      rw [pollErrandFetch_within] at hawaited ⊢
      rcases hnext : fetch.next with ⟨poll, later⟩
      rw [hnext] at hawaited
      cases hawaited with
      | ended nothing =>
        obtain ⟨more, left, hend⟩ := Call.exists_end hrun (.ok blocks) (by rw [hnext]; rfl)
        rw [hnext] at hend
        refine ⟨more, left, hend.trans ?_⟩
        show _ = Undertaking.mk (Call.ended (some (answerBlocks (.ok (blocks ++ []))))) _ _
        rw [List.append_nil]
        rfl
      | @item _ result rest first retrieving _ =>
        cases result with
        | error error =>
          obtain ⟨more, left, hend⟩ := Call.exists_end hrun (.error error) (by rw [hnext]; rfl)
          rw [hnext] at hend
          exact ⟨more, left, hend⟩
        | ok block =>
          have hjoining := Call.run_next hrun (by rw [hnext])
          rw [hnext] at hjoining
          obtain ⟨more, left, hmore⟩ := ih retrieving (by rw [first, List.length_cons] at hfuel; omega)
            (.intro ⟨later, _, rfl, hjoining⟩ now)
          refine ⟨more, left, hmore.trans ?_⟩
          simp only [Action.bind_run]
          generalize joinFrom pollErrandFetch fuel _ = joined
          obtain ⟨result, last⟩ := joined
          cases result with
          | error error => rfl
          | ok others =>
            show Undertaking.mk (Call.ended (some (Answer.blocks (blocks ++ [block] ++ others)))) _ left = _
            rw [List.append_assoc]
            rfl

/-- What a session answers to a call for blocks over a steady service, if it has nothing else under way, and what it
does to the services, is what comes of the operation under some schedule. -/
theorem carries_blocks (hidle : session.Idle) (hsteady : session.service.Steady holds answer reply)
    (hholds : holds session.backend) (fileId : String) (numbers : Option (List Nat)) :
    Carries (.blocks numbers) retriever fileId (blocks fileId numbers retriever) session := by
  rcases hfound : retriever.blocks session.service fileId numbers session.backend with ⟨begun, backend⟩
  have hstart : retriever.beginBlocks session.service fileId numbers session.backend = (begun.map .inl, backend) :=
    congrArg (Prod.map (Except.map Sum.inl) id) hfound
  have hpolled := Call.run_poll session.service (retriever.beginBlocks session.service fileId numbers) session.backend
  rw [hstart] at hpolled
  cases begun with
  | error error =>
    refine ⟨[.poll true], ?_⟩
    simp only [Operation.run, hpolled, Session.blocks, Action.bind_run, withService_run, hfound]
    rfl
  | ok fetch =>
    obtain ⟨file, chunks, rfl, hafter⟩ := Retriever.exists_start hsteady hholds hfound
    have hplays := hidle.plays.1 _ (show Joins session.service (retriever.beginBlocks session.service fileId numbers)
      session.backend [] (.fetch (Fetch.start file chunks retriever.limits.blockLimit)) backend from
        ⟨_, [.poll true], rfl, hpolled⟩)
    obtain ⟨events, left, hevents⟩ := joined_fetch
      ((Fetch.start file chunks retriever.limits.blockLimit).size + 1)
      (retrieving_fetch { session with backend } hsteady hafter fileId file chunks retriever.limits.blockLimit)
      (by simp [Fetch.size, Fetch.start]) hplays
    refine ⟨events, ?_⟩
    simp only [Operation.run, hevents, Session.blocks, Action.bind_run, withService_run, hfound, Action.modify_run]
    generalize joinFrom pollErrandFetch _ _ = joined
    obtain ⟨result, last⟩ := joined
    cases result <;> rfl

/-- What a session answers to a call for a size, and what it does to the services, is what comes of the operation when
it is polled. -/
theorem carries_fileSize {name : String} (hretriever : session.retrievers.get? name = some retriever)
    (fileId : String) :
    Carries .fileSize retriever fileId (perform (.fileSize name fileId)) session := by
  rcases hfound : retriever.fileSize session.service fileId session.backend with ⟨size, backend⟩
  have hstart : retriever.beginFileSize session.service fileId session.backend = (size.map .inr, backend) :=
    congrArg (Prod.map (Except.map Sum.inr) id) hfound
  have hpolled := Call.run_poll session.service (retriever.beginFileSize session.service fileId) session.backend
  rw [hstart] at hpolled
  refine ⟨[.poll true], ?_⟩
  simp only [Operation.run, hpolled, perform, withRetriever, Action.bind_run, Action.get_run, hretriever,
    withService_run, hfound]
  cases size <;> rfl

/-- A session that starts has nothing under way. -/
theorem idle_start (transport : Transport) (credentials : Credentials) (requiredToken : Option String) :
    (start transport credentials requiredToken).Idle := ⟨rfl, rfl⟩

/-- A session that reaches its depot directly carries calls and readings out like that whatever the depot has in
store. -/
theorem carries_of_direct (htransport : session.transport = .direct) (hidle : session.Idle) (retriever : Retriever)
    (fileId : String) (numbers : Option (List Nat)) (range : ByteRange) :
    Carries (.blocks numbers) retriever fileId (blocks fileId numbers retriever) session ∧
      Carries (.readRange range) retriever fileId (readRange fileId range retriever) session := by
  have hservice : session.service = Overlay.service Depot.service := by
    rw [service, htransport]
    rfl
  have hsteady := Overlay.steady (Depot.steady session.backend.inner) session.backend
  rw [← hservice] at hsteady
  exact ⟨carries_blocks hidle hsteady ⟨rfl, rfl, rfl⟩ fileId numbers,
    carries_readRange hidle hsteady ⟨rfl, rfl, rfl⟩ fileId range⟩

/-- The steps of a session that are about a stream under a name, or about nothing that it has under way. -/
inductive OnStream (name : String) : Step → Prop
  | next : OnStream name (.next name)
  | collect : OnStream name (.collect name)
  | cancel : OnStream name (.cancel name)
  | describe : OnStream name (.describe name)
  | sleep (milliseconds : Nat) : OnStream name (.sleep milliseconds)
  | now : OnStream name .now
  | tally : OnStream name .tally

/-- The answer to a wait for a fragment gives what the wait has brought. -/
theorem items_answerFragment (poll : Poll Block) :
    Answer.items (answerFragment poll) = FragmentStream.yielded [poll] := by
  cases poll with
  | item result => cases result <;> rfl
  | pending | ended => rfl

variable {base : Session} {name : String} {start : Life Backend} {stopped : Prop}
  {items : List (Except RetrievalError Block)}

/-- The stream of a session that has only one, under a name. -/
theorem get?_of_plays {keeps : Life Backend → Prop} (h : Plays base ((Seat.named name).Shows keeps) session) :
    ∃ life, keeps life ∧ session.streams.get? name = some life.stream ∧ session.backend = life.backend := by
  obtain ⟨⟨life, hlife, rfl, rfl⟩, now⟩ := h
  exact ⟨life, hlife, Named.get?_single name life.stream, rfl⟩

/-- To cancel the stream is to cancel its life. -/
theorem performed_cancel (hstopped : stopped)
    (h : Plays base ((Seat.named name).Shows (Life.Rehearsed base.service start stopped items)) session) :
    Plays base ((Seat.named name).Shows (Life.Rehearsed base.service start stopped items))
      (perform (.cancel name) session).2 := by
  obtain ⟨⟨life, hlife, rfl, rfl⟩, now⟩ := h
  have kept : (Seat.named name).Shows (Life.Rehearsed base.service start stopped items)
      (.named name life.stream.cancel) (life.stream.downloads.forM base.service.abandoned life.backend).2 :=
    ⟨_, hlife.cancel hstopped, rfl, rfl⟩
  simp only [perform, withStream, Action.bind_run, Action.get_run, Seat.named, Solo.within, Named.get?_single,
    withService_run, Action.modify_run]
  rw [show (FragmentStream.cancelWith _ life.stream _).1 = life.stream.cancel from rfl, Named.put_single]
  exact .intro kept now

/-- A step that is about the stream is one of a rehearsed life. -/
theorem performed {step : Step} (hstep : OnStream name step) (hstopped : step = .cancel name → stopped)
    (h : Plays base ((Seat.named name).Shows (Life.Rehearsed base.service start stopped items)) session) :
    Plays base
      ((Seat.named name).Shows (Life.Rehearsed base.service start stopped (items ++ (perform step session).1.items)))
      (perform step session).2 := by
  have hunchanged : Plays base
      ((Seat.named name).Shows (Life.Rehearsed base.service start stopped (items ++ []))) session := by
    rwa [List.append_nil]
  obtain ⟨life, -, hget, -⟩ := get?_of_plays h
  cases hstep with
  | next =>
    have hawaited := (Seat.awaited h).mono (Seat.Shows.mono fun _ hlater => hlater.1)
    rw [← items_answerFragment] at hawaited
    simp only [perform, withStream, Action.bind_run, Action.get_run, hget]
    exact hawaited
  | collect =>
    have hawaited := Seat.awaited h
    simp only [perform, withStream, Action.bind_run, Action.get_run, hget, collect]
    change Plays base ((Seat.named name).Shows
      (Seat.Polled base.service start stopped items (await (pollNamedStream name) session).1))
      (await (pollNamedStream name) session).2 at hawaited
    generalize await (pollNamedStream name) session = found at hawaited
    obtain ⟨poll, after⟩ := found
    cases poll with
    | pending | ended => exact hawaited.mono (Seat.Shows.mono fun _ hlater => hlater.1)
    | item first =>
      have hrest := Seat.collected (((after.streams.get? name).map streamBound).getD 0)
        (hawaited.mono (Seat.Shows.mono fun _ hlater => hlater.1))
      rw [List.append_assoc] at hrest
      exact hrest
  | cancel =>
    have hcancelled := performed_cancel (hstopped rfl) hunchanged
    simp only [perform, withStream, Action.bind_run, Action.get_run, hget] at hcancelled ⊢
    exact hcancelled
  | describe =>
    simp only [perform, withStream, Action.bind_run, Action.get_run, hget]
    exact hunchanged
  | sleep milliseconds =>
    have hslept := hunchanged.sleep ((Seat.named name).keptBySteps base.service start stopped _) milliseconds
    exact hslept
  | now => exact hunchanged
  | tally => exact hunchanged

/-- So are all the steps, one after the other. -/
theorem performed_all {steps : List Step} (hsteps : ∀ step ∈ steps, OnStream name step)
    (hstopped : .cancel name ∈ steps → stopped)
    (h : Plays base ((Seat.named name).Shows (Life.Rehearsed base.service start stopped items)) session) :
    Plays base
      ((Seat.named name).Shows
        (Life.Rehearsed base.service start stopped
          (items ++ (steps.mapM performAndSettle session).1.flatMap Answer.items)))
      (steps.mapM performAndSettle session).2 := by
  induction steps generalizing items session with
  | nil =>
    show Plays base ((Seat.named name).Shows (Life.Rehearsed base.service start stopped (items ++ []))) session
    rwa [List.append_nil]
  | cons step rest ih =>
    have hfirst := performed (hsteps step List.mem_cons_self)
      (fun hcancel => hstopped (hcancel ▸ List.mem_cons_self)) h
    have hsettled := hfirst.settle ((Seat.named name).keptBySteps base.service start stopped _)
    have hrest := ih (fun other hmem => hsteps other (List.mem_cons_of_mem _ hmem))
      (fun hmem => hstopped (List.mem_cons_of_mem _ hmem)) hsettled
    rw [List.append_assoc] at hrest
    rw [List.mapM_cons]
    exact hrest

/-- A stream that is opened has not been polled. -/
theorem plays_openStream (name : String) (hidle : session.Idle) (herrand : session.errand = .none)
    {fileId : String} {range : ByteRange} {credentials : Credentials} {limit : Nat}
    (hstream : retriever.stream fileId range = .ok (.ofRange fileId credentials range limit)) (stopped : Prop) :
    Plays session
      ((Seat.named name).Shows
        (Life.Rehearsed session.service (.start fileId credentials range limit session.backend) stopped []))
      (openStream name fileId range retriever session).2 := by
  have kept : (Seat.named name).Shows
      (Life.Rehearsed session.service (.start fileId credentials range limit session.backend) stopped [])
      (.named name (.ofRange fileId credentials range limit)) session.backend :=
    ⟨_, .refl session.service fileId credentials range limit session.backend stopped, rfl, rfl⟩
  obtain ⟨transport, caller, requiredToken, backend, now, retrievers, streams, files, fetches, errand⟩ := session
  obtain ⟨rfl, rfl⟩ := hidle
  obtain rfl : errand = .none := herrand
  rw [openStream, hstream]
  exact .intro kept now

/-- A stream in a session that has nothing else under way, through any steps that are about it: there are events with
which its life comes to the same, with the services, and with polls that bring what the steps are answered with. It is
cancelled only if a step says so. The operation comes to the same under some schedule. -/
theorem openStream_rehearsed (hidle : session.Idle) (herrand : session.errand = .none)
    (hactive : retriever.isShutDown = false) (name fileId : String) (range : ByteRange) {steps : List Step}
    (hsteps : ∀ step ∈ steps, OnStream name step) :
    let ran := steps.mapM performAndSettle (openStream name fileId range retriever session).2
    ∃ events,
      let life := (Life.start fileId retriever.credentials range retriever.limits.streamLimit session.backend).run
        session.service events
      ran.2.streams.get? name = some life.stream ∧ ran.2.backend = life.backend ∧
      FragmentStream.yielded life.found = ran.1.flatMap Answer.items ∧
      (life.stream.state = .cancelled → .cancel name ∈ steps) ∧
      ∃ more, (Operation.stream range).run session.service retriever fileId more session.backend =
        (.streamed life.stream.state life.found, ran.2.backend) := by
  have hstream : retriever.stream fileId range =
      .ok (.ofRange fileId retriever.credentials range retriever.limits.streamLimit) := by
    rw [Retriever.stream, hactive]
    rfl
  have hplays := plays_openStream name hidle herrand hstream (.cancel name ∈ steps)
  have hran := performed_all hsteps id hplays
  intro ran
  obtain ⟨life, hlife, hget, hbackend⟩ := get?_of_plays hran
  obtain ⟨events, rfl⟩ := hlife.reached
  refine ⟨events, hget, hbackend, hlife.items, hlife.uncancelled, ?_⟩
  obtain ⟨more, left, hmore⟩ := Course.exists_run session.service fileId retriever.credentials range
    retriever.limits.streamLimit session.backend events
  refine ⟨more, ?_⟩
  simp only [Operation.run, hstream, hmore]
  rw [hbackend]

end Session

end Reassembly
