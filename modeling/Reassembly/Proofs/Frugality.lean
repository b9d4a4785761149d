import Reassembly.Proofs.Bounds
import Reassembly.Proofs.ExactCover
import Reassembly.Proofs.RangeRead
import Reassembly.Proofs.Retrieval.Ledger
import Reassembly.Proofs.Retrieval.Recording

/-!
# What is asked of the services

An operation asks its services only for what it needs. The manifest is asked for once, and not before the operation is
polled; a payload is asked for when the file is resolved and its chunk is selected, and no more often than it is. This
is said of the record of any run, whatever the services answer, and whether the operation succeeds, fails or is
cancelled. What an operation succeeds with is not said here.
-/

namespace Reassembly

open List (Perm)

variable {σ : Type}

namespace ResolvedFile

/-- What it takes to resolve a file: a manifest that can be laid out, and a content key that can be unwrapped. -/
theorem ofAnswer_eq_ok_iff {fileId : String} {credentials : Credentials} {answer : Except ServiceError Manifest}
    {file : ResolvedFile} :
    ofAnswer fileId credentials answer = .ok file ↔
      ∃ manifest, answer = .ok manifest ∧ Layout.ofManifest fileId manifest = .ok file.layout ∧
        unwrapKey file.layout credentials.secret = .ok file.contentKey := by
  constructor
  · intro h
    obtain ⟨manifest, hanswer, h⟩ := Result.bind_eq_ok_iff.mp h
    obtain ⟨layout, hlayout, h⟩ := Result.bind_eq_ok_iff.mp h
    obtain ⟨key, hkey, h⟩ := Result.bind_eq_ok_iff.mp h
    obtain rfl := Except.ok.inj h
    exact ⟨manifest, Result.mapError_eq_ok_iff.mp hanswer, hlayout, hkey⟩
  · rintro ⟨manifest, rfl, hlayout, hkey⟩
    rw [ofAnswer, Except.mapError, Result.ok_bind, hlayout, Result.ok_bind, hkey]
    rfl

end ResolvedFile

/-- A chunk that a range selects holds a byte that the range asks for, unless it is empty. -/
theorem Layout.exists_asked_of_selectRange {layout : Layout} (h : layout.Complete) {range normalized : ByteRange}
    {selected : List Chunk} (hselected : layout.selectRange range = .ok (normalized, selected))
    (horder : ∀ last, range.last = some last → range.start ≤ last) {chunk : Chunk} (hmem : chunk ∈ selected)
    (hlength : chunk.length ≠ 0) : ∃ byte, chunk.Holds byte ∧ range.Asks layout.size byte := by
  obtain ⟨hnormal, rfl⟩ := selectRange_eq_ok hselected
  have hkept := ByteRange.normalized_of_normalize hnormal
  have hbound : ∀ last, normalized.bound? = some last → normalized.start ≤ last ∧ last < layout.size := by
    intro last hlast
    obtain ⟨hrange, hinside⟩ := (ByteRange.bound?_of_normalize hnormal).mp hlast
    exact ⟨hkept.start_eq ▸ horder last (ByteRange.last_of_bound? hrange), hinside⟩
  exact ((h.covers_overlapping hbound).of_normalize hnormal).exact chunk hmem hlength

namespace Operation

/-- The chunks that an operation needs, once the metadata service has answered. -/
def needs (fileId : String) (credentials : Credentials) (answer : Except ServiceError Manifest)
    (operation : Operation) : Except RetrievalError (List Chunk) :=
  (ResolvedFile.ofAnswer fileId credentials answer).bind fun file => operation.select file.layout

variable {fileId : String} {credentials : Credentials} {answer : Except ServiceError Manifest}
  {retriever : Retriever} {events : List OperationEvent}

/-- A stream is to download the chunks that it needs. -/
theorem planned_ofRange (range : ByteRange) (limit : Nat) :
    (FragmentStream.ofRange fileId credentials range limit).planned answer =
      needs fileId credentials answer (stream range) := by
  rw [FragmentStream.planned, FragmentStream.opening, FragmentStream.ofRange, needs]
  cases ResolvedFile.ofAnswer fileId credentials answer with
  | error error => rfl
  | ok file =>
    show Except.map _ (file.layout.selectRange range >>= _) = Except.map _ _
    cases file.layout.selectRange range with
    | error error => rfl
    | ok selected => exact congrArg Except.ok (FetchTask.unasked_start file selected.2 limit)

/-- A retrieval of blocks is to download the chunks that it needs. -/
theorem planned_blocks (numbers : Option (List Nat)) (limit : Nat) :
    Call.planned (((ResolvedFile.ofAnswer fileId credentials answer).bind fun file =>
      (file.layout.selectNumbers numbers).map fun chunks => Fetch.start file chunks limit).map .inl) =
      needs fileId credentials answer (blocks numbers) := by
  rw [needs]
  cases ResolvedFile.ofAnswer fileId credentials answer with
  | error error => rfl
  | ok file =>
    show Call.planned (((file.layout.selectNumbers numbers).map _).map _) = file.layout.selectNumbers numbers
    cases file.layout.selectNumbers numbers with
    | error error => rfl
    | ok chunks => exact congrArg Except.ok (FetchTask.unasked_start file chunks limit)

/-- A request for a size is to download nothing. -/
theorem planned_fileSize :
    Call.planned (((ResolvedFile.ofAnswer fileId credentials answer).map (·.layout.size)).map .inr) =
      needs fileId credentials answer fileSize := by
  rw [needs]
  cases ResolvedFile.ofAnswer fileId credentials answer <;> rfl

/-- An operation begins when it is polled before it is cancelled, if its retriever is not shut down. -/
def begins (retriever : Retriever) (events : List OperationEvent) : Bool :=
  !retriever.isShutDown && OperationEvent.wake events

/-- What an operation has asked for, in a run that has ended with a record and an outcome, is right. -/
def Right (service : Service σ) (retriever : Retriever) (fileId : String) (events : List OperationEvent)
    (operation : Operation) (backend : σ) (ran : Outcome × σ × List Question) : Prop :=
  Balanced (if begins retriever events then [.manifest fileId] else [])
    (if begins retriever events then
      operation.needs fileId retriever.credentials (service.lookup fileId backend).1 else .error .shutDown)
    ran.2.2 ran.1.Succeeds

/-- What a call has asked for is right that asks for its manifest when it begins. -/
theorem right_call (hactive : retriever.isShutDown = false) {service : Service σ} {operation : Operation} {backend : σ}
    {start : StateM (σ × List Question) (Except RetrievalError (Fetch ⊕ Nat))}
    {started : Except RetrievalError (Fetch ⊕ Nat)}
    (hstart : start (backend, []) = (started, ((service.lookup fileId backend).2, [.manifest fileId])))
    (hplanned : Call.planned started =
      operation.needs fileId retriever.credentials (service.lookup fileId backend).1) :
    let call := Call.run service.recorded start events (backend, [])
    Right service retriever fileId events operation backend (.answered call.stage.answer?, call.backend) := by
  have hbalanced := Call.balanced_run service start events backend
  rw [hstart, hplanned] at hbalanced
  rw [Right, begins, hactive]
  exact hbalanced

/-- What a call has asked for is right that is refused. -/
theorem right_refused (hshut : retriever.isShutDown = true) {service : Service σ} {operation : Operation} {backend : σ}
    {start : StateM (σ × List Question) (Except RetrievalError (Fetch ⊕ Nat))}
    (hstart : start (backend, []) = (.error .shutDown, (backend, []))) :
    let call := Call.run service.recorded start events (backend, [])
    Right service retriever fileId events operation backend (.answered call.stage.answer?, call.backend) := by
  have hbalanced := Call.balanced_run service start events backend
  rw [hstart, Call.planned, Except.map, ite_self, ite_self] at hbalanced
  rw [Right, begins, hshut]
  exact hbalanced

/-- What a stream has asked for is right. -/
theorem right_course (hactive : retriever.isShutDown = false) (service : Service σ) (fileId : String)
    (events : List OperationEvent) (range : ByteRange) (backend : σ) :
    let idle := FragmentStream.ofRange fileId retriever.credentials range retriever.limits.streamLimit
    let course := Course.run service.recorded idle events (backend, [])
    Right service retriever fileId events (stream range) backend
        (.streamed course.stage.stream.state course.stage.found, course.backend) ∧
      (course.stage.stream.state = .failed →
        ∃ error, .error error ∈ FragmentStream.yielded course.stage.found) := by
  intro idle course
  have hholding : idle.holding = .unopened := rfl
  obtain ⟨hbalanced, hfailed⟩ := Course.balanced_run rfl hholding service events backend
  refine ⟨?_, hfailed⟩
  rw [planned_ofRange] at hbalanced
  rw [Right, begins, hactive]
  exact hbalanced

/-- A reading of a range succeeds only if its stream is completed. -/
theorem completed_of_succeeds {course : Course}
    (hfailed : course.stream.state = .failed → ∃ error, .error error ∈ FragmentStream.yielded course.found)
    (h : (Outcome.answered course.answer?).Succeeds) : course.stream.state = .completed := by
  rw [Course.answer?] at h
  cases hstate : course.stream.state with
  | completed => rfl
  | idle | streaming | cancelled => simp [hstate, Outcome.Succeeds] at h
  | failed =>
    obtain ⟨error, hmem⟩ := hfailed hstate
    cases hall : (FragmentStream.yielded course.found).mapM id with
    | error first => simp [hstate, hall, Outcome.Succeeds, Session.answerBytes] at h
    | ok blocks =>
      obtain ⟨block, hblock⟩ := Result.exists_ok_of_mapM hall hmem
      simp at hblock

/-- What an operation has asked for is right. -/
theorem right_run (service : Service σ) (retriever : Retriever) (fileId : String) (events : List OperationEvent)
    (operation : Operation) (backend : σ) :
    Right service retriever fileId events operation backend
      (operation.run service.recorded retriever fileId events (backend, [])) := by
  cases hactive : retriever.isShutDown with
  | true =>
    have hresolve : retriever.resolve service.recorded fileId = pure (.error .shutDown) := by
      rw [Retriever.resolve, hactive]
      rfl
    have hstream : ∀ range, retriever.stream fileId range = .error .shutDown := fun range => if_pos hactive
    cases operation with
    | blocks numbers => exact right_refused hactive (by rw [Retriever.beginBlocks, Retriever.blocks, hresolve]; rfl)
    | fileSize => exact right_refused hactive (by rw [Retriever.beginFileSize, Retriever.fileSize, hresolve]; rfl)
    | stream range | readRange range =>
      simp only [run, hstream]
      rw [Right, begins, hactive]
      exact ⟨⟨[], .bare rfl rfl⟩, False.elim⟩
  | false =>
    have hresolve : retriever.resolve service.recorded fileId = (service.recorded.lookup fileId >>= fun answer =>
        pure (ResolvedFile.ofAnswer fileId retriever.credentials answer)) := by
      rw [Retriever.resolve, hactive]
      rfl
    have hstream : ∀ range, retriever.stream fileId range =
        .ok (.ofRange fileId retriever.credentials range retriever.limits.streamLimit) :=
      fun range => if_neg (by simp [hactive])
    cases operation with
    | blocks numbers =>
      exact right_call hactive (by rw [Retriever.beginBlocks, Retriever.blocks, hresolve]; rfl)
        (planned_blocks numbers retriever.limits.blockLimit)
    | fileSize =>
      exact right_call hactive (by rw [Retriever.beginFileSize, Retriever.fileSize, hresolve]; rfl) planned_fileSize
    | stream range =>
      simp only [run, hstream]
      exact (right_course hactive service fileId events range backend).1
    | readRange range =>
      simp only [run, hstream]
      obtain ⟨hright, hfailed⟩ := right_course hactive service fileId events range backend
      exact ⟨hright.ledger, fun hsuccess => hright.thorough (completed_of_succeeds hfailed hsuccess)⟩

/-- Without a poll an operation does not begin, and with a retriever that is shut down it does not either. -/
theorem begins_eq_false (h : retriever.isShutDown = true ∨ ∀ answered, .poll answered ∉ events) :
    begins retriever events = false := by
  rcases h with hshut | hunpolled
  · rw [begins, hshut]
    rfl
  · suffices hsleeps : OperationEvent.wake events = false by rw [begins, hsleeps, Bool.and_false]
    induction events with
    | nil => rfl
    | cons event rest ih =>
      have hrest : ∀ answered, OperationEvent.poll answered ∉ rest := fun answered hmem =>
        hunpolled answered (List.mem_cons_of_mem _ hmem)
      cases event with
      | poll answered => exact absurd List.mem_cons_self (hunpolled answered)
      | cancel => rfl
      | task | linger => exact ih hrest

/-- The chunks that an operation needs are those that it selects from a file that was found, laid out and unlocked. -/
theorem needs_eq_ok_iff {operation : Operation} {selected : List Chunk} :
    operation.needs fileId credentials answer = .ok selected ↔ ∃ file : ResolvedFile,
      ResolvedFile.ofAnswer fileId credentials answer = .ok file ∧ operation.select file.layout = .ok selected :=
  Result.bind_eq_ok_iff

/-- A chunk that an operation selects holds a byte of its range, unless the chunk is empty or the range ends before it
starts. -/
theorem holds_of_select {operation : Operation} {layout : Layout} (hcomplete : layout.Complete) {selected : List Chunk}
    (hselect : operation.select layout = .ok selected) {range : ByteRange} (hrange : operation.range? = some range)
    (horder : ∀ last, range.last = some last → range.start ≤ last) {chunk : Chunk} (hmem : chunk ∈ selected)
    (hlength : chunk.length ≠ 0) : ∃ byte, chunk.Holds byte ∧ range.Asks layout.size byte := by
  have hselected : ∃ normalized, layout.selectRange range = .ok (normalized, selected) := by
    cases operation with
    | blocks | fileSize => simp [range?] at hrange
    | stream other | readRange other =>
      obtain rfl : other = range := Option.some.inj hrange
      obtain ⟨⟨normalized, chunks⟩, hchunks, rfl⟩ := Result.map_eq_ok_iff.mp hselect
      exact ⟨normalized, hchunks⟩
  obtain ⟨normalized, hnormalized⟩ := hselected
  exact Layout.exists_asked_of_selectRange hcomplete hnormalized horder hmem hlength

end Operation

open Operation in
/-- What an operation asks of the services.

Whatever a service answers and whatever happens in whichever order, an operation asks for one manifest at most, that of
its file, and asks for it exactly when it is polled before it is cancelled, with a retriever that is not shut down. All
that it asks for besides are payloads of chunks. If there are any, or if it ends in success, then the file was found,
its manifest laid out and its key unwrapped, and the chunks are some of those that the operation selects, none more
often than it is selected; all of them, when it ends in success. If it is for a range of bytes that does not end before
it starts, every chunk that it asks for holds a byte that the range asks for, or is empty. That the questions are
recorded changes nothing. -/
theorem operation_asks_as_needed (service : Service σ) (retriever : Retriever) (fileId : String) (operation : Operation)
    (events : List OperationEvent) (backend : σ) :
    let ran := operation.run service.recorded retriever fileId events (backend, [])
    (ran.1 = (operation.run service retriever fileId events backend).1 ∧
      ran.2.1 = (operation.run service retriever fileId events backend).2) ∧
    ((retriever.isShutDown = true ∨ ∀ answered, .poll answered ∉ events) → ran.2.2 = []) ∧
    ∃ asked : List Chunk,
      ran.2.2 = (if begins retriever events then [.manifest fileId] else []) ++ asked.map .ofChunk ∧
      (asked ≠ [] ∨ ran.1.Succeeds → ∃ manifest layout key selected,
        (service.lookup fileId backend).1 = .ok manifest ∧ Layout.ofManifest fileId manifest = .ok layout ∧
        ResolvedFile.unwrapKey layout retriever.credentials.secret = .ok key ∧ operation.select layout = .ok selected ∧
        List.Subperm asked selected ∧ (ran.1.Succeeds → Perm asked selected) ∧
        ∀ range, operation.range? = some range → (∀ last, range.last = some last → range.start ≤ last) →
          ∀ chunk ∈ asked, chunk.length ≠ 0 → ∃ byte, chunk.Holds byte ∧ range.Asks layout.size byte) := by
  intro ran
  obtain ⟨record, hrecords⟩ := records_run service retriever fileId events operation backend []
  obtain ⟨asked, hrecord, hasked⟩ :=
    Balanced.exists_asked (right_run service retriever fileId events operation backend)
  refine ⟨⟨congrArg (·.1) hrecords, congrArg (·.2.1) hrecords⟩, fun hidle => ?_, asked, hrecord, fun hsome => ?_⟩
  · have hbegins := begins_eq_false hidle
    -- What does not begin has no plan, so there is no chunk that it can have asked for.
    have hnone : asked = [] := by
      by_contra hsome
      obtain ⟨selected, hplan, -⟩ := hasked (.inl hsome)
      simp [hbegins] at hplan
    rw [hrecord, hbegins, hnone]
    rfl
  · obtain ⟨selected, hplan, hsubperm, hperm⟩ := hasked hsome
    cases hbegins : begins retriever events with
    | false => simp [hbegins] at hplan
    | true =>
      rw [hbegins] at hplan
      obtain ⟨file, hfile, hselect⟩ := needs_eq_ok_iff.mp hplan
      obtain ⟨manifest, hmanifest, hlayout, hkey⟩ := ResolvedFile.ofAnswer_eq_ok_iff.mp hfile
      have hcomplete := (ResolvedFile.complete_of_ofAnswer hfile).1
      exact ⟨manifest, file.layout, _, selected, hmanifest, hlayout, hkey, hselect, hsubperm, hperm,
        fun range hrange horder chunk hmem =>
          holds_of_select hcomplete hselect hrange horder (hsubperm.subset hmem)⟩

/-- A stream of the second byte of the file of three chunks, polled until it is completed. -/
def Operation.second : Outcome × Unit × List Question :=
  (stream ⟨1, some 1, false⟩).run Service.sample.recorded Retriever.sample "f"
    [.poll true, .task (.request 0 0), .task (.deliver 0), .task (.decode 0), .poll true, .poll true] ((), [])

/-- This stream completes, and asks for the first of the three chunks, which is the one that it selects. -/
theorem operation_asks_as_needed_sample :
    Operation.second.1 = .streamed .completed [.pending, .item (.ok ⟨"f", 1, 1, [7]⟩), .ended] ∧
      Operation.second.2.2 = [.manifest "f", .payload "a"] ∧
      ∃ asked selected : List Chunk, Operation.second.2.2 = [.manifest "f"] ++ asked.map .ofChunk ∧
        (Operation.stream ⟨1, some 1, false⟩).select ResolvedFile.sample.layout = .ok selected ∧
        Perm asked selected := by
  have hran : Operation.second = (.streamed .completed [.pending, .item (.ok ⟨"f", 1, 1, [7]⟩), .ended], (),
      [.manifest "f", .payload "a"]) := by cbv
  have hsucceeds : Operation.second.1.Succeeds := by
    rw [hran]
    rfl
  obtain ⟨-, -, asked, hrecord, hasked⟩ := operation_asks_as_needed Service.sample Retriever.sample "f"
    (.stream ⟨1, some 1, false⟩)
    [.poll true, .task (.request 0 0), .task (.deliver 0), .task (.decode 0), .poll true, .poll true] ()
  obtain ⟨manifest, layout, key, selected, hmanifest, hlayout, -, hselect, -, hperm, -⟩ := hasked (.inr hsucceeds)
  obtain rfl : Manifest.sample = manifest := Except.ok.inj hmanifest
  have hlaid : Layout.ofManifest "f" .sample = .ok ResolvedFile.sample.layout := by with_unfolding_all rfl
  obtain rfl : ResolvedFile.sample.layout = layout := Except.ok.inj (hlaid.symm.trans hlayout)
  exact ⟨congrArg (·.1) hran, congrArg (·.2.2) hran, asked, selected, hrecord, hselect, hperm hsucceeds⟩

end Reassembly
