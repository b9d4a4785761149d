import Reassembly.Proofs.Retrieval.Operation
import Reassembly.Proofs.Service.Record

/-!
# Records of operations

That a service records what it is asked changes nothing: an operation goes on as it does without. So what is shown of
a record is shown of the operation itself.
-/

namespace Reassembly

variable {σ γ α β : Type}

/-- An action on a recorded service does what another does without the record. -/
def Records (recorded : StateM (σ × List Question) α) (act : StateM σ α) : Prop :=
  ∀ backend record, ∃ after, recorded (backend, record) = ((act backend).1, (act backend).2, after)

namespace Records

theorem pure (a : α) : Records (Pure.pure a : StateM (σ × List Question) α) (Pure.pure a) :=
  fun _ record => ⟨record, rfl⟩

theorem map {recorded : StateM (σ × List Question) α} {act : StateM σ α} (h : Records recorded act) (f : α → β) :
    Records (f <$> recorded) (f <$> act) := by
  intro backend record
  obtain ⟨after, hafter⟩ := h backend record
  refine ⟨after, ?_⟩
  show (f (recorded (backend, record)).1, (recorded (backend, record)).2) = _
  rw [hafter]
  rfl

theorem lookup (service : Service σ) (fileId : String) :
    Records (service.recorded.lookup fileId) (service.lookup fileId) :=
  fun _ record => ⟨record ++ [.manifest fileId], rfl⟩

/-- A step of a task goes on as it does without a record. -/
theorem work (service : Service σ) (step : TaskStep) (fetch : Fetch) :
    Records (fetch.workWith service.recorded step) (fetch.workWith service step) := by
  cases step with
  | request i now =>
    simp only [Fetch.workWith]
    cases fetch.tasks[i]? with
    | none => exact .pure fetch
    | some task =>
      obtain ⟨chunk, progress⟩ := task
      cases progress with
      | waiting =>
        cases fetch.hasPermit with
        | false => exact .pure fetch
        | true => exact fun _ record => ⟨record ++ [.ofChunk chunk], rfl⟩
      | downloading | decoding | done => exact .pure fetch
  | deliver i =>
    simp only [Fetch.workWith]
    cases fetch.tasks[i]?.bind FetchTask.download? with
    | none => exact .pure fetch
    | some download => exact fun _ record => ⟨record, rfl⟩
  | decode i => exact .pure (fetch.step (.decode i))

/-- So it does for a stream. -/
theorem onFetch (service : Service σ) (step : TaskStep) (stream : FragmentStream) :
    Records (stream.onFetch (Fetch.workWith service.recorded step))
      (stream.onFetch (Fetch.workWith service step)) := by
  rw [FragmentStream.onFetch, FragmentStream.onFetch]
  cases stream.holding with
  | unopened | released => exact .pure stream
  | fetching fetch => exact (work service step fetch).map fun fetch => { stream with holding := .fetching fetch }

/-- A stream looks its file up as it does without a record. -/
theorem ask (service : Service σ) (course : Course) :
    Records (course.ask service.recorded) (course.ask service) := by
  rw [Course.ask, Course.ask]
  cases course.stream.isUnopened && course.answer.isNone with
  | false => exact .pure course
  | true => exact (lookup service course.stream.fileId).map fun answer => { course with answer := some answer }

/-- A retriever resolves a file as it does without a record. -/
theorem resolve (service : Service σ) (retriever : Retriever) (fileId : String) :
    Records (retriever.resolve service.recorded fileId) (retriever.resolve service fileId) := by
  rw [Retriever.resolve, Retriever.resolve]
  cases retriever.isShutDown with
  | true => exact .pure _
  | false => exact (lookup service fileId).map (ResolvedFile.ofAnswer fileId retriever.credentials)

/-- A call for blocks begins as it does without a record. -/
theorem beginBlocks (service : Service σ) (retriever : Retriever) (fileId : String) (numbers : Option (List Nat)) :
    Records (retriever.beginBlocks service.recorded fileId numbers) (retriever.beginBlocks service fileId numbers) :=
  ((resolve service retriever fileId).map fun resolved => resolved.bind fun file =>
    (file.layout.selectNumbers numbers).map fun chunks => Fetch.start file chunks retriever.limits.blockLimit).map _

/-- A call for a size begins as it does without a record. -/
theorem beginFileSize (service : Service σ) (retriever : Retriever) (fileId : String) :
    Records (retriever.beginFileSize service.recorded fileId) (retriever.beginFileSize service fileId) :=
  ((resolve service retriever fileId).map _).map _

end Records

namespace Crew

/-- A crew without the record of its service. -/
def plain (crew : Crew (σ × List Question)) : Crew σ := ⟨crew.fetch, crew.leaving, crew.backend.1⟩

/-- A step of a task whose result is awaited goes on as it does without a record. -/
theorem plain_work (service : Service σ) (crew : Crew (σ × List Question)) (step : TaskStep) :
    (crew.work service.recorded step).plain = crew.plain.work service step := by
  obtain ⟨fetch, leaving, backend, record⟩ := crew
  obtain ⟨after, hafter⟩ := Records.work service step fetch backend record
  simp only [work, hafter]
  rfl

/-- So does everything that happens to a crew. -/
theorem plain_perform (service : Service σ) (crew : Crew (σ × List Question)) (event : CrewEvent) :
    (crew.perform service.recorded event).plain = crew.plain.perform service event := by
  cases event with
  | task step => exact plain_work service crew step
  | straggle step => exact congrArg turned (plain_work service crew.turned step)
  | take | cancel => rfl
  | drop i =>
    simp only [perform, drop, plain]
    cases crew.leaving[i]? with
    | none => rfl
    | some task => cases htask : task.download? <;> simp [htask, Service.recorded]

end Crew

namespace Undertaking

/-- An operation without the record of its service. -/
def plain (undertaking : Undertaking γ (σ × List Question)) : Undertaking γ σ :=
  ⟨undertaking.stage, undertaking.backend.1, undertaking.left⟩

/-- An operation goes over to a stage as it does without a record. -/
theorem plain_turn (undertaking : Undertaking γ (σ × List Question)) (fetch : Option Fetch) (stage : γ) (ended : Bool) :
    (undertaking.turn fetch stage ended).plain = undertaking.plain.turn fetch stage ended := by
  cases ended <;> rfl

/-- What happens to a fetch that was let go of happens as it does without a record. -/
theorem plain_linger (service : Service σ) (undertaking : Undertaking γ (σ × List Question)) (event : CrewEvent) :
    (undertaking.linger service.recorded event).plain = undertaking.plain.linger service event := by
  obtain ⟨stage, backend, left⟩ := undertaking
  cases left with
  | none => rfl
  | some fetch =>
    have hcrew := Crew.plain_perform service (Crew.cancel ⟨fetch, [], backend⟩) event
    exact congrArg (fun crew : Crew σ => (⟨stage, crew.backend, some crew.turned.fetch⟩ : Undertaking γ σ)) hcrew

end Undertaking

namespace Course

/-- The course of a stream goes on as it does without a record. -/
theorem plain_perform (service : Service σ) (undertaking : Undertaking Course (σ × List Question))
    (event : OperationEvent) :
    (perform service.recorded undertaking event).plain = perform service undertaking.plain event := by
  obtain ⟨course, ⟨backend, record⟩, left⟩ := undertaking
  cases event with
  | task step =>
    obtain ⟨after, hafter⟩ := Records.onFetch service step course.stream backend record
    simp only [perform, hafter]
    rfl
  | poll answered =>
    obtain ⟨after, hafter⟩ := Records.ask service course backend record
    simp only [perform, hafter, Undertaking.plain_turn]
    rfl
  | cancel => rfl
  | linger event => exact Undertaking.plain_linger service _ event

/-- The course of a stream is the same with a record as without. -/
theorem plain_run (service : Service σ) (stream : FragmentStream) (events : List OperationEvent)
    (backend : σ × List Question) :
    (run service.recorded stream events backend).plain = run service stream events backend.1 :=
  (List.foldl_hom Undertaking.plain fun undertaking event => (plain_perform service undertaking event).symm).symm

end Course

namespace Call

variable {start : StateM σ (Except RetrievalError (Fetch ⊕ Nat))}
  {recorded : StateM (σ × List Question) (Except RetrievalError (Fetch ⊕ Nat))}

/-- A call goes on as it does without a record. -/
theorem plain_perform (h : Records recorded start) (service : Service σ)
    (undertaking : Undertaking Call (σ × List Question)) (event : OperationEvent) :
    (perform service.recorded recorded undertaking event).plain = perform service start undertaking.plain event := by
  obtain ⟨call, ⟨backend, record⟩, left⟩ := undertaking
  cases event with
  | task step =>
    cases call with
    | unpolled | asked | ended => rfl
    | joining fetch blocks =>
      obtain ⟨after, hafter⟩ := Records.work service step fetch backend record
      simp only [perform, hafter]
      rfl
  | poll answered =>
    have hask : Records (call.ask recorded) (call.ask start) := by
      cases call with
      | unpolled => exact h.map asked
      | asked | joining | ended => exact .pure _
    obtain ⟨after, hafter⟩ := hask backend record
    simp only [perform, hafter, Undertaking.plain_turn]
    rfl
  | cancel => rfl
  | linger event => exact Undertaking.plain_linger service _ event

/-- A call is the same with a record as without. -/
theorem plain_run (h : Records recorded start) (service : Service σ) (events : List OperationEvent)
    (backend : σ × List Question) :
    (run service.recorded recorded events backend).plain = run service start events backend.1 :=
  (List.foldl_hom Undertaking.plain fun undertaking event => (plain_perform h service undertaking event).symm).symm

end Call

/-- An operation is the same with a record as without. -/
theorem Operation.records_run (service : Service σ) (retriever : Retriever) (fileId : String)
    (events : List OperationEvent) (operation : Operation) :
    Records (operation.run service.recorded retriever fileId events)
      (operation.run service retriever fileId events) := by
  intro backend record
  cases operation with
  | blocks numbers =>
    have hbegin := Records.beginBlocks service retriever fileId numbers
    simp only [run, ← Call.plain_run hbegin service events (backend, record)]
    exact ⟨_, rfl⟩
  | fileSize =>
    have hbegin := Records.beginFileSize service retriever fileId
    simp only [run, ← Call.plain_run hbegin service events (backend, record)]
    exact ⟨_, rfl⟩
  | stream range =>
    simp only [run]
    cases retriever.stream fileId range with
    | error error => exact ⟨record, rfl⟩
    | ok idle =>
      simp only [← Course.plain_run service idle events (backend, record)]
      exact ⟨_, rfl⟩
  | readRange range =>
    simp only [run]
    cases retriever.stream fileId range with
    | error error => exact ⟨record, rfl⟩
    | ok idle =>
      simp only [← Course.plain_run service idle events (backend, record)]
      exact ⟨_, rfl⟩

end Reassembly
