import Mathlib.Data.List.Perm.Basic
import Reassembly.Proofs.Retrieval.Fetch
import Reassembly.Proofs.Service.Record

/-!
# Tasks at work

The steps that the tasks of a fetch make in front of a service, one at a time: a task begins its download, or the
download ends, or what it has brought is decoded. It does not matter here whether anybody waits for the task. What is
said of steps elsewhere is read off these three cases, and off the case in which nothing happens.
-/

namespace Reassembly

open List (Perm)

/-- What a task of a fetch can do. -/
inductive TaskStep
  /-- It takes a permit and begins its download at an instant. -/
  | request (task now : Nat)
  /-- Its download comes to its end, whatever it brings. -/
  | deliver (task : Nat)
  /-- It decodes what its download has brought. -/
  | decode (task : Nat)

namespace FetchTask

/-- An element of a list stands in front of the others, in some order. -/
theorem perm_cons_eraseIdx {α : Type} {l : List α} {i : Nat} {a : α} (h : l[i]? = some a) :
    Perm l (a :: l.eraseIdx i) := by
  obtain ⟨hi, rfl⟩ := List.getElem?_eq_some_iff.mp h
  exact (List.getElem_cons_eraseIdx_perm hi).symm

/-- What the tasks have of something, one of them being taken out. -/
theorem perm_filterMap {α β : Type} (f : α → Option β) {tasks : List α} {i : Nat} {task : α}
    (h : tasks[i]? = some task) :
    Perm (tasks.filterMap f) ((f task).toList ++ (tasks.eraseIdx i).filterMap f) := by
  refine ((perm_cons_eraseIdx h).filterMap _).trans ?_
  cases hfound : f task with
  | none => rw [List.filterMap_cons_none hfound]; rfl
  | some found => rw [List.filterMap_cons_some hfound]; rfl

/-- What the tasks have of something, one of them having changed. -/
theorem perm_filterMap_set {α β : Type} (f : α → Option β) {tasks : List α} {i : Nat} {before : α}
    (h : tasks[i]? = some before) (task : α) :
    Perm ((tasks.set i task).filterMap f) ((f task).toList ++ (tasks.eraseIdx i).filterMap f) := by
  obtain ⟨hi, -⟩ := List.getElem?_eq_some_iff.mp h
  have hset : (tasks.set i task)[i]? = some task := List.getElem?_set_self hi
  rw [← List.eraseIdx_set_eq]
  exact perm_filterMap f hset

/-- The chunk of a task that has not begun its download. -/
def waiting? (task : FetchTask) : Option Chunk :=
  match task.progress with
  | .waiting => some task.chunk
  | _ => none

/-- The chunks of the tasks that have not begun their downloads. -/
def unasked (tasks : List FetchTask) : List Chunk := tasks.filterMap waiting?

/-- No task of a fetch that starts has begun its download. -/
theorem unasked_start (file : ResolvedFile) (chunks : List Chunk) (limit : Nat) :
    unasked (Fetch.start file chunks limit).tasks = chunks := by
  rw [unasked, Fetch.start, List.filterMap_map]
  exact List.filterMap_some

/-- A task that has got a reply does not wait. -/
theorem waiting?_received (fileId : String) (chunk : Chunk) (reply : Reply) :
    waiting? ⟨chunk, received fileId chunk reply⟩ = none := by
  cases reply <;> rfl

/-- The tasks that wait, one of them having changed and neither waiting nor having waited. -/
theorem unasked_set {tasks : List FetchTask} {i : Nat} {before after : FetchTask} (h : tasks[i]? = some before)
    (hbefore : before.waiting? = none) (hafter : after.waiting? = none) :
    Perm (unasked (tasks.set i after)) (unasked tasks) := by
  have hset := perm_filterMap_set waiting? h after
  have hall := perm_filterMap waiting? h
  rw [hafter] at hset
  rw [hbefore] at hall
  exact hset.trans hall.symm

/-- A task that is known to download. -/
theorem eq_of_download? {task : FetchTask} {download : Download} (h : task.download? = some download) :
    task = ⟨task.chunk, .downloading download⟩ := by
  obtain ⟨chunk, progress⟩ := task
  cases progress with
  | downloading found =>
    obtain rfl : found = download := Option.some.inj h
    rfl
  | waiting | decoding | done => simp [FetchTask.download?] at h

end FetchTask

namespace Fetch

variable {σ : Type} {service : Service σ} {fetch : Fetch} {backend : σ} {after : Fetch × σ}

/-- Let a task make a step in front of a service. A step that the task cannot make changes nothing. -/
def workWith (service : Service σ) (step : TaskStep) (fetch : Fetch) : StateM σ Fetch :=
  match step with
  | .request i now =>
    match fetch.tasks[i]? with
    | some ⟨chunk, .waiting⟩ =>
      if fetch.hasPermit then do
        let download ← service.request now chunk.location
        return fetch.step (.request i download)
      else return fetch
    | _ => return fetch
  | .deliver i =>
    match fetch.tasks[i]?.bind FetchTask.download? with
    | some download => do
      service.arrived download
      return fetch.step (.deliver i)
    | none => return fetch
  | .decode i => return fetch.step (.decode i)

/-- What a step of a task comes to: nothing, or the task begins its download on a permit, or ends it and gives the
permit back, or decodes. -/
inductive Works (service : Service σ) (fetch : Fetch) (backend : σ) : Fetch × σ → Prop
  | idle : Works service fetch backend (fetch, backend)
  | request {i now : Nat} {chunk : Chunk} (waiting : fetch.tasks[i]? = some ⟨chunk, .waiting⟩)
      (permit : fetch.hasPermit = true) :
      Works service fetch backend
        ({ fetch with
          permits := fetch.permits.map (· - 1)
          tasks := fetch.tasks.set i ⟨chunk, .downloading (service.request now chunk.location backend).1⟩ },
          (service.request now chunk.location backend).2)
  | deliver {i : Nat} {chunk : Chunk} {download : Download}
      (downloading : fetch.tasks[i]? = some ⟨chunk, .downloading download⟩) :
      Works service fetch backend
        ({ fetch with
          permits := fetch.permits.map (· + 1)
          tasks := fetch.tasks.set i ⟨chunk, FetchTask.received fetch.file.layout.fileId chunk download.reply⟩ },
          (service.arrived download backend).2)
  | decode {i : Nat} {chunk : Chunk} {payload : Bytes} (decoding : fetch.tasks[i]? = some ⟨chunk, .decoding payload⟩) :
      Works service fetch backend
        (fetch.setTask i ⟨chunk, .done (FetchTask.decoded fetch.file chunk payload)⟩, backend)

/-- A task that waits begins its download when there is a permit. -/
theorem workWith_request {i : Nat} {chunk : Chunk} (waiting : fetch.tasks[i]? = some ⟨chunk, .waiting⟩)
    (permit : fetch.hasPermit = true) (service : Service σ) (now : Nat) (backend : σ) :
    fetch.workWith service (.request i now) backend =
      ({ fetch with
        permits := fetch.permits.map (· - 1)
        tasks := fetch.tasks.set i ⟨chunk, .downloading (service.request now chunk.location backend).1⟩ },
        (service.request now chunk.location backend).2) := by
  simp only [workWith, waiting, permit, if_true, step]
  rfl

/-- A task that downloads ends its download. -/
theorem workWith_deliver {i : Nat} {chunk : Chunk} {download : Download}
    (downloading : fetch.tasks[i]? = some ⟨chunk, .downloading download⟩) (service : Service σ) (backend : σ) :
    fetch.workWith service (.deliver i) backend =
      ({ fetch with
        permits := fetch.permits.map (· + 1)
        tasks := fetch.tasks.set i ⟨chunk, FetchTask.received fetch.file.layout.fileId chunk download.reply⟩ },
        (service.arrived download backend).2) := by
  simp only [workWith, downloading, Option.bind_some, FetchTask.download?, step]
  rfl

/-- A task that has what its download has brought decodes it. -/
theorem workWith_decode {i : Nat} {chunk : Chunk} {payload : Bytes}
    (decoding : fetch.tasks[i]? = some ⟨chunk, .decoding payload⟩) (service : Service σ) (backend : σ) :
    fetch.workWith service (.decode i) backend =
      (fetch.setTask i ⟨chunk, .done (FetchTask.decoded fetch.file chunk payload)⟩, backend) := by
  simp only [workWith, step, decoding]
  rfl

/-- Every step of a task is one of these. -/
theorem works_workWith (service : Service σ) (step : TaskStep) (fetch : Fetch) (backend : σ) :
    Works service fetch backend (fetch.workWith service step backend) := by
  cases step with
  | request i now =>
    cases htask : fetch.tasks[i]? with
    | none =>
      simp only [workWith, htask]
      exact .idle
    | some task =>
      obtain ⟨chunk, progress⟩ := task
      cases progress with
      | waiting =>
        cases hpermit : fetch.hasPermit with
        | true =>
          rw [workWith_request htask hpermit]
          exact .request htask hpermit
        | false =>
          simp only [workWith, htask, hpermit, Bool.false_eq_true, if_false]
          exact .idle
      | downloading | decoding | done =>
        simp only [workWith, htask]
        exact .idle
  | deliver i =>
    cases hdownload : fetch.tasks[i]?.bind FetchTask.download? with
    | none =>
      simp only [workWith, hdownload]
      exact .idle
    | some download =>
      obtain ⟨task, htask, hfound⟩ := Option.bind_eq_some_iff.mp hdownload
      rw [FetchTask.eq_of_download? hfound] at htask
      rw [workWith_deliver htask]
      exact .deliver htask
  | decode i =>
    rw [workWith, Fetch.step]
    split
    · next chunk payload htask => exact .decode htask
    · exact .idle

namespace Works

/-- A step changes nothing, or it advances the fetch. -/
theorem advances (h : Works service fetch backend after) :
    after.1 = fetch ∨ ∃ replies, Advance replies fetch after.1 := by
  cases h with
  | idle => exact .inl rfl
  | @request _ now chunk waiting permit =>
    exact .inr ⟨fun _ => (service.request now chunk.location backend).1.reply, .request waiting permit rfl⟩
  | deliver downloading => exact .inr ⟨fun _ => .crashed, .deliver downloading⟩
  | decode decoding => exact .inr ⟨fun _ => .crashed, .decode decoding⟩

/-- A step keeps the file of a fetch and the chunks of its tasks. -/
theorem keeps (h : Works service fetch backend after) :
    after.1.file = fetch.file ∧ after.1.tasks.map (·.chunk) = fetch.tasks.map (·.chunk) := by
  rcases h.advances with hsame | ⟨replies, hadvance⟩
  · rw [hsame]
    exact ⟨rfl, rfl⟩
  · exact ⟨hadvance.keeps.1, hadvance.chunks_eq⟩

/-- Without tasks there is no step. -/
theorem eq_of_tasks_nil (h : Works service fetch backend after) (hnone : fetch.tasks = []) :
    after = (fetch, backend) := by
  cases h with
  | idle => rfl
  | request waiting => simp [hnone] at waiting
  | deliver downloading => simp [hnone] at downloading
  | decode decoding => simp [hnone] at decoding

/-- A step takes one task from those that have not begun their downloads, and requests its chunk, or it leaves them as
they are and requests nothing. -/
theorem draws (h : Works service fetch backend after) :
    (∃ now chunk, Perm (chunk :: FetchTask.unasked after.1.tasks) (FetchTask.unasked fetch.tasks) ∧
      after.2 = (service.request now chunk.location backend).2) ∨
    Perm (FetchTask.unasked after.1.tasks) (FetchTask.unasked fetch.tasks) ∧
      (after.2 = backend ∨ ∃ download, after.2 = (service.arrived download backend).2) := by
  cases h with
  | idle => exact .inr ⟨Perm.refl _, .inl rfl⟩
  | @request _ now chunk waiting permit =>
    have hset := FetchTask.perm_filterMap_set FetchTask.waiting? waiting
      ⟨chunk, .downloading (service.request now chunk.location backend).1⟩
    have hbefore := FetchTask.perm_filterMap FetchTask.waiting? waiting
    exact .inl ⟨now, chunk, (hset.cons chunk).trans hbefore.symm, rfl⟩
  | deliver downloading =>
    exact .inr ⟨FetchTask.unasked_set downloading rfl (FetchTask.waiting?_received _ _ _), .inr ⟨_, rfl⟩⟩
  | decode decoding => exact .inr ⟨FetchTask.unasked_set decoding rfl rfl, .inl rfl⟩

/-- A step asks for the chunk of the task, if the task begins its download, and for nothing else. -/
theorem asks {backend : σ × List Question} {after : Fetch × σ × List Question}
    (h : Works service.recorded fetch backend after) :
    ∃ chunks : List Chunk, after.2.2 = backend.2 ++ chunks.map .ofChunk ∧
      Perm (chunks ++ FetchTask.unasked after.1.tasks) (FetchTask.unasked fetch.tasks) := by
  rcases h.draws with ⟨now, chunk, hperm, hbackend⟩ | ⟨hperm, hbackend⟩
  · exact ⟨[chunk], by rw [hbackend]; rfl, hperm⟩
  · refine ⟨[], ?_, hperm⟩
    rcases hbackend with hbackend | ⟨download, hbackend⟩ <;> simp [hbackend, Service.recorded]

end Works

/-- When a task is not done, some task can make a step, if there is a permit at all. -/
theorem exists_workWith (service : Service σ) (backend : σ) (hcapacity : fetch.capacity? ≠ some 0)
    (hwork : ∃ task ∈ fetch.tasks, task.isDone = false) :
    ∃ step, (fetch.workWith service step backend).1.work < fetch.work := by
  obtain ⟨move, hadvance⟩ := fetch.exists_advance (fun _ => .crashed) hcapacity hwork
  generalize fetch.act (fun _ => .crashed) move = after at hadvance
  cases hadvance with
  | @request i chunk _ waiting permit _ =>
    refine ⟨.request i 0, ?_⟩
    rw [workWith_request waiting permit]
    exact (@Advance.request (fun _ => (service.request 0 chunk.location backend).1.reply) _ _ _ _ waiting permit
      rfl).work_lt
  | @deliver i _ _ downloading =>
    refine ⟨.deliver i, ?_⟩
    rw [workWith_deliver downloading]
    exact (@Advance.deliver (fun _ => .crashed) _ _ _ _ downloading).work_lt
  | @decode i _ _ decoding =>
    refine ⟨.decode i, ?_⟩
    rw [workWith_decode decoding]
    exact (@Advance.decode (fun _ => .crashed) _ _ _ _ decoding).work_lt

section Steps

/-- Let tasks make steps, one after the other. -/
def workAll (service : Service σ) (steps : List TaskStep) (fetch : Fetch) : StateM σ Fetch :=
  steps.foldlM (fun fetch step => fetch.workWith service step) fetch

/-- Some steps after others. -/
theorem workAll_append (service : Service σ) (steps more : List TaskStep) (fetch : Fetch) (backend : σ) :
    fetch.workAll service (steps ++ more) backend =
      (fetch.workAll service steps backend).1.workAll service more (fetch.workAll service steps backend).2 := by
  simp only [workAll, List.foldlM_append]
  rfl

/-- Whatever fetch it is given, an action lets tasks make some steps, and does nothing else. -/
def MadeOfSteps (service : Service σ) (act : Fetch → StateM σ Fetch) : Prop :=
  ∀ fetch backend, ∃ steps, act fetch backend = fetch.workAll service steps backend

/-- Actions one after the other. -/
theorem MadeOfSteps.foldlM {α : Type} {act : α → Fetch → StateM σ Fetch} (h : ∀ a, MadeOfSteps service (act a))
    (l : List α) : MadeOfSteps service fun fetch => l.foldlM (fun fetch a => act a fetch) fetch := by
  induction l with
  | nil => exact fun fetch backend => ⟨[], rfl⟩
  | cons a rest ih =>
    intro fetch backend
    obtain ⟨steps, hsteps⟩ := h a fetch backend
    obtain ⟨more, hmore⟩ := ih (act a fetch backend).1 (act a fetch backend).2
    refine ⟨steps ++ more, ?_⟩
    rw [workAll_append, ← hsteps]
    exact hmore

/-- To take in a download that is due is to end it and to decode what it has brought. -/
theorem madeOfSteps_deliverDue (service : Service σ) (now i : Nat) :
    MadeOfSteps service fun fetch => fetch.deliverDue service now i := by
  intro fetch backend
  simp only [deliverDue]
  cases hdownload : fetch.tasks[i]?.bind FetchTask.download? with
  | none => exact ⟨[], rfl⟩
  | some download =>
    by_cases hdue : download.due ≤ now
    · refine ⟨[.deliver i, .decode i], ?_⟩
      simp only [if_pos hdue, workAll, List.foldlM_cons, workWith, hdownload]
      rfl
    · simp only [if_neg hdue]
      exact ⟨[], rfl⟩

/-- To begin a download is to do so with a permit, and to take the download in if it is due. -/
theorem madeOfSteps_requestNow (service : Service σ) (now i : Nat) :
    MadeOfSteps service fun fetch => fetch.requestNow service now i := by
  intro fetch backend
  have hidle : ∃ steps, (fetch, backend) = fetch.workAll service steps backend := ⟨[], rfl⟩
  simp only [requestNow]
  cases htask : fetch.tasks[i]? with
  | none => exact hidle
  | some task =>
    obtain ⟨chunk, progress⟩ := task
    cases progress with
    | waiting =>
      by_cases hpermit : fetch.hasPermit = true
      · obtain ⟨steps, hsteps⟩ := madeOfSteps_deliverDue service now i
          (fetch.step (.request i (service.request now chunk.location backend).1))
          (service.request now chunk.location backend).2
        refine ⟨.request i now :: steps, ?_⟩
        simp only [if_pos hpermit, workAll, List.foldlM_cons, workWith, htask]
        exact hsteps
      · simp only [if_neg hpermit]
        exact hidle
    | downloading | decoding | done => exact hidle

/-- What a session does to a fetch at an instant is made of steps of its tasks. -/
theorem madeOfSteps_schedule (service : Service σ) (now : Nat) :
    MadeOfSteps service (deliverAll service now) ∧ MadeOfSteps service (requestAll service now) :=
  ⟨fun fetch => MadeOfSteps.foldlM (fun i => madeOfSteps_deliverDue service now i) (List.range fetch.size) fetch,
    fun fetch => MadeOfSteps.foldlM (fun i => madeOfSteps_requestNow service now i) (List.range fetch.size) fetch⟩

end Steps

end Fetch

end Reassembly
