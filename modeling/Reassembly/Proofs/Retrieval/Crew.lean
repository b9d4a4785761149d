import Reassembly.Proofs.Retrieval.Work
import Reassembly.Proofs.Schedule

/-!
# Crews

A fetch at work, step by step. A task that is aborted does not stop at once. Until the runtime drops it, it may go on
as it did, and even take a permit and begin its download; only then it gives back what it has. So besides the tasks
whose results are awaited there are those that are leaving, and both make the same steps. Which task moves when is up
to the events; what a download brings, and how long it takes, is up to the service.

Every event begins a download, or ends one, or does neither, and all that is said of permits is read off these three
cases. A task that is leaving holds them no longer than the runtime takes to drop it, and that is not bounded here.
-/

namespace Reassembly

open List (Perm Subperm)

/-- A fetch at work, with the tasks that are aborted and not dropped yet, in front of a service. -/
structure Crew (σ : Type) where
  fetch : Fetch
  leaving : List FetchTask
  backend : σ

/-- What can happen to a crew. -/
inductive CrewEvent
  /-- A task whose result is awaited makes a step. -/
  | task (step : TaskStep)
  /-- A task that is leaving makes a step all the same. -/
  | straggle (step : TaskStep)
  /-- The consumer asks for the next result. -/
  | take
  /-- The consumer cancels the fetch or lets go of it, and all tasks are aborted. -/
  | cancel
  /-- The runtime drops a task that is leaving. -/
  | drop (task : Nat)

namespace Crew

variable {σ : Type} {service : Service σ} {crew after : Crew σ}

/-- The crew of a fetch that starts. -/
def start (file : ResolvedFile) (chunks : List Chunk) (limit : Nat) (backend : σ) : Crew σ :=
  ⟨Fetch.start file chunks limit, [], backend⟩

/-- The downloads in flight, those of tasks that are leaving among them. -/
def inFlight (crew : Crew σ) : List Download :=
  crew.fetch.downloads ++ crew.leaving.filterMap FetchTask.download?

/-- Let a task whose result is awaited make a step. -/
def work (service : Service σ) (crew : Crew σ) (step : TaskStep) : Crew σ :=
  let (fetch, backend) := crew.fetch.workWith service step crew.backend
  { crew with fetch, backend }

/-- The crew in which the tasks that are leaving and those whose results are awaited have changed places. -/
def turned (crew : Crew σ) : Crew σ :=
  { crew with fetch := { crew.fetch with tasks := crew.leaving }, leaving := crew.fetch.tasks }

/-- Abort all tasks. -/
def cancel (crew : Crew σ) : Crew σ :=
  { crew with fetch := { crew.fetch with tasks := [] }, leaving := crew.leaving ++ crew.fetch.tasks }

/-- Drop a task that is leaving, with the permit and the download that it has. -/
def drop (service : Service σ) (crew : Crew σ) (i : Nat) : Crew σ :=
  match crew.leaving[i]? with
  | some task =>
    { fetch := { crew.fetch with permits := crew.fetch.permits.map (· + task.held) }
      leaving := crew.leaving.eraseIdx i
      backend :=
        match task.download? with
        | some download => (service.abandoned download crew.backend).2
        | none => crew.backend }
  | none => crew

/-- What an event makes of a crew. An event that cannot happen changes nothing. -/
def perform (service : Service σ) (crew : Crew σ) : CrewEvent → Crew σ
  | .task step => crew.work service step
  | .straggle step => (crew.turned.work service step).turned
  | .take => { crew with fetch := crew.fetch.next.2 }
  | .cancel => crew.cancel
  | .drop i => crew.drop service i

/-- What events make of a crew, one after the other. -/
def run (service : Service σ) (crew : Crew σ) (events : List CrewEvent) : Crew σ :=
  events.foldl (perform service) crew

/-- A crew comes about from another. -/
def Reaches (service : Service σ) (crew after : Crew σ) : Prop := ∃ events, crew.run service events = after

/-- Running events is running the first of them and then the others. -/
theorem run_append (service : Service σ) (crew : Crew σ) (events more : List CrewEvent) :
    crew.run service (events ++ more) = (crew.run service events).run service more :=
  List.foldl_append

section Traffic

/-- What an event can do to the downloads in flight: begin that of a task that waits, on a permit; end one, and give its
permit back; or leave them as they are. -/
inductive Traffic (service : Service σ) (crew after : Crew σ) : Prop
  | begins {now : Nat} {chunk : Chunk} (waiting : ⟨chunk, .waiting⟩ ∈ crew.fetch.tasks ++ crew.leaving)
      (permit : crew.fetch.hasPermit = true) (permits : after.fetch.permits = crew.fetch.permits.map (· - 1))
      (flight : Perm after.inFlight ((service.request now chunk.location crew.backend).1 :: crew.inFlight))
      (backend : after.backend = (service.request now chunk.location crew.backend).2)
  | ends {download : Download} (permits : after.fetch.permits = crew.fetch.permits.map (· + 1))
      (flight : Perm crew.inFlight (download :: after.inFlight))
      (backend : after.backend = (service.arrived download crew.backend).2 ∨
        after.backend = (service.abandoned download crew.backend).2)
  | rests (permits : after.fetch.permits = crew.fetch.permits) (flight : Perm after.inFlight crew.inFlight)
      (backend : after.backend = crew.backend)

/-- Nothing has happened. -/
theorem Traffic.idle (service : Service σ) (crew : Crew σ) : Traffic service crew crew := .rests rfl (Perm.refl _) rfl

/-- A task that has got a reply downloads no more. -/
theorem download?_received (fileId : String) (chunk : Chunk) (reply : Reply) :
    FetchTask.download? ⟨chunk, FetchTask.received fileId chunk reply⟩ = none := by
  cases reply <;> rfl

/-- A task holds a permit when it downloads, and only then. -/
theorem held_eq (task : FetchTask) : task.held = task.download?.toList.length := by
  obtain ⟨chunk, progress⟩ := task
  cases progress <;> rfl

/-- A step of a task whose result is awaited begins a download, or ends one, or does neither. -/
theorem traffic_work (service : Service σ) (crew : Crew σ) (step : TaskStep) :
    Traffic service crew (crew.work service step) := by
  have hworks := Fetch.works_workWith service step crew.fetch crew.backend
  rw [work]
  generalize crew.fetch.workWith service step crew.backend = after at hworks
  cases hworks with
  | idle => exact .idle service crew
  | @request i now chunk waiting permit =>
    have hset := FetchTask.perm_filterMap_set FetchTask.download? waiting
      ⟨chunk, .downloading (service.request now chunk.location crew.backend).1⟩
    have hbefore := FetchTask.perm_filterMap FetchTask.download? waiting
    have hmem := List.mem_append_left crew.leaving (List.mem_of_getElem? waiting)
    exact .begins hmem permit rfl ((hset.trans (hbefore.symm.cons _)).append_right _) rfl
  | @deliver i chunk download downloading =>
    have hset := FetchTask.perm_filterMap_set FetchTask.download? downloading
      ⟨chunk, FetchTask.received crew.fetch.file.layout.fileId chunk download.reply⟩
    rw [download?_received] at hset
    have hbefore := FetchTask.perm_filterMap FetchTask.download? downloading
    exact .ends rfl ((hbefore.trans (hset.symm.cons download)).append_right _) (.inl rfl)
  | @decode i chunk payload decoding =>
    have hset := FetchTask.perm_filterMap_set FetchTask.download? decoding
      ⟨chunk, .done (FetchTask.decoded crew.fetch.file chunk payload)⟩
    have hbefore := FetchTask.perm_filterMap FetchTask.download? decoding
    exact .rests rfl ((hset.trans hbefore.symm).append_right _) rfl

/-- It does not matter for the downloads in flight whether anybody waits for them. -/
theorem inFlight_turned (crew : Crew σ) : Perm crew.turned.inFlight crew.inFlight := List.perm_append_comm

/-- Nor does it matter for what an event does to them. -/
theorem Traffic.turned (h : Traffic service crew.turned after) : Traffic service crew after.turned := by
  have hcrew := inFlight_turned crew
  have hafter := inFlight_turned after
  cases h with
  | begins waiting permit permits flight backend =>
    have hmem := List.mem_append.mpr (List.mem_append.mp waiting).symm
    exact .begins hmem permit permits (hafter.trans (flight.trans (hcrew.cons _))) backend
  | ends permits flight backend =>
    exact .ends permits (hcrew.symm.trans (flight.trans (hafter.symm.cons _))) backend
  | rests permits flight backend => exact .rests permits (hafter.trans (flight.trans hcrew)) backend

/-- Taking a result leaves the downloads as they are. -/
theorem traffic_take (service : Service σ) (crew : Crew σ) :
    Traffic service crew { crew with fetch := crew.fetch.next.2 } := by
  refine .rests crew.fetch.permits_next ?_ rfl
  show Perm (crew.fetch.next.2.downloads ++ _) _
  rw [Fetch.downloads_next]
  exact Perm.refl _

/-- Aborting tasks leaves the downloads as they are. -/
theorem traffic_cancel (service : Service σ) (crew : Crew σ) : Traffic service crew crew.cancel := by
  refine .rests rfl ?_ rfl
  show Perm ((crew.leaving ++ crew.fetch.tasks).filterMap FetchTask.download?) _
  rw [List.filterMap_append]
  exact List.perm_append_comm

/-- Dropping a task ends the download that it has, if it has one. -/
theorem traffic_drop (service : Service σ) (crew : Crew σ) (i : Nat) :
    Traffic service crew (crew.drop service i) := by
  rw [drop]
  split
  · next task htask =>
    have hflight := (FetchTask.perm_filterMap FetchTask.download? htask).append_left crew.fetch.downloads
    rw [held_eq]
    cases hdownload : task.download? with
    | none =>
      rw [hdownload] at hflight
      refine .rests ?_ hflight.symm rfl
      simp
    | some download =>
      rw [hdownload] at hflight
      exact .ends rfl (hflight.trans List.perm_middle) (.inr rfl)
  · exact .idle service crew

/-- Every event begins a download, or ends one, or leaves the downloads as they are. -/
theorem traffic_perform (service : Service σ) (crew : Crew σ) (event : CrewEvent) :
    Traffic service crew (crew.perform service event) := by
  cases event with
  | task step => exact traffic_work service crew step
  | straggle step => exact (traffic_work service crew.turned step).turned
  | take => exact traffic_take service crew
  | cancel => exact traffic_cancel service crew
  | drop i => exact traffic_drop service crew i

end Traffic

section Permits

/-- The permits of a crew, free or held by a download in flight. -/
def capacity? (crew : Crew σ) : Option Nat := crew.fetch.permits.map (· + crew.inFlight.length)

/-- No permit is made or lost. -/
theorem Traffic.capacity?_eq (h : Traffic service crew after) : after.capacity? = crew.capacity? := by
  rw [capacity?, capacity?]
  cases h with
  | begins waiting permit permits flight backend =>
    rw [permits, flight.length_eq, List.length_cons]
    cases hpermits : crew.fetch.permits with
    | none => rfl
    | some free =>
      have hsome : free ≠ 0 := by simpa [Fetch.hasPermit, hpermits] using permit
      simp only [Option.map_some, Option.some.injEq]
      omega
  | ends permits flight backend =>
    rw [permits, flight.length_eq, List.length_cons, Option.map_map]
    congr 1
    funext free
    exact (Nat.add_right_comm _ _ _).trans (Nat.add_assoc _ _ _)
  | rests permits flight backend => rw [permits, flight.length_eq]

/-- Whatever happens, no permit is made or lost. -/
theorem capacity?_run (service : Service σ) (crew : Crew σ) (events : List CrewEvent) :
    (crew.run service events).capacity? = crew.capacity? :=
  Schedule.foldl_invariant capacity? (fun before event => (traffic_perform service before event).capacity?_eq)
    events crew

/-- At the start, no download is in flight. -/
theorem inFlight_start (file : ResolvedFile) (chunks : List Chunk) (limit : Nat) (backend : σ) :
    (start file chunks limit backend).inFlight = [] := by
  rw [inFlight, start, Fetch.downloads_start]
  rfl

/-- A crew has as many permits as the limit of its fetch says. -/
theorem capacity?_start (file : ResolvedFile) (chunks : List Chunk) {limit : Nat} (hlimit : 0 < limit) (backend : σ) :
    (start file chunks limit backend).capacity? = some (min limit maxPermits) := by
  rw [capacity?, inFlight_start, start, Fetch.start, if_neg (Nat.ne_of_gt hlimit)]
  rfl

/-- A download that ends gives its permit back at once, whatever it brings, and before that is decoded. -/
theorem permits_deliver {i : Nat} {chunk : Chunk} {download : Download}
    (h : crew.fetch.tasks[i]? = some ⟨chunk, .downloading download⟩) :
    (crew.work service (.deliver i)).fetch.permits = crew.fetch.permits.map (· + 1) ∧
      (crew.work service (.deliver i)).fetch.tasks[i]? =
        some ⟨chunk, FetchTask.received crew.fetch.file.layout.fileId chunk download.reply⟩ := by
  obtain ⟨hi, -⟩ := List.getElem?_eq_some_iff.mp h
  rw [work, Fetch.workWith_deliver h]
  exact ⟨rfl, List.getElem?_set_self hi⟩

/-- Decoding takes no permit and gives none back. -/
theorem permits_decode (service : Service σ) (crew : Crew σ) (i : Nat) :
    (crew.work service (.decode i)).fetch.permits = crew.fetch.permits := by
  show (crew.fetch.step (.decode i)).permits = crew.fetch.permits
  rw [Fetch.step]
  split <;> rfl

/-- A task that is dropped gives the permit back that it holds. -/
theorem permits_drop {i : Nat} {task : FetchTask} (h : crew.leaving[i]? = some task) :
    (crew.perform service (.drop i)).fetch.permits = crew.fetch.permits.map (· + task.held) ∧
      (crew.perform service (.drop i)).leaving = crew.leaving.eraseIdx i := by
  simp only [perform, drop, h]
  exact ⟨trivial, trivial⟩

end Permits

section Leaving

/-- A crew without tasks whose results are awaited makes no step with them. -/
theorem work_of_tasks_nil (service : Service σ) (crew : Crew σ) (h : crew.fetch.tasks = []) (step : TaskStep) :
    crew.work service step = crew := by
  have hnone := (Fetch.works_workWith service step crew.fetch crew.backend).eq_of_tasks_nil h
  rw [work, hnone]

/-- In a crew that awaits no results any more, only tasks that are leaving make steps, and are dropped. -/
theorem perform_of_tasks_nil (service : Service σ) (h : crew.fetch.tasks = []) (event : CrewEvent) :
    crew.perform service event = crew ∨ (∃ step, event = .straggle step) ∨ ∃ i, event = .drop i := by
  cases event with
  | task step => exact .inl (work_of_tasks_nil service crew h step)
  | straggle step => exact .inr (.inl ⟨step, rfl⟩)
  | take =>
    left
    simp only [perform, Fetch.next, h]
  | cancel =>
    left
    rw [perform, cancel, h, List.append_nil, ← h]
  | drop i => exact .inr (.inr ⟨i, rfl⟩)

/-- Dropping leaves the tasks alone whose results are awaited, and takes from those that are leaving. -/
theorem tasks_drop (service : Service σ) (crew : Crew σ) (i : Nat) :
    (crew.drop service i).fetch.tasks = crew.fetch.tasks ∧ (crew.drop service i).leaving.Sublist crew.leaving := by
  rw [drop]
  split
  · exact ⟨rfl, List.eraseIdx_sublist _ _⟩
  · exact ⟨rfl, List.Sublist.refl _⟩

/-- A step of a task that is leaving leaves the others alone, and changes no chunk. -/
theorem tasks_straggle (service : Service σ) (crew : Crew σ) (step : TaskStep) :
    (crew.perform service (.straggle step)).fetch.tasks = crew.fetch.tasks ∧
      (crew.perform service (.straggle step)).leaving.map (·.chunk) = crew.leaving.map (·.chunk) :=
  ⟨rfl, (Fetch.works_workWith service step crew.turned.fetch crew.backend).keeps.2⟩

/-- What happens to a crew that awaits no results any more adds no task to those that are leaving. -/
theorem perform_leaving (service : Service σ) (h : crew.fetch.tasks = []) (event : CrewEvent) :
    (crew.perform service event).fetch.tasks = [] ∧
      ((crew.perform service event).leaving.map (·.chunk)).Sublist (crew.leaving.map (·.chunk)) := by
  rcases perform_of_tasks_nil service h event with hsame | ⟨step, rfl⟩ | ⟨i, rfl⟩
  · rw [hsame]
    exact ⟨h, List.Sublist.refl _⟩
  · obtain ⟨htasks, hchunks⟩ := tasks_straggle service crew step
    exact ⟨htasks.trans h, hchunks ▸ List.Sublist.refl _⟩
  · obtain ⟨htasks, hleaving⟩ := tasks_drop service crew i
    exact ⟨htasks.trans h, hleaving.map _⟩

/-- Nor does all that happens to it. -/
theorem run_leaving (service : Service σ) (h : crew.fetch.tasks = []) (events : List CrewEvent) :
    (crew.run service events).fetch.tasks = [] ∧
      ((crew.run service events).leaving.map (·.chunk)).Sublist (crew.leaving.map (·.chunk)) := by
  refine Schedule.foldl_induction
    (motive := fun later : Crew σ => later.fetch.tasks = [] ∧
      (later.leaving.map (·.chunk)).Sublist (crew.leaving.map (·.chunk)))
    (fun later event hlater => ?_) events ⟨h, List.Sublist.refl _⟩
  obtain ⟨htasks, hleaving⟩ := perform_leaving service hlater.1 event
  exact ⟨htasks, hleaving.trans hlater.2⟩

/-- Once nobody waits for any task and all are dropped, nothing happens any more. -/
theorem run_of_nil (service : Service σ) (htasks : crew.fetch.tasks = []) (hleaving : crew.leaving = [])
    (events : List CrewEvent) : crew.run service events = crew := by
  refine Schedule.foldl_induction (motive := fun later => later = crew) (fun later event hlater => ?_) events rfl
  subst hlater
  rcases perform_of_tasks_nil service htasks event with hsame | ⟨step, rfl⟩ | ⟨i, rfl⟩
  · exact hsame
  · exact congrArg turned (work_of_tasks_nil service later.turned hleaving step)
  · simp only [perform, drop, hleaving, List.getElem?_nil]

/-- What happens to a crew that awaits no results any more is asked for by tasks that were leaving and had not begun
their downloads, by each once at most. -/
theorem asks_leaving (service : Service σ) (crew : Crew (σ × List Question)) (h : crew.fetch.tasks = [])
    (event : CrewEvent) :
    ∃ begun : List Chunk,
      (crew.perform service.recorded event).backend.2 = crew.backend.2 ++ begun.map .ofChunk ∧
        Subperm (begun ++ FetchTask.unasked (crew.perform service.recorded event).leaving)
          (FetchTask.unasked crew.leaving) := by
  rcases perform_of_tasks_nil service.recorded h event with hsame | ⟨step, rfl⟩ | ⟨i, rfl⟩
  · rw [hsame]
    exact ⟨[], by simp, (Perm.refl _).subperm⟩
  · obtain ⟨begun, hrecord, hperm⟩ :=
      (Fetch.works_workWith service.recorded step crew.turned.fetch crew.backend).asks
    exact ⟨begun, hrecord, hperm.subperm⟩
  · refine ⟨[], ?_, ((tasks_drop service.recorded crew i).2.filterMap _).subperm⟩
    rw [perform, drop]
    split
    · next task htask => cases task.download? <;> simp [Service.recorded]
    · simp

/-- So does all that happens to it. -/
theorem run_asks_leaving (service : Service σ) (crew : Crew (σ × List Question)) (h : crew.fetch.tasks = [])
    (events : List CrewEvent) :
    ∃ begun : List Chunk,
      (crew.run service.recorded events).backend.2 = crew.backend.2 ++ begun.map .ofChunk ∧
        Subperm (begun ++ FetchTask.unasked (crew.run service.recorded events).leaving)
          (FetchTask.unasked crew.leaving) := by
  refine (Schedule.foldl_induction
    (motive := fun later : Crew (σ × List Question) => later.fetch.tasks = [] ∧ ∃ begun : List Chunk,
      later.backend.2 = crew.backend.2 ++ begun.map .ofChunk ∧
        Subperm (begun ++ FetchTask.unasked later.leaving) (FetchTask.unasked crew.leaving))
    (fun later event hlater => ?_) events ⟨h, [], by simp, (Perm.refl _).subperm⟩).2
  obtain ⟨htasks, begun, hrecord, hsubperm⟩ := hlater
  obtain ⟨more, hmore, hless⟩ := asks_leaving service later htasks event
  refine ⟨(perform_leaving service.recorded htasks event).1, begun ++ more, ?_, ?_⟩
  · rw [hmore, hrecord, List.map_append, List.append_assoc]
  · rw [List.append_assoc]
    exact ((List.subperm_append_left begun).mpr hless).trans hsubperm

end Leaving

section Progress

/-- A crew in which tasks are leaving awaits no results any more. -/
def Apart (crew : Crew σ) : Prop := crew.leaving = [] ∨ crew.fetch.tasks = []

/-- Only a cancellation makes tasks leave. -/
theorem leaving_perform (service : Service σ) (crew : Crew σ) (event : CrewEvent) (hnone : crew.leaving = []) :
    (crew.perform service event).leaving = [] ∨ event = .cancel := by
  cases event with
  | task step => exact .inl hnone
  | straggle step =>
    left
    have hsame := work_of_tasks_nil service crew.turned hnone step
    rw [perform, hsame]
    exact hnone
  | take => exact .inl hnone
  | cancel => exact .inr rfl
  | drop i =>
    left
    have hsublist := (tasks_drop service crew i).2
    rw [hnone] at hsublist
    exact List.sublist_nil.mp hsublist

/-- Whatever happens, tasks whose results are awaited and tasks that are leaving stay apart. -/
theorem Apart.run (h : crew.Apart) (service : Service σ) (events : List CrewEvent) :
    (crew.run service events).Apart := by
  refine Schedule.foldl_induction (motive := Apart) (fun later event hlater => ?_) events h
  rcases hlater with hnone | htasks
  · rcases leaving_perform service later event hnone with hstill | rfl
    · exact .inl hstill
    · exact .inr rfl
  · exact .inr (perform_leaving service htasks event).1

/-- When a task has no result yet, some task can make a step, if there is a permit at all. -/
theorem exists_taskStep (service : Service σ) (happart : crew.Apart) (hcapacity : crew.capacity? ≠ some 0)
    (hwork : ∃ task ∈ crew.fetch.tasks, task.isDone = false) :
    ∃ step, (crew.perform service (.task step)).fetch.work < crew.fetch.work := by
  have hnone : crew.leaving = [] := happart.resolve_right fun htasks => by
    obtain ⟨task, hmem, -⟩ := hwork
    simp [htasks] at hmem
  have hfetch : crew.capacity? = crew.fetch.capacity? := by
    rw [capacity?, inFlight, hnone, List.filterMap_nil, List.append_nil]
    rfl
  exact Fetch.exists_workWith service crew.backend (hfetch ▸ hcapacity) hwork

end Progress

section Execution

/-- Dropping the first of the tasks that are leaving, until none is left, gives all their permits back and
abandons all their downloads. -/
theorem run_drop_all (service : Service σ) (fetch : Fetch) (leaving : List FetchTask) (backend : σ) :
    Crew.run service ⟨fetch, leaving, backend⟩ (List.replicate leaving.length (.drop 0)) =
      ⟨{ fetch with permits := fetch.permits.map (· + (leaving.filterMap FetchTask.download?).length) }, [],
        ((leaving.filterMap FetchTask.download?).forM service.abandoned backend).2⟩ := by
  induction leaving generalizing fetch backend with
  | nil => simp [run]; rfl
  | cons task rest ih =>
    show Crew.run service (Crew.drop service ⟨fetch, task :: rest, backend⟩ 0)
      (List.replicate rest.length (.drop 0)) = _
    simp only [drop, List.getElem?_cons_zero, List.eraseIdx_cons_zero]
    rw [ih, held_eq]
    cases hdownload : task.download? with
    | none => simp [hdownload]
    | some download =>
      simp only [List.filterMap_cons_some hdownload, List.length_cons, Option.map_map, Crew.mk.injEq,
        Fetch.mk.injEq, true_and, and_true]
      refine ⟨?_, rfl⟩
      congr 1
      funext free
      simp only [Function.comp, Option.toList_some, List.length_singleton]
      omega

/-- Cancelling a fetch is aborting its tasks and dropping them all. -/
theorem run_cancel (service : Service σ) (hnone : crew.leaving = []) :
    crew.run service (.cancel :: List.replicate crew.fetch.size (.drop 0)) =
      ⟨crew.fetch.cancel, [], (crew.fetch.abandon service crew.backend).2⟩ := by
  show Crew.run service crew.cancel _ = _
  rw [cancel, hnone, List.nil_append, Fetch.size, run_drop_all]
  rfl

/-- Steps of tasks whose results are awaited are events of their crew. -/
theorem run_task (service : Service σ) (crew : Crew σ) (steps : List TaskStep) :
    crew.run service (steps.map .task) =
      { crew with
        fetch := (crew.fetch.workAll service steps crew.backend).1
        backend := (crew.fetch.workAll service steps crew.backend).2 } := by
  induction steps generalizing crew with
  | nil => rfl
  | cons step rest ih => exact ih (crew.work service step)

/-- What a session does to a fetch at an instant is made of the events of its crew. -/
theorem reaches_schedule (service : Service σ) (now : Nat) (fetch : Fetch) (backend : σ) :
    Reaches service ⟨fetch, [], backend⟩
        ⟨(fetch.deliverAll service now backend).1, [], (fetch.deliverAll service now backend).2⟩ ∧
      Reaches service ⟨fetch, [], backend⟩
        ⟨(fetch.requestAll service now backend).1, [], (fetch.requestAll service now backend).2⟩ := by
  obtain ⟨delivering, requesting⟩ := Fetch.madeOfSteps_schedule service now
  obtain ⟨deliveries, hdeliveries⟩ := delivering fetch backend
  obtain ⟨requests, hrequests⟩ := requesting fetch backend
  rw [hdeliveries, hrequests]
  exact ⟨⟨_, run_task service ⟨fetch, [], backend⟩ deliveries⟩, ⟨_, run_task service ⟨fetch, [], backend⟩ requests⟩⟩

end Execution

end Crew

end Reassembly
