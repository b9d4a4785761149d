import Mathlib.Data.List.Count
import Reassembly.Proofs.Retrieval.Crew
import Reassembly.Service.Sources

/-!
# Conservation of permits

A fetch with a limit has that many permits, and each is free or held by one download in flight, whatever its
tasks, its consumer and the runtime do. A depot that serves the downloads counts them among those in flight for
just as long, so that its count comes back to where it was once a cancelled fetch has wound down.

To cancel a fetch is to abort its tasks, and an aborted task that is at work goes on until the runtime drops it. So it
is not said that no download begins after a cancellation, only which tasks may still begin one, and that there is an end
to it. When the runtime drops a task is up to the runtime.
-/

namespace Reassembly

open List (Perm Subperm)

namespace Depot

/-- What a request does to the tally: a download that is counted is one more in flight. -/
theorem tally_request (now : Nat) (location : String) (depot : Depot) :
    (depot.request now location).2.tally.inFlight =
        depot.tally.inFlight + [(depot.request now location).1].countP (·.counted) ∧
      (depot.request now location).2.tally.mostInFlight ≤
        max depot.tally.mostInFlight (depot.request now location).2.tally.inFlight ∧
      (depot.request now location).2.tally.requested ≤ depot.tally.requested + 1 := by
  rw [request]
  split
  · exact ⟨rfl, Nat.le_max_left _ _, Nat.le_succ _⟩
  · exact ⟨rfl, Nat.le_refl _, Nat.le_refl _⟩

/-- The tally of one depot is that of another, with one download fewer in flight if it is counted. -/
structure Loses (download : Download) (depot after : Depot) : Prop where
  inFlight : after.tally.inFlight = depot.tally.inFlight - [download].countP (·.counted)
  mostInFlight : after.tally.mostInFlight = depot.tally.mostInFlight
  requested : after.tally.requested = depot.tally.requested

/-- A download that has arrived is in flight no more. -/
theorem loses_arrived (download : Download) (depot : Depot) : Loses download depot (depot.arrived download) := by
  cases hcounted : download.counted with
  | false =>
    rw [arrived, hcounted, if_neg Bool.false_ne_true]
    exact ⟨by simp [hcounted], rfl, rfl⟩
  | true =>
    rw [arrived, hcounted, if_pos rfl]
    split <;> exact ⟨by simp [hcounted, finish], rfl, rfl⟩

/-- A download that has been abandoned is in flight no more. -/
theorem loses_abandoned (download : Download) (depot : Depot) : Loses download depot (depot.abandoned download) := by
  cases hcounted : download.counted with
  | false =>
    rw [abandoned, hcounted, if_neg Bool.false_ne_true]
    exact ⟨by simp [hcounted], rfl, rfl⟩
  | true =>
    rw [abandoned, hcounted, if_pos rfl]
    exact ⟨by simp [hcounted, abandon], rfl, rfl⟩

end Depot

namespace Crew

variable {σ : Type} {service : Service σ} {crew after later : Crew σ} {capacity : Nat}

section Tally

/-- A depot counts the downloads of a crew, beyond those that were in flight before, and has never seen more of
them than the crew has permits. -/
structure Tallied (base most capacity : Nat) (crew : Crew Depot) : Prop where
  inFlight : crew.backend.tally.inFlight = base + crew.inFlight.countP (·.counted)
  mostInFlight : crew.backend.tally.mostInFlight ≤ max most (base + capacity)

/-- The downloads in flight are at most as many as there are permits. -/
theorem length_inFlight_le (h : crew.capacity? = some capacity) : crew.inFlight.length ≤ capacity := by
  obtain ⟨free, -, hsum⟩ := Option.map_eq_some_iff.mp h
  omega

/-- The downloads that are counted, the first of them apart. -/
theorem countP_cons_counted (download : Download) (rest : List Download) :
    (download :: rest).countP (·.counted) = [download].countP (·.counted) + rest.countP (·.counted) :=
  List.singleton_append ▸ List.countP_append

/-- The count of a depot keeps step with the downloads of a crew. -/
theorem Traffic.tallied {crew after : Crew Depot} {base most : Nat} (h : Traffic Depot.service crew after)
    (hcapacity : after.capacity? = some capacity) (htallied : crew.Tallied base most capacity) :
    after.Tallied base most capacity := by
  obtain ⟨hcount, hmost⟩ := htallied
  cases h with
  | @begins now chunk waiting permit permits flight backend =>
    obtain ⟨hrequest, hpeak, -⟩ := Depot.tally_request now chunk.location crew.backend
    have hbackend : after.backend = (crew.backend.request now chunk.location).2 := backend
    have hflight : after.inFlight.countP (·.counted) =
        [(crew.backend.request now chunk.location).1].countP (·.counted) + crew.inFlight.countP (·.counted) :=
      (flight.countP_eq _).trans (countP_cons_counted _ _)
    have hfew := Nat.le_trans (List.countP_le_length (p := fun download : Download => download.counted)
      (l := after.inFlight)) (length_inFlight_le hcapacity)
    rw [← hbackend] at hrequest hpeak
    constructor <;> omega
  | @ends download permits flight backend =>
    have hloses : Depot.Loses download crew.backend after.backend := by
      rcases backend with harrived | habandoned
      · rw [harrived]
        exact Depot.loses_arrived download crew.backend
      · rw [habandoned]
        exact Depot.loses_abandoned download crew.backend
    have hflight : crew.inFlight.countP (·.counted) =
        [download].countP (·.counted) + after.inFlight.countP (·.counted) :=
      (flight.countP_eq _).trans (countP_cons_counted _ _)
    have hinFlight := hloses.inFlight
    exact ⟨by omega, hloses.mostInFlight ▸ hmost⟩
  | rests permits flight backend =>
    rw [← flight.countP_eq, ← backend] at hcount
    exact ⟨hcount, backend ▸ hmost⟩

/-- Whatever happens, the count of a depot keeps step with the downloads of a crew. -/
theorem Tallied.run {crew : Crew Depot} {base most : Nat} (h : crew.Tallied base most capacity)
    (hcapacity : crew.capacity? = some capacity) (events : List CrewEvent) :
    (crew.run Depot.service events).Tallied base most capacity := by
  refine (Schedule.foldl_induction
    (motive := fun reached : Crew Depot => reached.capacity? = some capacity ∧ reached.Tallied base most capacity)
    (fun reached event hreached => ?_) events ⟨hcapacity, h⟩).2
  have htraffic := traffic_perform Depot.service reached event
  have hafter := htraffic.capacity?_eq.trans hreached.1
  exact ⟨hafter, htraffic.tallied hafter hreached.2⟩

/-- A request that a depot counts is made by a task that had not begun its download. -/
theorem requested_works {fetch : Fetch} {depot : Depot} {after : Fetch × Depot}
    (h : Fetch.Works Depot.service fetch depot after) :
    after.2.tally.requested + (FetchTask.unasked after.1.tasks).length ≤
      depot.tally.requested + (FetchTask.unasked fetch.tasks).length := by
  rcases h.draws with ⟨now, chunk, hperm, hbackend⟩ | ⟨hperm, hbackend⟩
  · obtain ⟨-, -, hrequested⟩ := Depot.tally_request now chunk.location depot
    have hless := hperm.length_eq
    rw [List.length_cons] at hless
    rw [hbackend]
    show (depot.request now chunk.location).2.tally.requested + _ ≤ _
    omega
  · rw [hperm.length_eq]
    rcases hbackend with hbackend | ⟨download, hbackend⟩
    · exact Nat.le_of_eq (by rw [hbackend])
    · rw [hbackend]
      exact Nat.le_of_eq (congrArg (· + _) (Depot.loses_arrived download depot).requested)

/-- A crew that awaits no results any more makes no more requests than it has tasks that are leaving and have not begun
their downloads. -/
theorem requested_run {crew : Crew Depot} (h : crew.fetch.tasks = []) (events : List CrewEvent) :
    (crew.run Depot.service events).backend.tally.requested +
        (FetchTask.unasked (crew.run Depot.service events).leaving).length ≤
      crew.backend.tally.requested + (FetchTask.unasked crew.leaving).length := by
  refine (Schedule.foldl_induction
    (motive := fun later : Crew Depot => later.fetch.tasks = [] ∧
      later.backend.tally.requested + (FetchTask.unasked later.leaving).length ≤
        crew.backend.tally.requested + (FetchTask.unasked crew.leaving).length)
    (fun later event hlater => ?_) events ⟨h, Nat.le_refl _⟩).2
  refine ⟨(perform_leaving Depot.service hlater.1 event).1, Nat.le_trans ?_ hlater.2⟩
  rcases perform_of_tasks_nil Depot.service hlater.1 event with hsame | ⟨step, rfl⟩ | ⟨i, rfl⟩
  · exact Nat.le_of_eq (by rw [hsame])
  · exact requested_works (Fetch.works_workWith Depot.service step later.turned.fetch later.backend)
  · have hleaving := (tasks_drop Depot.service later i).2.filterMap FetchTask.waiting?
    refine Nat.add_le_add (Nat.le_of_eq ?_) hleaving.length_le
    rw [perform, drop]
    split
    · next task htask =>
      cases task.download? with
      | none => rfl
      | some download => exact (Depot.loses_abandoned download later.backend).requested
    · rfl

end Tally

/-- Permits are given back when downloads end, in whatever way, and none is held while a chunk is decoded. -/
structure ReturnsPermits (service : Service σ) (crew : Crew σ) : Prop where
  /-- A download that ends gives its permit back before what it has brought, a payload or a failure, is looked
  at. -/
  delivered : ∀ i chunk download, crew.fetch.tasks[i]? = some ⟨chunk, .downloading download⟩ →
    (crew.perform service (.task (.deliver i))).fetch.permits = crew.fetch.permits.map (· + 1) ∧
      (crew.perform service (.task (.deliver i))).fetch.tasks[i]? =
        some ⟨chunk, FetchTask.received crew.fetch.file.layout.fileId chunk download.reply⟩
  /-- Decoding takes no permit and gives none back. -/
  decoded : ∀ i, (crew.perform service (.task (.decode i))).fetch.permits = crew.fetch.permits
  /-- So it is with a task that is aborted and not dropped yet. -/
  straggled : ∀ i,
    (∀ chunk download, crew.leaving[i]? = some ⟨chunk, .downloading download⟩ →
      (crew.perform service (.straggle (.deliver i))).fetch.permits = crew.fetch.permits.map (· + 1)) ∧
    (crew.perform service (.straggle (.decode i))).fetch.permits = crew.fetch.permits
  /-- A task that is aborted gives back what it holds when it is dropped. -/
  dropped : ∀ i task, crew.leaving[i]? = some task →
    (crew.perform service (.drop i)).fetch.permits = crew.fetch.permits.map (· + task.held) ∧
      (crew.perform service (.drop i)).leaving = crew.leaving.eraseIdx i

/-- What comes of a crew that is cancelled. -/
structure WindsDown (service : Service σ) (capacity : Nat) (crew later : Crew σ) : Prop where
  /-- Every task whose result has not been taken is aborted. -/
  aborted : crew.cancel.leaving = crew.leaving ++ crew.fetch.tasks
  /-- No result is awaited any more. -/
  idle : later.fetch.tasks = []
  /-- No task is added to those that are leaving. -/
  leaving : (later.leaving.map (·.chunk)).Sublist (crew.cancel.leaving.map (·.chunk))
  /-- No download begins but that of a task that is leaving and has not begun it, and only on a permit that is free. -/
  begins : ∀ event, later.inFlight.length < (later.perform service event).inFlight.length →
    later.fetch.hasPermit = true ∧ ∃ chunk, ⟨chunk, .waiting⟩ ∈ later.leaving
  /-- Any task that is leaving can be dropped, and is then gone. -/
  shrinks : ∀ i < later.leaving.length,
    (later.perform service (.drop i)).leaving.length + 1 = later.leaving.length
  /-- Once all of them are dropped, no download is in flight, all permits are free, and nothing happens any more. -/
  released : later.leaving = [] → later.inFlight = [] ∧ later.fetch.permits = some capacity ∧
    ∀ events, later.run service events = later
  /-- To cancel again aborts no task and changes nothing. -/
  again : later.fetch.size = 0 ∧ later.perform service .cancel = later

/-- In any crew, permits are given back. -/
theorem returnsPermits (service : Service σ) (crew : Crew σ) : crew.ReturnsPermits service where
  delivered _ _ _ := permits_deliver
  decoded i := permits_decode service crew i
  straggled i := by
    refine ⟨fun chunk download h => ?_, permits_decode service crew.turned i⟩
    have hturned : crew.turned.fetch.tasks[i]? = some ⟨chunk, .downloading download⟩ := h
    exact (permits_deliver hturned).1
  dropped _ _ := permits_drop

/-- A download begins when a task that waits takes a permit. -/
theorem Traffic.waiting_of_begins (h : Traffic service crew after)
    (hmore : crew.inFlight.length < after.inFlight.length) :
    crew.fetch.hasPermit = true ∧ ∃ chunk, ⟨chunk, .waiting⟩ ∈ crew.fetch.tasks ++ crew.leaving := by
  cases h with
  | begins waiting permit => exact ⟨permit, _, waiting⟩
  | ends permits flight backend =>
    rw [flight.length_eq, List.length_cons] at hmore
    omega
  | rests permits flight backend =>
    rw [flight.length_eq] at hmore
    omega

/-- A crew that is cancelled winds down. -/
theorem windsDown (hcapacity : crew.capacity? = some capacity) (hlater : crew.cancel.Reaches service later) :
    WindsDown service capacity crew later := by
  obtain ⟨events, rfl⟩ := hlater
  obtain ⟨hidle, hleaving⟩ := run_leaving service (show crew.cancel.fetch.tasks = [] from rfl) events
  have hkept : (crew.cancel.run service events).capacity? = some capacity :=
    (capacity?_run service crew.cancel events).trans
      ((traffic_cancel service crew).capacity?_eq.trans hcapacity)
  exact {
    aborted := rfl
    idle := hidle
    leaving := hleaving
    begins := by
      intro event hmore
      obtain ⟨hpermit, chunk, hwaiting⟩ := (traffic_perform service _ event).waiting_of_begins hmore
      rw [hidle, List.nil_append] at hwaiting
      exact ⟨hpermit, chunk, hwaiting⟩
    shrinks := by
      intro i hi
      rw [(permits_drop (List.getElem?_eq_getElem hi)).2, List.length_eraseIdx_of_lt hi]
      omega
    released := by
      intro hnone
      have hempty : (crew.cancel.run service events).inFlight = [] := by
        rw [inFlight, Fetch.downloads, hidle, hnone]
        rfl
      refine ⟨hempty, ?_, run_of_nil service hidle hnone⟩
      rw [capacity?, hempty] at hkept
      simpa using hkept
    again := by
      refine ⟨by rw [Fetch.size, hidle]; rfl, ?_⟩
      rcases perform_of_tasks_nil service hidle .cancel with hsame | ⟨step, hstep⟩ | ⟨i, hdrop⟩
      · exact hsame
      · simp at hstep
      · simp at hdrop }

end Crew

/-- Download permits are conserved.

Let a fetch of any chunks have a limit that is not zero, and let anything happen: tasks begin and end downloads
and decode what these bring, in front of any service and in any order, the consumer takes results and cancels,
and tasks that are aborted go on until the runtime drops them. Then the permits that are free and the downloads in
flight add up to the limit, so that no more downloads are ever in flight. Every way out of a download gives its permit
back, before anything is decoded. As long as the result of a task is awaited and not there, some task can make a
step.

When a fetch is cancelled, every task is aborted whose result has not been taken. From then on a download begins only
for a task that was aborted before its own had begun and that is not dropped yet, once at most for each, and on a permit
that is free. Once all of them are dropped, none is in flight, all permits are free, and none begins any more. To cancel
again aborts nothing and changes nothing. When the tasks are dropped together, this is what cancelling does to the fetch
of a session. A depot that serves the downloads counts them for just as long as they are in flight. -/
theorem permits_conserved {limit : Nat} (hlimit : 0 < limit) (file : ResolvedFile) (chunks : List Chunk) :
    (∀ {σ : Type} (service : Service σ) (backend : σ) (crew : Crew σ),
      (Crew.start file chunks limit backend).Reaches service crew →
        (∃ free, crew.fetch.permits = some free ∧ free + crew.inFlight.length = min limit maxPermits) ∧
        crew.inFlight.length ≤ limit ∧
        crew.ReturnsPermits service ∧
        ((∃ task ∈ crew.fetch.tasks, task.isDone = false) →
          ∃ step, (crew.perform service (.task step)).fetch.work < crew.fetch.work) ∧
        (∀ later, crew.cancel.Reaches service later → crew.WindsDown service (min limit maxPermits) later) ∧
        (crew.leaving = [] →
          crew.cancel.Reaches service ⟨crew.fetch.cancel, [], (crew.fetch.abandon service crew.backend).2⟩)) ∧
    (∀ {σ : Type} (service : Service σ) (backend : σ × List Question) (crew : Crew (σ × List Question)),
      (Crew.start file chunks limit backend).Reaches service.recorded crew →
        ∀ later, crew.cancel.Reaches service.recorded later →
          ∃ begun : List Chunk, later.backend.2 = crew.backend.2 ++ begun.map .ofChunk ∧
            Subperm (begun ++ FetchTask.unasked later.leaving) (FetchTask.unasked crew.cancel.leaving)) ∧
    ∀ (depot : Depot) (crew : Crew Depot), (Crew.start file chunks limit depot).Reaches Depot.service crew →
      crew.backend.tally.inFlight = depot.tally.inFlight + crew.inFlight.countP (·.counted) ∧
      crew.backend.tally.mostInFlight ≤
        max depot.tally.mostInFlight (depot.tally.inFlight + min limit maxPermits) ∧
      ∀ later, crew.cancel.Reaches Depot.service later →
        later.backend.tally.requested + (FetchTask.unasked later.leaving).length ≤
          crew.backend.tally.requested + (FetchTask.unasked crew.cancel.leaving).length ∧
        (later.leaving = [] → later.backend.tally.inFlight = depot.tally.inFlight) := by
  refine ⟨fun {σ} service backend crew hreaches => ?_, fun {σ} service backend crew _ later hlater => ?_,
    fun depot crew hreaches => ?_⟩
  · obtain ⟨events, rfl⟩ := hreaches
    have happart : (Crew.start file chunks limit backend).Apart := .inl rfl
    have hcapacity := (Crew.capacity?_run service (Crew.start file chunks limit backend) events).trans
      (Crew.capacity?_start file chunks hlimit backend)
    refine ⟨Option.map_eq_some_iff.mp hcapacity, ?_, Crew.returnsPermits service _, fun hwork => ?_,
      fun later hlater => Crew.windsDown hcapacity hlater, fun hnone => ?_⟩
    · exact Nat.le_trans (Crew.length_inFlight_le hcapacity) (Nat.min_le_left _ _)
    · refine Crew.exists_taskStep service (happart.run service events) ?_ hwork
      rw [hcapacity, maxPermits]
      simp only [ne_eq, Option.some.injEq]
      omega
    · exact ⟨_, Crew.run_cancel service hnone⟩
  · obtain ⟨events, rfl⟩ := hlater
    exact Crew.run_asks_leaving service crew.cancel rfl events
  · obtain ⟨events, rfl⟩ := hreaches
    have hcapacity := Crew.capacity?_start file chunks hlimit depot
    have hstart : (Crew.start file chunks limit depot).Tallied depot.tally.inFlight depot.tally.mostInFlight
        (min limit maxPermits) := by
      refine ⟨?_, Nat.le_max_left _ _⟩
      rw [Crew.inFlight_start]
      rfl
    have htallied := hstart.run hcapacity events
    refine ⟨htallied.inFlight, htallied.mostInFlight, fun later hlater => ?_⟩
    have hreached := (Crew.capacity?_run Depot.service (Crew.start file chunks limit depot) events).trans hcapacity
    have hwinds := Crew.windsDown hreached hlater
    obtain ⟨more, rfl⟩ := hlater
    refine ⟨Crew.requested_run rfl more, fun hnone => ?_⟩
    have hlast := hstart.run hcapacity (events ++ .cancel :: more)
    rw [Crew.run_append] at hlast
    have hcount := hlast.inFlight
    have hempty : (Crew.run Depot.service ((Crew.start file chunks limit depot).run Depot.service events)
        (.cancel :: more)).inFlight = [] := (hwinds.released hnone).1
    rw [hempty] at hcount
    exact hcount

/-- Two chunks with one permit: a download is in flight, and the other task waits. -/
def Crew.sample : Crew Depot :=
  Crew.run Depot.service
    (.start ⟨⟨"f", none, .none, [], 2⟩, none⟩ [⟨1, 0, 1, "local://f/0"⟩, ⟨2, 1, 1, "local://f/1"⟩] 1 {})
    [.task (.request 0 0), .task (.request 1 0)]

/-- With one permit, one download of two is in flight, and the crew is not stuck. When it is cancelled, the other task
may begin its download as soon as the first is dropped, and once both are, the depot has none in flight. -/
theorem permits_conserved_sample :
    Crew.sample.inFlight.length ≤ 1 ∧
      (∃ step, (Crew.sample.perform Depot.service (.task step)).fetch.work < Crew.sample.fetch.work) ∧
      (Crew.sample.cancel.run Depot.service [.drop 0, .straggle (.request 0 0)]).backend.tally.requested ≤ 2 ∧
      (Crew.sample.cancel.run Depot.service
        [.drop 0, .straggle (.request 0 0), .drop 0]).backend.tally.inFlight = 0 := by
  obtain ⟨hall, -, hdepot⟩ := permits_conserved Nat.one_pos ⟨⟨"f", none, .none, [], 2⟩, none⟩
    [⟨1, 0, 1, "local://f/0"⟩, ⟨2, 1, 1, "local://f/1"⟩]
  obtain ⟨-, hfew, -, hmoves, -, -⟩ := hall Depot.service {} Crew.sample ⟨_, rfl⟩
  obtain ⟨-, -, hcancelled⟩ := hdepot {} Crew.sample ⟨_, rfl⟩
  have hfirst := (hcancelled _ ⟨[.drop 0, .straggle (.request 0 0)], rfl⟩).1
  exact ⟨hfew, hmoves (by decide +kernel), Nat.le_trans (Nat.le_add_right _ _) hfirst,
    (hcancelled _ ⟨_, rfl⟩).2 (by rfl)⟩

/-- It is not so that no download begins after a cancellation: a task that is aborted before it has begun its download
may begin it all the same. -/
theorem aborted_task_begins :
    ¬ ∀ crew later : Crew Depot,
      (Crew.start ⟨⟨"f", none, .none, [], 1⟩, none⟩ [⟨1, 0, 1, "local://f/0"⟩] 1 {}).Reaches Depot.service crew →
        crew.cancel.Reaches Depot.service later →
          later.backend.tally.requested = crew.backend.tally.requested := by
  intro h
  have hsame := h _ _ ⟨[], rfl⟩ ⟨[.straggle (.request 0 0)], rfl⟩
  exact absurd hsame (by decide +kernel)

end Reassembly
