import Reassembly.Proofs.Retrieval.Fetch
import Reassembly.Proofs.Service.Steady

/-!
# Fetches at an instant

At an instant a session takes in the downloads that are due, and then begins those that have a permit.
Over a steady service both are moves of the tasks, in an order of the session's own; so they change no
fate. Afterwards every task is done, waits for a download that is not due yet, or waits for a permit
while there is none. A task that was due is done, so that there are fewer tasks that are not.
-/

namespace Reassembly

namespace FetchTask

/-- What a task counts for among those that are not done. -/
def pending (task : FetchTask) : Nat := if task.isDone then 0 else 1

/-- A task is in the middle of decoding. -/
def isDecoding (task : FetchTask) : Bool :=
  match task.progress with
  | .decoding _ => true
  | _ => false

/-- A task waits for a permit. -/
def isWaiting (task : FetchTask) : Bool :=
  match task.progress with
  | .waiting => true
  | _ => false

/-- At an instant, a task is not decoding, and has no download that is due. -/
def Rests (now : Nat) (task : FetchTask) : Prop :=
  task.isDecoding = false ∧ ∀ download, task.download? = some download → now < download.due

/-- A task that is done rests. -/
theorem rests_of_isDone {task : FetchTask} (h : task.isDone = true) (now : Nat) : task.Rests now := by
  obtain ⟨chunk, progress⟩ := task
  cases progress with
  | done result => exact ⟨rfl, by simp [download?]⟩
  | waiting | downloading | decoding => simp [isDone] at h

end FetchTask

namespace Fetch

variable {replies : Replies} {fetch before after : Fetch}

/-- Some moves lead from one fetch to another. -/
def Reaches (replies : Replies) (before after : Fetch) : Prop :=
  ∃ moves, after = before.acts replies moves

/-- No moves lead from a fetch to itself. -/
theorem Reaches.refl (replies : Replies) (fetch : Fetch) : Reaches replies fetch fetch := ⟨[], rfl⟩

/-- Moves can be followed by other moves. -/
theorem Reaches.trans {middle : Fetch} (hfirst : Reaches replies before middle)
    (hsecond : Reaches replies middle after) : Reaches replies before after := by
  obtain ⟨first, rfl⟩ := hfirst
  obtain ⟨second, rfl⟩ := hsecond
  exact ⟨first ++ second, by simp [acts]⟩

/-- The tasks that are not done are counted one by one. -/
theorem unfinished_eq_sum (fetch : Fetch) :
    fetch.unfinished = (fetch.tasks.map FetchTask.pending).sum := by
  unfold unfinished
  induction fetch.tasks with
  | nil => rfl
  | cons task rest ih =>
    rw [List.map_cons, List.sum_cons, ← ih]
    by_cases hdone : task.isDone = true
    · rw [List.filter_cons_of_neg (by simp [hdone]), FetchTask.pending, if_pos hdone, Nat.zero_add]
    · rw [List.filter_cons_of_pos (by simpa using hdone), FetchTask.pending, if_neg hdone,
        List.length_cons, Nat.add_comm]

/-- A step of a task leaves no more tasks that are not done. -/
theorem Advance.unfinished_le (h : Advance replies before after) : after.unfinished ≤ before.unfinished := by
  have hone : ∀ task : FetchTask, task.pending ≤ 1 := fun task => by
    rw [FetchTask.pending]
    split <;> omega
  rw [unfinished_eq_sum, unfinished_eq_sum]
  cases h with
  | @request i chunk download waiting _ _ =>
    have := sum_map_set FetchTask.pending (b := ⟨chunk, .downloading download⟩) waiting
    exact Nat.le_of_add_le_add_right (Nat.le_of_eq this)
  | @deliver i chunk download downloading =>
    have := sum_map_set FetchTask.pending
      (b := ⟨chunk, FetchTask.received before.file.layout.fileId chunk download.reply⟩) downloading
    have hle := hone ⟨chunk, FetchTask.received before.file.layout.fileId chunk download.reply⟩
    rw [show FetchTask.pending ⟨chunk, .downloading download⟩ = 1 from rfl] at this
    show ((before.tasks.set _ _).map _).sum ≤ _
    omega
  | @decode i chunk payload decoding =>
    have := sum_map_set FetchTask.pending
      (b := ⟨chunk, .done (FetchTask.decoded before.file chunk payload)⟩) decoding
    have hle := hone ⟨chunk, .done (FetchTask.decoded before.file chunk payload)⟩
    rw [show FetchTask.pending ⟨chunk, .decoding payload⟩ = 1 from rfl] at this
    show ((before.tasks.set _ _).map _).sum ≤ _
    omega

/-- What moves keep: the file, the number of tasks, the fates and the permits. They leave no more tasks
that are not done. -/
theorem Reaches.keeps (h : Reaches replies before after) :
    after.file = before.file ∧ after.tasks.length = before.tasks.length ∧
      after.fates replies = before.fates replies ∧ after.capacity? = before.capacity? ∧
        after.unfinished ≤ before.unfinished := by
  obtain ⟨moves, rfl⟩ := h
  refine acts_induction (motive := fun f => f.file = before.file ∧
    f.tasks.length = before.tasks.length ∧ f.fates replies = before.fates replies ∧
      f.capacity? = before.capacity? ∧ f.unfinished ≤ before.unfinished) moves
    ⟨rfl, rfl, rfl, rfl, Nat.le_refl _⟩ fun middle last hmiddle hadvance => ?_
  obtain ⟨hfile, hlength, hfates, hcapacity, hunfinished⟩ := hmiddle
  exact ⟨hadvance.keeps.1.trans hfile, hadvance.keeps.2.trans hlength, hadvance.fates_eq.trans hfates,
    hadvance.capacity?_eq.trans hcapacity, Nat.le_trans hadvance.unfinished_le hunfinished⟩

/-- A download that is taken in and decoded leaves its task done, and gives back its permit. -/
theorem run_arrival {i : Nat} {chunk : Chunk} {download : Download}
    (h : fetch.tasks[i]? = some ⟨chunk, .downloading download⟩) :
    fetch.run [.deliver i, .decode i] =
      { fetch with
        permits := fetch.permits.map (· + 1)
        tasks := fetch.tasks.set i
          ⟨chunk, .done (FetchTask.outcome fetch.file chunk download.reply)⟩ } := by
  have hi : i < fetch.tasks.length := (List.getElem?_eq_some_iff.mp h).1
  simp only [run, List.foldl_cons, List.foldl_nil]
  rw [step, h]
  simp only [step, List.getElem?_set_self hi]
  cases hreply : download.reply with
  | payload bytes => simp [FetchTask.received, setTask, FetchTask.outcome]
  | refused error => simp [FetchTask.received, FetchTask.outcome]
  | crashed => simp [FetchTask.received, FetchTask.outcome]

section Service

variable {σ : Type} {service : Service σ} {holds : σ → Prop}
  {answer : String → Except ServiceError Manifest} {reply : String → Reply} {now : Nat}

/-- The replies of a steady service, by the locations of chunks. -/
def byLocation (reply : String → Reply) : Replies := fun chunk => reply chunk.location

/-- What has become of a fetch when its first downloads have been taken in. -/
structure Delivered (replies : Replies) (now : Nat) (fetch : Fetch) (bound : Nat) (after : Fetch) :
    Prop where
  reached : Reaches replies fetch after
  later : ∀ j, bound ≤ j → after.tasks[j]? = fetch.tasks[j]?
  rests : (∀ task ∈ fetch.tasks, task.isDecoding = false) →
    ∀ j < bound, ∀ task, after.tasks[j]? = some task → task.Rests now
  fewer : ∀ j < bound, ∀ download, fetch.tasks[j]?.bind FetchTask.download? = some download →
    download.due ≤ now → after.unfinished < fetch.unfinished

/-- A task's download is due and taken in, or nothing happens. -/
theorem deliverDue_cases (service : Service σ) (now : Nat) (fetch : Fetch) (i : Nat) (state : σ) :
    (∀ download, fetch.tasks[i]?.bind FetchTask.download? = some download → now < download.due) ∧
        fetch.deliverDue service now i state = (fetch, state) ∨
      ∃ chunk download, fetch.tasks[i]? = some ⟨chunk, .downloading download⟩ ∧ download.due ≤ now ∧
        fetch.deliverDue service now i state =
          (fetch.run [.deliver i, .decode i], (service.arrived download state).2) := by
  rw [deliverDue]
  cases hdownload : fetch.tasks[i]?.bind FetchTask.download? with
  | none => exact .inl ⟨by simp, rfl⟩
  | some download =>
    obtain ⟨⟨chunk, progress⟩, htask, hfound⟩ := Option.bind_eq_some_iff.mp hdownload
    by_cases hdue : download.due ≤ now
    · cases progress with
      | downloading other =>
        obtain rfl : other = download := by simpa [FetchTask.download?] using hfound
        refine .inr ⟨chunk, other, htask, hdue, ?_⟩
        simp only [if_pos hdue]
        rfl
      | waiting | decoding | done => simp [FetchTask.download?] at hfound
    · refine .inl ⟨?_, by simp only [if_neg hdue]; rfl⟩
      intro other hother
      obtain rfl : download = other := by simpa using hother
      omega

/-- Taking in the download of one more task. -/
theorem delivered_deliverDue (hsteady : service.Steady holds answer reply) (fetch middle : Fetch) (i : Nat) :
    Action.Leads (middle.deliverDue service now i)
      (fun state => holds state ∧ Delivered replies now fetch i middle)
      (fun after state => holds state ∧ Delivered replies now fetch (i + 1) after) := by
  rintro state ⟨hstate, hmiddle⟩
  have hsame := hmiddle.later i (Nat.le_refl i)
  rcases deliverDue_cases service now middle i state with
    ⟨hdue, hafter⟩ | ⟨chunk, download, htask, hdue, hafter⟩
  · rw [hafter]
    refine ⟨hstate, hmiddle.reached, fun j hj => hmiddle.later j (by omega), ?_, ?_⟩
    · intro hcalm j hj task htask
      rcases Nat.lt_succ_iff_lt_or_eq.mp hj with hless | rfl
      · exact hmiddle.rests hcalm j hless task htask
      · refine ⟨hcalm task (List.mem_of_getElem? (hsame ▸ htask)), fun download hfound => ?_⟩
        exact hdue download (by rw [htask]; exact hfound)
    · intro j hj download hfound hearly
      rcases Nat.lt_succ_iff_lt_or_eq.mp hj with hless | rfl
      · exact hmiddle.fewer j hless download hfound hearly
      · have := hdue download (hsame ▸ hfound)
        omega
  · rw [hafter]
    have hi : i < middle.tasks.length := (List.getElem?_eq_some_iff.mp htask).1
    have hreach : Reaches replies middle (middle.run [.deliver i, .decode i]) :=
      ⟨[.deliver i, .decode i], rfl⟩
    have hless : (middle.run [.deliver i, .decode i]).unfinished < fetch.unfinished := by
      have hle := hmiddle.reached.keeps.2.2.2.2
      have htotal := sum_map_set FetchTask.pending
        (b := ⟨chunk, .done (FetchTask.outcome middle.file chunk download.reply)⟩) htask
      rw [show FetchTask.pending ⟨chunk, .downloading download⟩ = 1 from rfl,
        show FetchTask.pending ⟨chunk, .done (FetchTask.outcome middle.file chunk download.reply)⟩ = 0
          from rfl, ← unfinished_eq_sum] at htotal
      rw [run_arrival htask, unfinished_eq_sum]
      show ((middle.tasks.set i _).map _).sum < _
      omega
    refine ⟨hsteady.arrived download state hstate, hmiddle.reached.trans hreach, ?_, ?_,
      fun _ _ _ _ _ => hless⟩
    · intro j hj
      rw [run_arrival htask]
      show (middle.tasks.set i _)[j]? = _
      rw [List.getElem?_set_ne (by omega)]
      exact hmiddle.later j (by omega)
    · intro hcalm j hj task hfound
      rw [run_arrival htask] at hfound
      replace hfound : (middle.tasks.set i _)[j]? = some task := hfound
      rcases Nat.lt_succ_iff_lt_or_eq.mp hj with hbefore | rfl
      · rw [List.getElem?_set_ne (by omega)] at hfound
        exact hmiddle.rests hcalm j hbefore task hfound
      · rw [List.getElem?_set_self hi] at hfound
        obtain rfl := Option.some.inj hfound
        exact FetchTask.rests_of_isDone rfl now

/-- Taking in all downloads that are due. -/
theorem delivered_deliverAll (hsteady : service.Steady holds answer reply) (replies : Replies)
    (fetch : Fetch) :
    Action.Leads (fetch.deliverAll service now) holds
      (fun after state => holds state ∧ Delivered replies now fetch fetch.size after) := by
  intro state hstate
  have hstart : Delivered replies now fetch 0 fetch :=
    ⟨.refl replies fetch, fun _ _ => rfl, fun _ j hj => absurd hj (Nat.not_lt_zero j),
      fun j hj => absurd hj (Nat.not_lt_zero j)⟩
  exact Action.foldlM_range (motive := fun i after state => holds state ∧
    Delivered replies now fetch i after) fetch.size
      (fun i middle _ => delivered_deliverDue hsteady fetch middle i) fetch state ⟨hstate, hstart⟩

/-- What has become of a fetch when its first tasks have been given their turns to begin. -/
structure Requested (replies : Replies) (now : Nat) (fetch : Fetch) (bound : Nat) (after : Fetch) :
    Prop where
  reached : Reaches replies fetch after
  rests : (∀ task ∈ fetch.tasks, task.Rests now) → ∀ task ∈ after.tasks, task.Rests now
  exhausted : ∀ j < bound, ∀ task, after.tasks[j]? = some task → task.isWaiting = true →
    after.permits = some 0

/-- A task that has begun its download rests, once the download is taken in if it is due. -/
theorem deliverDue_of_request (hsteady : service.Steady holds answer reply) {i : Nat} {chunk : Chunk}
    (htask : fetch.tasks[i]? = some ⟨chunk, .waiting⟩) (hpermit : fetch.hasPermit = true)
    (download : Download) :
    Action.Leads ((fetch.step (.request i download)).deliverDue service now i)
      (fun state => download.reply = reply chunk.location ∧ holds state)
      (fun after state => holds state ∧ Reaches (byLocation reply) fetch after ∧
        ∃ task, after.tasks = fetch.tasks.set i task ∧ task.Rests now ∧ task.isWaiting = false) := by
  rintro state ⟨hreply, hstate⟩
  have hi : i < fetch.tasks.length := (List.getElem?_eq_some_iff.mp htask).1
  have hbegun : fetch.step (.request i download) =
      { fetch with
        permits := fetch.permits.map (· - 1)
        tasks := fetch.tasks.set i ⟨chunk, .downloading download⟩ } := by
    rw [step, htask]
    exact if_pos hpermit
  have hact : fetch.act (byLocation reply) (.request i download) = fetch.step (.request i download) := by
    rw [act, htask]
    show fetch.step (.request i { download with reply := reply chunk.location }) = _
    rw [← hreply]
  have hset : (fetch.step (.request i download)).tasks[i]? = some ⟨chunk, .downloading download⟩ := by
    rw [hbegun]
    exact List.getElem?_set_self hi
  rcases deliverDue_cases service now (fetch.step (.request i download)) i state with
    ⟨hdue, hafter⟩ | ⟨other, found, hfound, hdue, hafter⟩
  · rw [hafter]
    refine ⟨hstate, ⟨[.request i download], hact.symm⟩, ⟨chunk, .downloading download⟩, by rw [hbegun],
      ⟨rfl, ?_⟩, rfl⟩
    intro other hother
    exact hdue other (by rw [hset]; exact hother)
  · rw [hafter]
    obtain ⟨rfl, rfl⟩ : chunk = other ∧ download = found := by simpa [hset] using hfound
    refine ⟨hsteady.arrived download state hstate, ⟨[.request i download, .deliver i, .decode i], ?_⟩,
      ⟨chunk, .done (FetchTask.outcome (fetch.step (.request i download)).file chunk download.reply)⟩, ?_,
      FetchTask.rests_of_isDone rfl now, rfl⟩
    · show _ = acts _ (fetch.act (byLocation reply) (.request i download)) [.deliver i, .decode i]
      rw [hact]
      rfl
    · rw [run_arrival hset]
      show (fetch.step (.request i download)).tasks.set i _ = _
      rw [hbegun, List.set_set]

/-- A task that waits for a permit begins when there is one, and otherwise nothing happens. -/
theorem requestNow_cases (service : Service σ) (now : Nat) (fetch : Fetch) (i : Nat) :
    (∃ chunk, fetch.tasks[i]? = some ⟨chunk, .waiting⟩ ∧ fetch.hasPermit = true ∧
        fetch.requestNow service now i = (service.request now chunk.location >>= fun download =>
          (fetch.step (.request i download)).deliverDue service now i)) ∨
      (∀ task, fetch.tasks[i]? = some task → task.isWaiting = true → fetch.permits = some 0) ∧
        fetch.requestNow service now i = pure fetch := by
  rw [requestNow]
  cases htask : fetch.tasks[i]? with
  | none => exact .inr ⟨by simp, rfl⟩
  | some task =>
    obtain ⟨chunk, progress⟩ := task
    cases progress with
    | waiting =>
      by_cases hpermit : fetch.hasPermit = true
      · exact .inl ⟨chunk, rfl, hpermit, if_pos hpermit⟩
      · exact .inr ⟨fun _ _ _ => by simpa [hasPermit] using hpermit, if_neg hpermit⟩
    | downloading | decoding | done =>
      refine .inr ⟨fun task hsame hwaits => ?_, rfl⟩
      obtain rfl := Option.some.inj hsame
      simp [FetchTask.isWaiting] at hwaits

/-- Giving one more task its turn to begin. -/
theorem requested_requestNow (hsteady : service.Steady holds answer reply) (fetch middle : Fetch) (i : Nat) :
    Action.Leads (middle.requestNow service now i)
      (fun state => holds state ∧ Requested (byLocation reply) now fetch i middle)
      (fun after state => holds state ∧ Requested (byLocation reply) now fetch (i + 1) after) := by
  rintro state ⟨hstate, hmiddle⟩
  rcases requestNow_cases service now middle i with ⟨chunk, htask, hpermit, hafter⟩ | ⟨hnone, hafter⟩
  · rw [hafter]
    obtain ⟨hholds, hreach, task, hset, hrests, hwaiting⟩ :=
      (hsteady.request now chunk.location).bind
        (fun download => deliverDue_of_request hsteady htask hpermit download) state hstate
    refine ⟨hholds, hmiddle.reached.trans hreach, fun hall other hother => ?_,
      fun j hj other hother hwaits => ?_⟩
    · rw [hset] at hother
      rcases List.mem_or_eq_of_mem_set hother with hmem | rfl
      · exact hmiddle.rests hall other hmem
      · exact hrests
    · exfalso
      rw [hset] at hother
      rcases Nat.lt_succ_iff_lt_or_eq.mp hj with hless | rfl
      · -- An earlier task that waits found no permit, and so there is none for this one.
        rw [List.getElem?_set_ne (by omega)] at hother
        have hnone := hmiddle.exhausted j hless other hother hwaits
        simp [hasPermit, hnone] at hpermit
      · obtain ⟨hi, rfl⟩ := List.getElem?_eq_some_iff.mp hother
        rw [List.getElem_set_self, hwaiting] at hwaits
        simp at hwaits
  · rw [hafter]
    refine ⟨hstate, hmiddle.reached, hmiddle.rests, fun j hj task htask hwaits => ?_⟩
    rcases Nat.lt_succ_iff_lt_or_eq.mp hj with hless | rfl
    · exact hmiddle.exhausted j hless task htask hwaits
    · exact hnone task htask hwaits

/-- Giving all tasks their turns to begin. -/
theorem requested_requestAll (hsteady : service.Steady holds answer reply) (fetch : Fetch) :
    Action.Leads (fetch.requestAll service now) holds
      (fun after state => holds state ∧ Requested (byLocation reply) now fetch fetch.size after) := by
  intro state hstate
  have hstart : Requested (byLocation reply) now fetch 0 fetch :=
    ⟨.refl _ fetch, fun hall => hall, fun j hj => absurd hj (Nat.not_lt_zero j)⟩
  exact Action.foldlM_range (motive := fun i after state => holds state ∧
    Requested (byLocation reply) now fetch i after) fetch.size
      (fun i middle _ => requested_requestNow hsteady fetch middle i) fetch state ⟨hstate, hstart⟩

/-- At an instant, everything that can happen to a fetch has happened. -/
structure Settled (now : Nat) (fetch : Fetch) : Prop where
  rests : ∀ task ∈ fetch.tasks, task.Rests now
  exhausted : ∀ task ∈ fetch.tasks, task.isWaiting = true → fetch.permits = some 0

/-- A settled fetch that has a permit or needs none, and is not done, waits for a download. -/
theorem Settled.exists_download (h : fetch.Settled now) (hcapacity : fetch.capacity? ≠ some 0)
    (hwork : ∃ task ∈ fetch.tasks, task.isDone = false) : ∃ download, download ∈ fetch.downloads := by
  obtain ⟨⟨chunk, progress⟩, hmem, hdone⟩ := hwork
  cases progress with
  | done result => simp [FetchTask.isDone] at hdone
  | decoding payload => exact absurd (h.rests _ hmem).1 (by simp [FetchTask.isDecoding])
  | downloading download => exact ⟨download, List.mem_filterMap.mpr ⟨_, hmem, rfl⟩⟩
  | waiting =>
    have hnone := h.exhausted _ hmem rfl
    rw [capacity?, hnone] at hcapacity
    have hsome : 0 < fetch.downloads.length := by
      simp only [Option.map_some, ne_eq, Option.some.injEq] at hcapacity
      omega
    exact List.exists_mem_of_length_pos hsome

end Service

end Fetch

end Reassembly
