import Mathlib.Algebra.GroupWithZero.Nat
import Mathlib.Data.List.Count
import Reassembly.Retrieval.Fetch

/-!
# Fates of chunk tasks

Once it is settled which reply every download brings, it is settled what every task comes to, however
the tasks take turns. So the list of these fates does not change while a fetch goes on; only the work
that is left grows less. A fetch is never stuck, because the permits that are free and those that
downloads hold add up to the same number throughout.
-/

namespace Reassembly

/-- The replies that the downloads of chunks bring. -/
abbrev Replies := Chunk → Reply

namespace FetchTask

/-- The result of a chunk whose download brings a reply. -/
def outcome (file : ResolvedFile) (chunk : Chunk) : Reply → Except RetrievalError Block
  | .payload bytes => decoded file chunk bytes
  | .refused error => .error (.download (chunk.context file.layout.fileId) error)
  | .crashed => .error (.unfinished (chunk.context file.layout.fileId) crashReason)

/-- The result that a task comes to. -/
def fate (file : ResolvedFile) (replies : Replies) (task : FetchTask) : Except RetrievalError Block :=
  match task.progress with
  | .waiting => outcome file task.chunk (replies task.chunk)
  | .downloading download => outcome file task.chunk download.reply
  | .decoding payload => decoded file task.chunk payload
  | .done result => result

/-- The steps that a task has to make until it is done. -/
def stepsLeft (task : FetchTask) : Nat :=
  match task.progress with
  | .waiting => 3
  | .downloading _ => 2
  | .decoding _ => 1
  | .done _ => 0

/-- What a download has brought leads to the chunk's outcome. -/
theorem fate_received (file : ResolvedFile) (replies : Replies) (chunk : Chunk) (reply : Reply) :
    fate file replies ⟨chunk, received file.layout.fileId chunk reply⟩ = outcome file chunk reply := by
  cases reply <;> rfl

/-- What a download has brought is one step from its end at most. -/
theorem stepsLeft_received (fileId : String) (chunk : Chunk) (reply : Reply) :
    stepsLeft ⟨chunk, received fileId chunk reply⟩ ≤ 1 := by
  cases reply <;> simp [stepsLeft, received]

/-- The permits that a task holds: one while it downloads. -/
def held (task : FetchTask) : Nat :=
  match task.progress with
  | .downloading _ => 1
  | _ => 0

/-- Once its download has brought a reply, a task holds no permit. -/
theorem held_received (fileId : String) (chunk : Chunk) (reply : Reply) :
    held ⟨chunk, received fileId chunk reply⟩ = 0 := by
  cases reply <;> rfl

end FetchTask

namespace Fetch

variable {fetch after : Fetch} {replies : Replies}

/-- The results that the tasks of a fetch come to, in the order of the chunks. -/
def fates (replies : Replies) (fetch : Fetch) : List (Except RetrievalError Block) :=
  fetch.tasks.map (FetchTask.fate fetch.file replies)

/-- The steps that the tasks of a fetch have to make. -/
def work (fetch : Fetch) : Nat := (fetch.tasks.map FetchTask.stepsLeft).sum

/-- The permits of a fetch, free or held by a download. -/
def capacity? (fetch : Fetch) : Option Nat := fetch.permits.map (· + fetch.downloads.length)

/-- A step of one task, where the download of a chunk brings the chunk's reply. -/
inductive Advance (replies : Replies) (fetch : Fetch) : Fetch → Prop
  | request {i : Nat} {chunk : Chunk} {download : Download}
      (waiting : fetch.tasks[i]? = some ⟨chunk, .waiting⟩) (permit : fetch.hasPermit = true)
      (reply : download.reply = replies chunk) :
      Advance replies fetch
        { fetch with
          permits := fetch.permits.map (· - 1)
          tasks := fetch.tasks.set i ⟨chunk, .downloading download⟩ }
  | deliver {i : Nat} {chunk : Chunk} {download : Download}
      (downloading : fetch.tasks[i]? = some ⟨chunk, .downloading download⟩) :
      Advance replies fetch
        { fetch with
          permits := fetch.permits.map (· + 1)
          tasks := fetch.tasks.set i
            ⟨chunk, FetchTask.received fetch.file.layout.fileId chunk download.reply⟩ }
  | decode {i : Nat} {chunk : Chunk} {payload : Bytes}
      (decoding : fetch.tasks[i]? = some ⟨chunk, .decoding payload⟩) :
      Advance replies fetch
        (fetch.setTask i ⟨chunk, .done (FetchTask.decoded fetch.file chunk payload)⟩)

/-- Replacing an element by one with the same image leaves the images as they are. -/
theorem map_set_of_eq {α β : Type} (f : α → β) {l : List α} {i : Nat} {a b : α}
    (h : l[i]? = some a) (hf : f b = f a) : (l.set i b).map f = l.map f := by
  obtain ⟨hi, rfl⟩ := List.getElem?_eq_some_iff.mp h
  rw [List.map_set, hf, ← List.getElem_map f (h := by simpa using hi), List.set_getElem_self]

/-- Replacing an element changes a total by the difference of the two. -/
theorem sum_map_set {α : Type} (f : α → Nat) {l : List α} {i : Nat} {a b : α} (h : l[i]? = some a) :
    ((l.set i b).map f).sum + f a = (l.map f).sum + f b := by
  induction l generalizing i with
  | nil => simp at h
  | cons first rest ih =>
    cases i with
    | zero =>
      obtain rfl : first = a := by simpa using h
      simp only [List.set_cons_zero, List.map_cons, List.sum_cons]
      omega
    | succ i =>
      have := ih (i := i) (by simpa using h)
      simp only [List.set_cons_succ, List.map_cons, List.sum_cons]
      omega

/-- The downloads in flight hold a permit each. -/
theorem length_downloads (fetch : Fetch) :
    fetch.downloads.length = (fetch.tasks.map FetchTask.held).sum := by
  unfold downloads
  induction fetch.tasks with
  | nil => rfl
  | cons task rest ih =>
    obtain ⟨chunk, progress⟩ := task
    cases progress with
    | downloading download =>
      simp only [List.filterMap_cons, FetchTask.download?, List.length_cons, ih, List.map_cons,
        List.sum_cons, FetchTask.held]
      omega
    | waiting | decoding | done =>
      simp only [List.filterMap_cons, FetchTask.download?, ih, List.map_cons, List.sum_cons,
        FetchTask.held, Nat.zero_add]

/-- Replacing a task keeps the permits when what becomes free is what the task gives back. -/
theorem capacity?_set (fetch : Fetch) (change : Nat → Nat) (task : FetchTask) {i : Nat}
    {before : FetchTask} (h : fetch.tasks[i]? = some before)
    (hchange : ∀ free, fetch.permits = some free → change free + task.held = free + before.held) :
    ({ fetch with permits := fetch.permits.map change, tasks := fetch.tasks.set i task } :
      Fetch).capacity? = fetch.capacity? := by
  have htotal := sum_map_set FetchTask.held (b := task) h
  simp only [capacity?, length_downloads]
  cases hpermits : fetch.permits with
  | none => rfl
  | some free =>
    have hfree := hchange free hpermits
    simp only [Option.map_some, Option.some.injEq]
    omega

namespace Advance

/-- A step keeps the file of a fetch and the number of its tasks. -/
theorem keeps (h : Advance replies fetch after) :
    after.file = fetch.file ∧ after.tasks.length = fetch.tasks.length := by
  cases h <;> exact ⟨rfl, List.length_set⟩

/-- A step changes no chunk. -/
theorem chunks_eq (h : Advance replies fetch after) :
    after.tasks.map (·.chunk) = fetch.tasks.map (·.chunk) := by
  cases h with
  | request waiting _ _ => exact map_set_of_eq _ waiting rfl
  | deliver downloading => exact map_set_of_eq _ downloading rfl
  | decode decoding => exact map_set_of_eq _ decoding rfl

/-- A step changes no fate. -/
theorem fates_eq (h : Advance replies fetch after) : after.fates replies = fetch.fates replies := by
  cases h with
  | request waiting _ reply =>
    exact map_set_of_eq _ waiting (by simp only [FetchTask.fate, reply])
  | deliver downloading => exact map_set_of_eq _ downloading (FetchTask.fate_received _ _ _ _)
  | decode decoding => exact map_set_of_eq _ decoding rfl

/-- A step leaves less work. -/
theorem work_lt (h : Advance replies fetch after) : after.work < fetch.work := by
  cases h with
  | @request i chunk download waiting _ _ =>
    have := sum_map_set FetchTask.stepsLeft (b := ⟨chunk, .downloading download⟩) waiting
    simp only [FetchTask.stepsLeft] at this
    simp only [work]
    omega
  | @deliver i chunk download downloading =>
    have := sum_map_set FetchTask.stepsLeft
      (b := ⟨chunk, FetchTask.received fetch.file.layout.fileId chunk download.reply⟩) downloading
    have hone := FetchTask.stepsLeft_received fetch.file.layout.fileId chunk download.reply
    rw [show FetchTask.stepsLeft ⟨chunk, .downloading download⟩ = 2 from rfl] at this
    simp only [work]
    omega
  | @decode i chunk payload decoding =>
    have := sum_map_set FetchTask.stepsLeft
      (b := ⟨chunk, .done (FetchTask.decoded fetch.file chunk payload)⟩) decoding
    simp only [FetchTask.stepsLeft] at this
    simp only [work, setTask]
    omega

/-- A step neither makes nor loses a permit. -/
theorem capacity?_eq (h : Advance replies fetch after) : after.capacity? = fetch.capacity? := by
  cases h with
  | request waiting permit _ =>
    refine fetch.capacity?_set _ _ waiting fun free hfree => ?_
    have hsome : free ≠ 0 := by simpa [hasPermit, hfree] using permit
    simp only [FetchTask.held]
    omega
  | deliver downloading =>
    refine fetch.capacity?_set _ _ downloading fun free _ => ?_
    rw [FetchTask.held_received]
    rfl
  | @decode i chunk payload decoding =>
    have hcapacity := fetch.capacity?_set id
      ⟨chunk, .done (FetchTask.decoded fetch.file chunk payload)⟩ decoding fun free _ => rfl
    simp only [Option.map_id_fun, id_eq] at hcapacity
    exact hcapacity

end Advance

/-- A move of a task, in which the download of a chunk brings the chunk's reply. -/
def act (replies : Replies) (fetch : Fetch) : Move → Fetch
  | .request i download =>
    match fetch.tasks[i]? with
    | some task => fetch.step (.request i { download with reply := replies task.chunk })
    | none => fetch
  | move => fetch.step move

/-- A move changes nothing, or it is a step of one task. -/
theorem act_eq_or_advance (replies : Replies) (fetch : Fetch) (move : Move) :
    fetch.act replies move = fetch ∨ Advance replies fetch (fetch.act replies move) := by
  cases move with
  | request i download =>
    cases htask : fetch.tasks[i]? with
    | none => left; simp only [act, htask]
    | some task =>
      obtain ⟨chunk, progress⟩ := task
      simp only [act, htask, step]
      cases progress with
      | waiting =>
        by_cases hpermit : fetch.hasPermit = true
        · right
          simp only [hpermit, if_true]
          exact .request htask hpermit rfl
        · left
          simp only [hpermit, Bool.false_eq_true, if_false]
      | downloading | decoding | done => left; rfl
  | deliver i =>
    cases htask : fetch.tasks[i]? with
    | none => left; simp only [act, step, htask]
    | some task =>
      obtain ⟨chunk, progress⟩ := task
      simp only [act, step, htask]
      cases progress with
      | downloading => right; exact .deliver htask
      | waiting | decoding | done => left; rfl
  | decode i =>
    cases htask : fetch.tasks[i]? with
    | none => left; simp only [act, step, htask]
    | some task =>
      obtain ⟨chunk, progress⟩ := task
      simp only [act, step, htask]
      cases progress with
      | decoding => right; exact .decode htask
      | waiting | downloading | done => left; rfl

/-- Moves of tasks, one after the other. -/
def acts (replies : Replies) (fetch : Fetch) (moves : List Move) : Fetch :=
  moves.foldl (act replies) fetch

/-- What holds after no step, and after a step when it held before, holds after all moves. -/
theorem acts_induction {motive : Fetch → Prop} (moves : List Move) (hstart : motive fetch)
    (hstep : ∀ before after, motive before → Advance replies before after → motive after) :
    motive (fetch.acts replies moves) := by
  induction moves generalizing fetch with
  | nil => exact hstart
  | cons move rest ih =>
    apply ih
    rcases act_eq_or_advance replies fetch move with hsame | hadvance
    · rw [hsame]
      exact hstart
    · exact hstep _ _ hstart hadvance

/-- Whatever tasks do, they come to the same results. -/
theorem fates_acts (replies : Replies) (fetch : Fetch) (moves : List Move) :
    (fetch.acts replies moves).fates replies = fetch.fates replies :=
  acts_induction (motive := fun f => f.fates replies = fetch.fates replies) moves rfl
    fun _ _ hbefore hadvance => hadvance.fates_eq.trans hbefore

/-- Whatever tasks do, no permit is made or lost. -/
theorem capacity?_acts (replies : Replies) (fetch : Fetch) (moves : List Move) :
    (fetch.acts replies moves).capacity? = fetch.capacity? :=
  acts_induction (motive := fun f => f.capacity? = fetch.capacity?) moves rfl
    fun _ _ hbefore hadvance => hadvance.capacity?_eq.trans hbefore

/-- A task that is not done can make a step, or another one can, when there is a permit at all. -/
theorem exists_advance (replies : Replies) (hcapacity : fetch.capacity? ≠ some 0)
    (hwork : ∃ task ∈ fetch.tasks, task.isDone = false) :
    ∃ move, Advance replies fetch (fetch.act replies move) := by
  obtain ⟨task, hmem, hdone⟩ := hwork
  obtain ⟨i, hi⟩ := List.mem_iff_getElem?.mp hmem
  obtain ⟨chunk, progress⟩ := task
  cases progress with
  | decoding payload =>
    refine ⟨.decode i, ?_⟩
    simp only [act, step, hi]
    exact .decode hi
  | downloading download =>
    refine ⟨.deliver i, ?_⟩
    simp only [act, step, hi]
    exact .deliver hi
  | done result => simp [FetchTask.isDone] at hdone
  | waiting =>
    by_cases hpermit : fetch.hasPermit = true
    · refine ⟨.request i ⟨.crashed, 0, false⟩, ?_⟩
      simp only [act, step, hi, hpermit, if_true]
      exact .request hi hpermit rfl
    · -- All permits are held, so some download can be delivered.
      have hnone : fetch.permits = some 0 := by simpa [hasPermit] using hpermit
      have hsome : 0 < fetch.downloads.length := by
        rw [capacity?, hnone] at hcapacity
        simp only [Option.map_some, ne_eq, Option.some.injEq] at hcapacity
        omega
      obtain ⟨download, hdownload⟩ := List.exists_mem_of_length_pos hsome
      obtain ⟨other, hother, heq⟩ := List.mem_filterMap.mp hdownload
      obtain ⟨j, hj⟩ := List.mem_iff_getElem?.mp hother
      obtain ⟨chunk', progress'⟩ := other
      cases progress' with
      | downloading found =>
        refine ⟨.deliver j, ?_⟩
        simp only [act, step, hj]
        exact .deliver hj
      | waiting | decoding | done => simp [FetchTask.download?] at heq

variable {file : ResolvedFile} {chunks : List Chunk} {limit : Nat}

/-- At the start, every task comes to the outcome of its chunk. -/
theorem fates_start (replies : Replies) (file : ResolvedFile) (chunks : List Chunk) (limit : Nat) :
    (start file chunks limit).fates replies =
      chunks.map fun chunk => FetchTask.outcome file chunk (replies chunk) := by
  simp [fates, start, FetchTask.fate]

/-- At the start, no download is in flight. -/
theorem downloads_start (file : ResolvedFile) (chunks : List Chunk) (limit : Nat) :
    (start file chunks limit).downloads = [] := by
  simp [downloads, start, FetchTask.download?]

/-- At the start, every chunk has three steps to make. -/
theorem work_start (file : ResolvedFile) (chunks : List Chunk) (limit : Nat) :
    (start file chunks limit).work = 3 * chunks.length := by
  simp only [work, start, List.map_map]
  induction chunks with
  | nil => rfl
  | cons chunk rest ih =>
    simp only [List.map_cons, List.sum_cons, ih, Function.comp, FetchTask.stepsLeft,
      List.length_cons]
    omega

/-- A fetch has as many permits as its limit says, and never none. -/
theorem capacity?_start (file : ResolvedFile) (chunks : List Chunk) (limit : Nat) :
    (start file chunks limit).capacity? = if limit = 0 then none else some (min limit maxPermits) := by
  rw [capacity?, downloads_start]
  simp only [start]
  split <;> rfl

/-- A fetch has a permit, or needs none. -/
theorem capacity?_start_ne_zero (file : ResolvedFile) (chunks : List Chunk) (limit : Nat) :
    (start file chunks limit).capacity? ≠ some 0 := by
  rw [capacity?_start]
  split
  · simp
  · simp only [ne_eq, Option.some.injEq, maxPermits]
    omega

/-- What is found when the next result is asked for, and what is left then. -/
theorem next_cases (replies : Replies) (fetch : Fetch) :
    (fetch.tasks = [] ∧ fetch.next = (.ended, fetch)) ∨
      (∃ task ∈ fetch.tasks, task.isDone = false) ∧ fetch.next = (.pending, fetch) ∨
        ∃ result task rest, fetch.next = (.item result, { fetch with tasks := rest }) ∧
          fetch.tasks = task :: rest ∧
            fetch.fates replies = result :: ({ fetch with tasks := rest } : Fetch).fates replies ∧
              ({ fetch with tasks := rest } : Fetch).capacity? = fetch.capacity? ∧
                ({ fetch with tasks := rest } : Fetch).work = fetch.work := by
  obtain ⟨file, permits, tasks⟩ := fetch
  cases tasks with
  | nil => exact .inl ⟨rfl, rfl⟩
  | cons task rest =>
    obtain ⟨chunk, progress⟩ := task
    right
    cases progress with
    | done result =>
      refine .inr ⟨result, _, rest, rfl, rfl, rfl, rfl, ?_⟩
      simp [work, FetchTask.stepsLeft]
    | waiting => exact .inl ⟨⟨_, List.mem_cons_self, rfl⟩, rfl⟩
    | downloading download => exact .inl ⟨⟨_, List.mem_cons_self, rfl⟩, rfl⟩
    | decoding payload => exact .inl ⟨⟨_, List.mem_cons_self, rfl⟩, rfl⟩

/-- A fetch whose next result is not there yet stays as it is. -/
theorem next_of_pending {fetch : Fetch} (h : fetch.next.1 = .pending) : fetch.next.2 = fetch := by
  revert h
  rw [next]
  split <;> simp

/-- To take a result leaves the permits as they are. -/
theorem permits_next (fetch : Fetch) : fetch.next.2.permits = fetch.permits := by
  rw [next]
  split <;> rfl

/-- To take a result leaves the downloads as they are. -/
theorem downloads_next (fetch : Fetch) : fetch.next.2.downloads = fetch.downloads := by
  rw [next]
  split
  · rfl
  · next chunk result rest htasks =>
    rw [downloads, downloads, htasks]
    rfl
  · rfl

end Fetch

end Reassembly
