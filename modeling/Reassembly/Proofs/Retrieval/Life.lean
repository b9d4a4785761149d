import Mathlib.Logic.Relation
import Reassembly.Proofs.Clipping
import Reassembly.Proofs.Retrieval.Course
import Reassembly.Proofs.Retrieval.Read

/-!
# The life of a stream

A stream in front of a service: it is polled, whether what it waits for is there or not, and cancelled, while
the tasks of its fetch move as they like. What it has to keep to is told by what it holds. Nothing is held
before it is opened and after it has ended. In between it holds a fetch whose tasks, together with those whose
blocks it has consumed, are the tasks of the selected chunks in their order, and its offset has not passed the
chunk that comes next.
-/

namespace Reassembly

/-- A change of the state of a stream. -/
inductive StreamState.Moves : StreamState → StreamState → Prop
  | opens : Moves idle streaming
  | completes : Moves streaming completed
  | fails : Moves streaming failed
  | stops : Moves streaming cancelled
  | forgoes : Moves idle cancelled

/-- A task that is done with a block of its chunk. -/
def FetchTask.Delivered (task : FetchTask) : Prop :=
  ∃ block, task.progress = .done (.ok block) ∧ block.number = task.chunk.number ∧
    block.offset = task.chunk.offset ∧ block.data.length = task.chunk.length

/-- If a task is done with a block, it is one of its chunk. -/
def FetchTask.Sound (task : FetchTask) : Prop :=
  ∀ block, task.progress = .done (.ok block) → task.Delivered

namespace Fetch.Advance

variable {fetch after : Fetch} {replies : Replies}

/-- Tasks that step are done with blocks of their chunks only. -/
theorem sound (h : Advance replies fetch after) (hsound : ∀ task ∈ fetch.tasks, task.Sound) :
    ∀ task ∈ after.tasks, task.Sound := by
  cases h with
  | request waiting _ _ =>
    intro task htask
    rcases List.mem_or_eq_of_mem_set htask with hold | rfl
    · exact hsound task hold
    · intro block hblock
      simp at hblock
  | @deliver i chunk download downloading =>
    intro task htask
    rcases List.mem_or_eq_of_mem_set htask with hold | rfl
    · exact hsound task hold
    · intro block hblock
      cases hreply : download.reply <;> simp [hreply, FetchTask.received] at hblock
  | @decode i chunk payload decoding =>
    intro task htask
    rcases List.mem_or_eq_of_mem_set htask with hold | rfl
    · exact hsound task hold
    · intro block hblock
      have houtcome : FetchTask.outcome fetch.file chunk (.payload payload) = .ok block := Progress.done.inj hblock
      obtain ⟨-, hnumber, hoffset, hlength⟩ := FetchTask.outcome_eq_ok houtcome
      exact ⟨block, hblock, hnumber, hoffset, hlength⟩

end Fetch.Advance

/-- Of a run of chunks, each stops no later than any behind it starts. -/
theorem Layout.EndToEnd.pairwise {placed offset : Nat} {chunks : List Chunk} (h : EndToEnd placed offset chunks) :
    chunks.Pairwise fun chunk later => chunk.stop ≤ later.offset := by
  induction chunks generalizing placed offset with
  | nil => exact .nil
  | cons chunk rest ih =>
    obtain ⟨-, -, hrest⟩ := h
    exact .cons (fun later hlater => (hrest.between hlater).1) (ih hrest)

namespace FragmentStream

variable {stream : FragmentStream} {consumed : List FetchTask}

section Consuming

/-- The tasks whose blocks are consumed when a fragment is taken: those that are passed over, and the one that
yields the fragment. -/
def passed (range : ByteRange) : List FetchTask → List FetchTask
  | ⟨chunk, .done (.ok block)⟩ :: rest =>
    ⟨chunk, .done (.ok block)⟩ :: if (block.clip range).isEmpty then passed range rest else []
  | _ => []

/-- The tasks whose blocks a poll of a stream consumes. -/
def taken (stream : FragmentStream) : List FetchTask :=
  match stream.holding with
  | .fetching fetch => passed stream.range fetch.tasks
  | _ => []

/-- What taking a fragment finds, told by the tasks that are consumed. -/
inductive Passes (range : ByteRange) (tasks : List FetchTask) : Poll Block × List FetchTask → Prop
  | ended (all : tasks = passed range tasks) : Passes range tasks (.ended, [])
  | pending {rest : List FetchTask} (split : tasks = passed range tasks ++ rest) :
      Passes range tasks (.pending, rest)
  | fragment {front rest : List FetchTask} {chunk : Chunk} {block : Block}
      (last : passed range tasks = front ++ [⟨chunk, .done (.ok block)⟩])
      (split : tasks = passed range tasks ++ rest) :
      Passes range tasks (.item (.ok (block.clip range)), rest)
  | error {rest : List FetchTask} {error : RetrievalError} : Passes range tasks (.item (.error error), rest)

/-- Taking a fragment consumes the tasks that are passed. -/
theorem passes_takeFragment (range : ByteRange) (tasks : List FetchTask) :
    Passes range tasks (takeFragment range tasks) := by
  induction tasks with
  | nil => exact .ended rfl
  | cons task rest ih =>
    obtain ⟨chunk, progress⟩ := task
    cases progress with
    | waiting | downloading | decoding => exact .pending rfl
    | done result =>
      cases result with
      | error error => exact .error
      | ok block =>
        rw [takeFragment]
        by_cases hempty : (block.clip range).isEmpty = true
        · rw [if_pos hempty]
          have hpassed : passed range (⟨chunk, .done (.ok block)⟩ :: rest) =
              ⟨chunk, .done (.ok block)⟩ :: passed range rest := by rw [passed, if_pos hempty]
          generalize takeFragment range rest = found at ih
          cases ih with
          | ended all => exact .ended (hpassed ▸ congrArg _ all)
          | pending split => exact .pending (hpassed ▸ congrArg _ split)
          | @fragment front _ yielding found last split =>
            have hlast : passed range (⟨chunk, .done (.ok block)⟩ :: rest) =
                (⟨chunk, .done (.ok block)⟩ :: front) ++ [⟨yielding, .done (.ok found)⟩] := by
              rw [hpassed, last]
              rfl
            exact .fragment hlast (hpassed ▸ congrArg _ split)
          | error => exact .error
        · rw [if_neg hempty]
          have hpassed : passed range (⟨chunk, .done (.ok block)⟩ :: rest) = [⟨chunk, .done (.ok block)⟩] := by
            rw [passed, if_neg hempty]
          exact .fragment (hpassed.trans (List.nil_append _).symm) (by rw [hpassed]; rfl)

/-- The tasks that are passed are among those that there are, and done with a block. -/
theorem mem_of_mem_passed {range : ByteRange} {tasks : List FetchTask} {task : FetchTask}
    (h : task ∈ passed range tasks) : task ∈ tasks ∧ ∃ block, task.progress = .done (.ok block) := by
  induction tasks with
  | nil => simp [passed] at h
  | cons first rest ih =>
    obtain ⟨chunk, progress⟩ := first
    cases progress with
    | waiting | downloading | decoding => simp [passed] at h
    | done result =>
      cases result with
      | error error => simp [passed] at h
      | ok block =>
        rw [passed] at h
        rcases List.mem_cons.mp h with rfl | h
        · exact ⟨List.mem_cons_self, block, rfl⟩
        · split at h
          · obtain ⟨hmem, hdone⟩ := ih h
            exact ⟨List.mem_cons_of_mem _ hmem, hdone⟩
          · simp at h

/-- At the start of a fetch, nothing is passed. -/
theorem passed_start (range : ByteRange) (file : ResolvedFile) (chunks : List Chunk) (limit : Nat) :
    passed range (Fetch.start file chunks limit).tasks = [] := by
  cases chunks <;> rfl

end Consuming

section Stages

/-- A stream fetches the chunks that its range selects: the tasks that it has consumed and those that it holds
are theirs, and its offset has not passed the ones that come. -/
structure Selected (stream : FragmentStream) (fetch : Fetch) (consumed : List FetchTask) : Prop where
  layout : stream.layout = some fetch.file.layout
  complete : fetch.file.layout.Complete
  split : (consumed ++ fetch.tasks).map (·.chunk) = Layout.overlapping fetch.file.layout.chunks stream.range
  read : ∀ task ∈ consumed, task.Delivered
  sound : ∀ task ∈ fetch.tasks, task.Sound
  ahead : ∀ chunk ∈ fetch.tasks.map (·.chunk), stream.offset ≤ max stream.range.start chunk.offset

/-- What a stream is like at each stage of its life. -/
inductive Stage (stream : FragmentStream) (consumed : List FetchTask) : Prop
  | unopened (state : stream.state = .idle ∨ stream.state = .streaming) (holding : stream.holding = .unopened)
      (offset : stream.offset = stream.range.start) (nothing : consumed = [])
  | fetching {fetch : Fetch} (state : stream.state = .streaming) (holding : stream.holding = .fetching fetch)
      (selected : stream.Selected fetch consumed)
  | completed {layout : Layout} (state : stream.state = .completed) (holding : stream.holding = .released)
      (known : stream.layout = some layout)
      (all : consumed.map (·.chunk) = Layout.overlapping layout.chunks stream.range)
      (read : ∀ task ∈ consumed, task.Delivered)
  | stopped (state : stream.state = .failed ∨ stream.state = .cancelled) (holding : stream.holding = .released)

/-- How the state of a stream changes with what a poll of it brings. -/
inductive Fits (before : StreamState) : Poll Block → StreamState → Prop
  | past (terminal : before.isTerminal = true) : Fits before .ended before
  | pending (live : before.isTerminal = false) : Fits before .pending .streaming
  | fragment (live : before.isTerminal = false) (block : Block) : Fits before (.item (.ok block)) .streaming
  | error (live : before.isTerminal = false) (error : RetrievalError) : Fits before (.item (.error error)) .failed
  | ended (live : before.isTerminal = false) : Fits before .ended .completed

/-- A poll has led from a stream of a state, an offset and a range to the next stage. -/
structure Leads (state : StreamState) (offset : Nat) (range : ByteRange) (consumed : List FetchTask)
    (found : Poll Block × FragmentStream) : Prop where
  stage : found.2.Stage consumed
  fits : Fits state found.1 found.2.state
  offset_le : offset ≤ found.2.offset
  start_eq : found.2.range.start = range.start
  last_eq : found.2.range.last = range.last

/-- A stream that has ended holds nothing. -/
theorem Stage.released (h : stream.Stage consumed) (hterminal : stream.state.isTerminal = true) :
    stream.holding = .released := by
  cases h with
  | unopened state => rcases state with state | state <;> simp [state, StreamState.isTerminal] at hterminal
  | fetching state => simp [state, StreamState.isTerminal] at hterminal
  | completed _ holding | stopped _ holding => exact holding

/-- The tasks that are passed have delivered blocks of their chunks. -/
theorem Selected.read_passed {fetch : Fetch} (h : stream.Selected fetch consumed) :
    ∀ task ∈ consumed ++ passed stream.range fetch.tasks, task.Delivered := by
  intro task htask
  rcases List.mem_append.mp htask with hbefore | hpassed
  · exact h.read task hbefore
  · obtain ⟨hmem, block, hdone⟩ := mem_of_mem_passed hpassed
    exact h.sound task hmem block hdone

/-- The selected chunks end after the first byte of the range, and each stops no later than those behind it
start. -/
theorem Selected.ordered {fetch : Fetch} (h : stream.Selected fetch consumed) :
    (fetch.tasks.map (·.chunk)).Pairwise (fun chunk later => chunk.stop ≤ later.offset) ∧
      ∀ chunk ∈ fetch.tasks.map (·.chunk), stream.range.start < chunk.stop := by
  obtain ⟨_, _, _, -, hend, -, -, -, hstart⟩ := h.complete.endToEnd_overlapping stream.range
  have hsplit := h.split
  rw [List.map_append] at hsplit
  have hpairwise := hend.pairwise
  rw [← hsplit] at hpairwise hstart
  exact ⟨(List.pairwise_append.mp hpairwise).2.1, fun chunk hchunk => hstart chunk (List.mem_append_right _ hchunk)⟩

/-- Some of the tasks of a fetch can be consumed, when the offset does not pass those that are left. -/
theorem Selected.consume {fetch : Fetch} {rest : List FetchTask} (h : stream.Selected fetch consumed)
    (hsplit : fetch.tasks = passed stream.range fetch.tasks ++ rest) {offset : Nat} (holding : Holding)
    (hahead : ∀ chunk ∈ rest.map (·.chunk), offset ≤ max stream.range.start chunk.offset) :
    ({ stream with offset, holding } : FragmentStream).Selected { fetch with tasks := rest }
      (consumed ++ passed stream.range fetch.tasks) where
  layout := h.layout
  complete := h.complete
  split := by
    rw [List.append_assoc, ← hsplit]
    exact h.split
  read := h.read_passed
  sound := fun task htask => h.sound task (hsplit ▸ List.mem_append_right _ htask)
  ahead := hahead

/-- A poll of a stream that is fetching leads to the next stage. -/
theorem Selected.leads {fetch : Fetch} (h : stream.Selected fetch consumed) (hstate : stream.state = .streaming)
    {before : StreamState} (hbefore : before.isTerminal = false) :
    Leads before stream.offset stream.range (consumed ++ passed stream.range fetch.tasks)
      (stream.pollFetch fetch) := by
  have hpasses := passes_takeFragment stream.range fetch.tasks
  rw [pollFetch]
  generalize takeFragment stream.range fetch.tasks = found at hpasses
  cases hpasses with
  | ended all =>
    have hall := h.split
    rw [all] at hall
    exact ⟨.completed rfl rfl h.layout hall h.read_passed, .ended hbefore, Nat.le_refl _, rfl, rfl⟩
  | @pending rest split =>
    have hahead : ∀ chunk ∈ rest.map (·.chunk), stream.offset ≤ max stream.range.start chunk.offset := by
      intro chunk hchunk
      refine h.ahead chunk ?_
      rw [split, List.map_append]
      exact List.mem_append_right _ hchunk
    have hfits : Fits before .pending stream.state := hstate ▸ .pending hbefore
    exact ⟨.fetching hstate rfl (h.consume split _ hahead), hfits, Nat.le_refl _, rfl, rfl⟩
  | @fragment front rest chunk block last split =>
    obtain ⟨hordered, hstart⟩ := h.ordered
    have htasks : fetch.tasks = front ++ ⟨chunk, .done (.ok block)⟩ :: rest := by
      rw [split, last, List.append_assoc]
      rfl
    rw [htasks, List.map_append, List.map_cons] at hordered hstart
    have hmem : (⟨chunk, .done (.ok block)⟩ : FetchTask) ∈ fetch.tasks := by
      rw [htasks]
      exact List.mem_append_right _ List.mem_cons_self
    -- The fragment lies inside the chunk, and so before the chunks behind it.
    obtain ⟨other, hother, -, hoffset, hlength⟩ := h.sound _ hmem block rfl
    obtain rfl : block = other := Except.ok.inj (Progress.done.inj hother)
    replace hoffset : block.offset = chunk.offset := hoffset
    have hstop : block.stop = chunk.stop := by
      rw [Block.stop, Block.length, hoffset, hlength]
      rfl
    obtain ⟨hlow, hhigh⟩ := Block.clip_between (show stream.range.start < block.stop by
      rw [hstop]
      exact hstart chunk (List.mem_append_right _ List.mem_cons_self))
    have hlater : ∀ later ∈ rest.map (·.chunk), chunk.stop ≤ later.offset :=
      (List.pairwise_cons.mp (List.pairwise_append.mp hordered).2.1).1
    have hahead : ∀ later ∈ rest.map (·.chunk),
        (block.clip stream.range).stop ≤ max stream.range.start later.offset := by
      intro later hmember
      have := hlater later hmember
      omega
    have hoffsets : stream.offset ≤ (block.clip stream.range).stop := by
      have := h.ahead chunk (List.mem_map_of_mem hmem)
      rw [hoffset] at hlow
      omega
    have hfits : Fits before (.item (.ok (block.clip stream.range))) stream.state := hstate ▸ .fragment hbefore _
    exact ⟨.fetching hstate rfl (h.consume split _ hahead), hfits, hoffsets, rfl, rfl⟩
  | error => exact ⟨.stopped (.inl rfl) rfl, .error hbefore _, Nat.le_refl _, rfl, rfl⟩

/-- A stream that is opened fetches the chunks that its range selects, and the range is the one that was asked
for but for how far it runs. -/
theorem selected_of_opening {answer : Except ServiceError Manifest} {range : ByteRange} {fetch : Fetch}
    (h : stream.opening answer = .ok (range, fetch)) (hoffset : stream.offset = stream.range.start) :
    ({ stream.polling with range, layout := some fetch.file.layout } : FragmentStream).Selected fetch [] ∧
      passed range fetch.tasks = [] ∧ range.start = stream.range.start ∧ range.last = stream.range.last := by
  obtain ⟨file, chunks, hfile, hselected, rfl⟩ := opening_eq_ok h
  obtain ⟨hnormal, rfl⟩ := Layout.selectRange_eq_ok hselected
  have hkept := ByteRange.normalized_of_normalize hnormal
  have hchunks : (Fetch.start file (Layout.overlapping file.layout.chunks range) stream.limit).tasks.map (·.chunk) =
      Layout.overlapping file.layout.chunks range := by
    simp only [Fetch.start, List.map_map]
    exact List.map_id _
  refine ⟨⟨rfl, (ResolvedFile.complete_of_ofAnswer hfile).1, hchunks, by simp, ?_, ?_⟩, passed_start _ _ _ _,
    hkept.start_eq, hkept.last_eq⟩
  · intro task htask
    obtain ⟨chunk, -, rfl⟩ := List.mem_map.mp htask
    intro block hblock
    simp at hblock
  · intro chunk _
    show stream.offset ≤ max range.start chunk.offset
    rw [hoffset, hkept.start_eq]
    exact Nat.le_max_left _ _

/-- A poll leads from any stage to the next. -/
theorem Stage.leads (h : stream.Stage consumed) (answer : Option (Except ServiceError Manifest)) :
    Leads stream.state stream.offset stream.range (consumed ++ stream.taken) (stream.poll answer) := by
  by_cases hterminal : stream.state.isTerminal = true
  · rw [poll, if_pos hterminal, taken, h.released hterminal, List.append_nil]
    exact ⟨h, .past hterminal, Nat.le_refl _, rfl, rfl⟩
  · have hstate : stream.state.isTerminal = false := by simpa using hterminal
    rw [poll_eq hstate]
    cases h with
    | @fetching fetch state holding selected =>
      have hpolling : stream.polling.Selected fetch consumed :=
        ⟨selected.layout, selected.complete, selected.split, selected.read, selected.sound, selected.ahead⟩
      rw [taken, holding]
      exact hpolling.leads rfl hstate
    | unopened state holding offset nothing =>
      rw [taken, holding, nothing]
      cases answer with
      | none => exact ⟨.unopened (.inr rfl) holding offset rfl, .pending hstate, Nat.le_refl _, rfl, rfl⟩
      | some answer =>
        simp only
        cases hopening : stream.opening answer with
        | error error => exact ⟨.stopped (.inl rfl) rfl, .error hstate _, Nat.le_refl _, rfl, rfl⟩
        | ok opened =>
          obtain ⟨range, fetch⟩ := opened
          obtain ⟨hselected, hpassed, hstart, hlast⟩ := selected_of_opening hopening offset
          have hleads := hselected.leads rfl hstate
          rw [hpassed] at hleads
          exact ⟨hleads.stage, hleads.fits, hleads.offset_le, hleads.start_eq.trans hstart,
            hleads.last_eq.trans hlast⟩
    | completed state => simp [state, StreamState.isTerminal] at hstate
    | stopped state => rcases state with state | state <;> simp [state, StreamState.isTerminal] at hstate

end Stages

end FragmentStream

end Reassembly
