import Reassembly.Proofs.Blocks
import Reassembly.Proofs.LifeCycle
import Reassembly.Proofs.Placement
import Reassembly.Proofs.Retrieval.Crew
import Reassembly.Retrieval.Retriever

/-!
# Ends within a file

Every chunk of a file that is laid out ends within the file, and the size of the file is a word. A block that is read
has the place and the length of its chunk, and a fragment lies in its block, so they end within the file as well,
whatever a service brings and in whichever order the tasks and the polls take turns.
-/

namespace Reassembly

open Layout (ofManifest overlapping overlapping? Acceptable Refused Lays)

variable {size : Nat} {block : Block} {layout : Layout} {fileId : String} {manifest : Manifest}

/-- A block ends within a file of a size, and so does what any range leaves of it, and words are enough to reckon both:
none of the steps leaves the words or the data. -/
structure Block.Within (size : Nat) (block : Block) : Prop where
  stops : ∃ stop, block.stop? = some stop ∧ stop ≤ size
  clips : ∀ range, block.clip? range = some (block.clip range) ∧
    ∃ stop, (block.clip range).stop? = some stop ∧ stop ≤ size

/-- A block that stops within a file whose size is a word is within the file. -/
theorem Block.within_of_le (hsize : size < sizeBound) (h : block.stop ≤ size) : block.Within size where
  stops := ⟨_, stop?_of_lt (Nat.lt_of_le_of_lt h hsize), h⟩
  clips range := by
    have hclip := (block.stop_clip_le range).trans h
    exact ⟨clip?_of_lt (Nat.lt_of_le_of_lt h hsize) range, _, stop?_of_lt (Nat.lt_of_le_of_lt hclip hsize), hclip⟩

namespace Layout

/-- The chunks of a file end within it, and any range selects some of them, and words are enough to reckon this: none
of the steps leaves the words or the chunks. -/
structure Within (layout : Layout) : Prop where
  stops : ∀ chunk ∈ layout.chunks, ∃ stop, chunk.stop? = some stop ∧ stop ≤ layout.size
  selects : ∀ range, overlapping? layout.chunks range = some (overlapping layout.chunks range)

/-- The size of a file that is laid out is a word. -/
theorem size_lt_of_ofManifest (h : ofManifest fileId manifest = .ok layout) : layout.size < sizeBound := by
  have hfits := (exists_ofManifest_iff.mp ⟨layout, h⟩).fits
  rw [(lays_of_ofManifest h).size_eq, sizeBound]
  omega

/-- The chunks of a file that is laid out stop within it. -/
theorem stop_le_of_ofManifest (h : ofManifest fileId manifest = .ok layout) {chunk : Chunk}
    (hmem : chunk ∈ layout.chunks) : chunk.stop ≤ layout.size := by
  have hcomplete := complete_of_lay (lay_of_ofManifest h)
  exact hcomplete.stop_eq ▸ (hcomplete.endToEnd.between hmem).2

/-- A file that is laid out has its chunks within it. -/
theorem within_of_ofManifest (h : ofManifest fileId manifest = .ok layout) : layout.Within := by
  have hlt : ∀ chunk ∈ layout.chunks, chunk.stop < sizeBound := fun chunk hmem =>
    Nat.lt_of_le_of_lt (stop_le_of_ofManifest h hmem) (size_lt_of_ofManifest h)
  exact ⟨fun chunk hmem => ⟨_, Chunk.stop?_of_lt (hlt chunk hmem), stop_le_of_ofManifest h hmem⟩,
    overlapping?_of_lt hlt⟩

end Layout

/-- What is laid out for a file that is resolved is what its manifest lays out. -/
theorem ResolvedFile.manifest_of_ofAnswer {credentials : Credentials} {answer : Except ServiceError Manifest}
    {file : ResolvedFile} (h : ofAnswer fileId credentials answer = .ok file) :
    ∃ manifest, answer = .ok manifest ∧ ofManifest fileId manifest = .ok file.layout := by
  obtain ⟨manifest, hanswer, h⟩ := Result.bind_eq_ok_iff.mp h
  obtain ⟨layout, hlayout, h⟩ := Result.bind_eq_ok_iff.mp h
  obtain ⟨key, -, h⟩ := Result.bind_eq_ok_iff.mp h
  obtain rfl := Except.ok.inj h
  exact ⟨manifest, Result.mapError_eq_ok_iff.mp hanswer, hlayout⟩

namespace Fetch

variable {fetch after : Fetch} {file : ResolvedFile}

/-- The tasks of a fetch of a file are those of some of its chunks, and done with blocks of their chunks only. -/
structure Of (file : ResolvedFile) (fetch : Fetch) : Prop where
  file_eq : fetch.file = file
  chunks : ∀ chunk ∈ fetch.tasks.map (·.chunk), chunk ∈ file.layout.chunks
  sound : ∀ task ∈ fetch.tasks, task.Sound

/-- A fetch that starts on chunks of a file is a fetch of it. -/
theorem of_start {chunks : List Chunk} (h : ∀ chunk ∈ chunks, chunk ∈ file.layout.chunks) (limit : Nat) :
    (start file chunks limit).Of file := by
  refine ⟨rfl, ?_, ?_⟩
  · simpa [start] using h
  · intro task htask
    obtain ⟨chunk, -, rfl⟩ := List.mem_map.mp htask
    intro block hblock
    simp at hblock

/-- It stays one when its tasks advance. -/
theorem Advance.of {replies : Replies} (h : Advance replies fetch after) (hof : fetch.Of file) : after.Of file where
  file_eq := h.keeps.1.trans hof.file_eq
  chunks := h.chunks_eq ▸ hof.chunks
  sound := h.sound hof.sound

/-- It stays one when some of its tasks are left. -/
theorem Of.sublist (h : fetch.Of file) {tasks : List FetchTask} (hsub : tasks.Sublist fetch.tasks)
    (permits : Option Nat) : ({ fetch with permits, tasks } : Fetch).Of file where
  file_eq := h.file_eq
  chunks := fun chunk hchunk => h.chunks chunk ((hsub.map _).subset hchunk)
  sound := fun task htask => h.sound task (hsub.subset htask)

/-- A block that a task is done with stops within the file. -/
theorem Of.stop_le (h : fetch.Of file) (hlaid : ofManifest fileId manifest = .ok file.layout) {task : FetchTask}
    (hmem : task ∈ fetch.tasks) (hdone : task.progress = .done (.ok block)) : block.stop ≤ file.layout.size := by
  obtain ⟨other, hother, -, hoffset, hlength⟩ := h.sound task hmem block hdone
  obtain rfl : block = other := Except.ok.inj (Progress.done.inj (hdone.symm.trans hother))
  have hstop : block.stop = task.chunk.stop := by
    rw [Block.stop, Block.length, hoffset, hlength]
    rfl
  exact hstop ▸ Layout.stop_le_of_ofManifest hlaid (h.chunks _ (List.mem_map_of_mem hmem))

/-- So does the block that is taken next. -/
theorem Of.stop_le_next (h : fetch.Of file) (hlaid : ofManifest fileId manifest = .ok file.layout)
    (hnext : fetch.next.1 = .item (.ok block)) : block.stop ≤ file.layout.size := by
  rw [next] at hnext
  split at hnext
  · simp at hnext
  · next result rest htasks =>
    exact h.stop_le hlaid (htasks ▸ List.mem_cons_self) (congrArg Progress.done (Poll.item.inj hnext))
  · simp at hnext

end Fetch

namespace Crew

variable {σ : Type} {crew : Crew σ} {file : ResolvedFile}

/-- Whatever happens to a crew, its fetch stays one of its file. -/
theorem of_perform (service : Service σ) (h : crew.fetch.Of file) (event : CrewEvent) :
    (crew.perform service event).fetch.Of file := by
  cases event with
  | task step =>
    show (crew.fetch.workWith service step crew.backend).1.Of file
    rcases (Fetch.works_workWith service step crew.fetch crew.backend).advances with hsame | ⟨replies, hadvance⟩
    · rw [hsame]
      exact h
    · exact hadvance.of h
  | straggle step =>
    have hfile := (Fetch.works_workWith service step crew.turned.fetch crew.backend).keeps.1
    exact ⟨hfile.trans h.file_eq, h.chunks, h.sound⟩
  | take =>
    rw [perform, Fetch.next]
    split
    · exact h
    · next htasks => exact h.sublist (htasks ▸ List.sublist_cons_self _ _) crew.fetch.permits
    · exact h
  | cancel => exact h.sublist (List.nil_sublist _) crew.fetch.permits
  | drop i =>
    rw [perform, drop]
    split
    · exact h.sublist (List.Sublist.refl _) _
    · exact h

/-- So it does throughout. -/
theorem of_run (service : Service σ) (h : crew.fetch.Of file) (events : List CrewEvent) :
    (crew.run service events).fetch.Of file :=
  Schedule.foldl_induction (motive := fun crew : Crew σ => crew.fetch.Of file)
    (fun _ event hof => of_perform service hof event) events h

end Crew

namespace FragmentStream

variable {stream : FragmentStream} {consumed : List FetchTask} {fetch : Fetch}

/-- A stream knows its file, and a block stops within it. -/
def Bounds (stream : FragmentStream) (block : Block) : Prop :=
  ∃ layout, stream.layout = some layout ∧ block.stop ≤ layout.size

/-- What a stream knows of its file: nothing before it is opened, and then what a manifest lays out. -/
structure Informed (stream : FragmentStream) : Prop where
  unopened : stream.holding = .unopened → stream.layout = none
  laid : ∀ layout, stream.layout = some layout → ∃ manifest, ofManifest stream.fileId manifest = .ok layout

/-- What a stream learns of its file by a poll: it knows what it knew, and what is taken of the file stops within
it. -/
structure Learns (stream : FragmentStream) (found : Poll Block × FragmentStream) : Prop where
  fileId_eq : found.2.fileId = stream.fileId
  informed : found.2.Informed
  layout_eq : ∀ layout, stream.layout = some layout → found.2.layout = some layout
  blocks : ∀ task ∈ stream.taken, ∀ block, task.progress = .done (.ok block) → found.2.Bounds block
  fragment : ∀ fragment, found.1 = .item (.ok fragment) → found.2.Bounds fragment

/-- What a stream is fetching is a fetch of its file. -/
theorem Selected.of (h : stream.Selected fetch consumed) : fetch.Of fetch.file where
  file_eq := rfl
  chunks := by
    intro chunk hchunk
    have hsplit : chunk ∈ (consumed ++ fetch.tasks).map (·.chunk) := by
      rw [List.map_append]
      exact List.mem_append_right _ hchunk
    rw [h.split] at hsplit
    exact Layout.mem_of_mem_overlapping hsplit
  sound := h.sound

/-- To take a fragment does not touch what a stream knows of its file. -/
theorem pollFetch_keeps (stream : FragmentStream) (fetch : Fetch) :
    (stream.pollFetch fetch).2.fileId = stream.fileId ∧ (stream.pollFetch fetch).2.layout = stream.layout ∧
      (stream.pollFetch fetch).2.holding ≠ .unopened := by
  rw [pollFetch]
  rcases takeFragment stream.range fetch.tasks with ⟨_ | _ | ⟨_ | _⟩, tasks⟩ <;>
    exact ⟨rfl, rfl, by simp [finish, fail]⟩

/-- A fragment that is taken is what the range leaves of a block. -/
theorem exists_block_of_pollFetch {fragment : Block} (h : (stream.pollFetch fetch).1 = .item (.ok fragment)) :
    ∃ task ∈ fetch.tasks, ∃ block, task.progress = .done (.ok block) ∧ fragment = block.clip stream.range := by
  have hpasses := passes_takeFragment stream.range fetch.tasks
  rw [pollFetch] at h
  generalize takeFragment stream.range fetch.tasks = found at hpasses h
  cases hpasses with
  | ended | pending | error => simp [fail] at h
  | @fragment front rest chunk block last split =>
    have hmem : (⟨chunk, .done (.ok block)⟩ : FetchTask) ∈ passed stream.range fetch.tasks := by
      rw [last]
      exact List.mem_append_right _ List.mem_cons_self
    exact ⟨_, (mem_of_mem_passed hmem).1, block, rfl, by simpa using h.symm⟩

/-- A stream that is fetching learns nothing by a poll, and what is taken stops within its file. -/
theorem Selected.learns (h : stream.Selected fetch consumed)
    (hlaid : ofManifest stream.fileId manifest = .ok fetch.file.layout) :
    (stream.pollFetch fetch).2.Informed ∧
      (∀ task ∈ fetch.tasks, ∀ block, task.progress = .done (.ok block) →
        (stream.pollFetch fetch).2.Bounds block) ∧
      ∀ fragment, (stream.pollFetch fetch).1 = .item (.ok fragment) → (stream.pollFetch fetch).2.Bounds fragment := by
  obtain ⟨hfile, hlayout, hholding⟩ := stream.pollFetch_keeps fetch
  have hknown : (stream.pollFetch fetch).2.layout = some fetch.file.layout := hlayout.trans h.layout
  refine ⟨⟨fun hunopened => absurd hunopened hholding, fun layout hsome => ?_⟩,
    fun task htask block hdone => ⟨_, hknown, h.of.stop_le hlaid htask hdone⟩, fun fragment hfragment => ?_⟩
  · obtain rfl : fetch.file.layout = layout := Option.some.inj (hknown.symm.trans hsome)
    exact ⟨manifest, hfile ▸ hlaid⟩
  · obtain ⟨task, htask, block, hdone, rfl⟩ := exists_block_of_pollFetch hfragment
    exact ⟨_, hknown, (block.stop_clip_le stream.range).trans (h.of.stop_le hlaid htask hdone)⟩

/-- A stream that learns nothing and takes nothing by a poll. -/
theorem Informed.learns_nothing (h : stream.Informed) {found : Poll Block × FragmentStream}
    (hfile : found.2.fileId = stream.fileId) (hlayout : found.2.layout = stream.layout)
    (hholding : found.2.holding = .unopened → stream.holding = .unopened) (htaken : stream.taken = [])
    (hnone : ∀ fragment, found.1 ≠ .item (.ok fragment)) : stream.Learns found where
  fileId_eq := hfile
  informed := ⟨fun hunopened => hlayout ▸ h.unopened (hholding hunopened), fun layout hsome =>
    hfile ▸ h.laid layout (hlayout ▸ hsome)⟩
  layout_eq _ hsome := hlayout ▸ hsome
  blocks := by simp [htaken]
  fragment fragment hfragment := absurd hfragment (hnone fragment)

/-- Whatever a poll finds, what it takes stops within the file of the stream. -/
theorem Informed.learns (h : stream.Informed) (hstage : stream.Stage consumed)
    (answer : Option (Except ServiceError Manifest)) : stream.Learns (stream.poll answer) := by
  by_cases hterminal : stream.state.isTerminal = true
  · rw [poll, if_pos hterminal]
    exact h.learns_nothing rfl rfl id (by rw [taken, hstage.released hterminal]) (by simp)
  have hstate : stream.state.isTerminal = false := by simpa using hterminal
  rw [poll_eq hstate]
  -- Something is taken in two stages only: while chunks are fetched, and when the file is opened and fetching begins.
  cases hstage with
  | @fetching fetch state holding selected =>
    obtain ⟨manifest, hlaid⟩ := h.laid _ selected.layout
    have hpolling : stream.polling.Selected fetch consumed :=
      ⟨selected.layout, selected.complete, selected.split, selected.read, selected.sound, selected.ahead⟩
    obtain ⟨hfile, hlayout, -⟩ := stream.polling.pollFetch_keeps fetch
    obtain ⟨hinformed, hblocks, hfragment⟩ := hpolling.learns hlaid
    simp only [holding]
    refine ⟨hfile, hinformed, fun layout hsome => hlayout.trans hsome, fun task htask => ?_, hfragment⟩
    rw [taken, holding] at htask
    exact hblocks task (mem_of_mem_passed htask).1
  | unopened state holding offset nothing =>
    have htaken : stream.taken = [] := by rw [taken, holding]
    simp only [holding]
    cases answer with
    | none => exact h.learns_nothing rfl rfl (fun _ => holding) htaken (by simp)
    | some answer =>
      simp only
      cases hopening : stream.opening answer with
      | error error => exact h.learns_nothing rfl rfl (by simp [fail, finish]) htaken (by simp [fail])
      | ok opened =>
        obtain ⟨range, fetch⟩ := opened
        obtain ⟨hselected, -⟩ := selected_of_opening hopening offset
        obtain ⟨file, chunks, hfile, -, rfl⟩ := opening_eq_ok hopening
        obtain ⟨manifest, -, hlaid⟩ := ResolvedFile.manifest_of_ofAnswer hfile
        obtain ⟨hinformed, -, hfragment⟩ := hselected.learns hlaid
        refine ⟨(pollFetch_keeps _ _).1, hinformed, ?_, by simp [htaken], hfragment⟩
        simp [h.unopened holding]
  | completed state => simp [state, StreamState.isTerminal] at hstate
  | stopped state => rcases state with state | state <;> simp [state, StreamState.isTerminal] at hstate

end FragmentStream

namespace Life

open FragmentStream

variable {σ : Type} {life : Life σ}

/-- What has been taken of the file of a stream stops within it, blocks and fragments alike. -/
structure Bounded (fileId : String) (life : Life σ) : Prop where
  stage : life.stream.Stage life.consumed
  informed : life.stream.Informed
  fileId_eq : life.stream.fileId = fileId
  blocks : ∀ task ∈ life.consumed, ∀ block, task.progress = .done (.ok block) → life.stream.Bounds block
  fragments : ∀ fragment, .item (.ok fragment) ∈ life.found → life.stream.Bounds fragment

/-- Bounds carry over to a stream that still knows its file. -/
theorem Bounded.carry {after : Life σ} (h : life.Bounded fileId) (hstage : after.stream.Stage after.consumed)
    (hinformed : after.stream.Informed) (hfile : after.stream.fileId = life.stream.fileId)
    (hlayout : after.stream.layout = life.stream.layout) (hconsumed : after.consumed = life.consumed)
    (hfound : after.found = life.found) : after.Bounded fileId := by
  have hbounds : ∀ block, life.stream.Bounds block → after.stream.Bounds block :=
    fun block ⟨layout, hsome, hle⟩ => ⟨layout, hlayout.trans hsome, hle⟩
  exact ⟨hstage, hinformed, hfile.trans h.fileId_eq,
    fun task htask block hdone => hbounds block (h.blocks task (hconsumed ▸ htask) block hdone),
    fun fragment hmem => hbounds fragment (h.fragments fragment (hfound ▸ hmem))⟩

/-- Before anything happens, nothing has been taken. -/
theorem bounded_start (fileId : String) (credentials : Credentials) (range : ByteRange) (limit : Nat) (backend : σ) :
    (start fileId credentials range limit backend).Bounded fileId where
  stage := .unopened (.inl rfl) rfl rfl rfl
  informed := ⟨fun _ => rfl, by simp [start, ofRange]⟩
  fileId_eq := rfl
  blocks := by simp [start]
  fragments := by simp [start]

/-- Whatever happens, what is taken stops within the file. -/
theorem Bounded.perform (service : Service σ) (h : life.Bounded fileId) (event : LifeEvent) :
    (life.perform service event).Bounded fileId := by
  cases event with
  | task step =>
    rcases perform_task service life step h.stage with hsame | ⟨fetch, backend, -, hafter, hstage⟩
    · rw [hsame]
      exact h
    · rw [hafter]
      exact h.carry hstage ⟨by simp, h.informed.laid⟩ rfl rfl rfl rfl
  | poll answered =>
    obtain ⟨answer, known, asked, -, hpoll⟩ := perform_poll service life answered
    have hleads := h.stage.leads answer
    have hlearns := h.informed.learns h.stage answer
    rw [hpoll]
    -- What was taken before stays within the file, because a stream does not forget what it knows of it.
    have hbounds : ∀ block, life.stream.Bounds block → (life.stream.poll answer).2.Bounds block := by
      rintro block ⟨layout, hsome, hle⟩
      exact ⟨layout, hlearns.layout_eq layout hsome, hle⟩
    refine ⟨hleads.stage, hlearns.informed, hlearns.fileId_eq.trans h.fileId_eq, ?_, ?_⟩
    · intro task htask block hdone
      rcases List.mem_append.mp htask with hbefore | htaken
      · exact hbounds block (h.blocks task hbefore block hdone)
      · exact hlearns.blocks task htaken block hdone
    · intro fragment hmem
      rcases List.mem_append.mp hmem with hbefore | hnew
      · exact hbounds fragment (h.fragments fragment hbefore)
      · exact hlearns.fragment fragment (List.mem_singleton.mp hnew).symm
  | cancel =>
    rw [perform_cancel]
    have hstage := h.stage.cancel.1
    by_cases hterminal : life.stream.state.isTerminal = true
    · rw [cancel_of_terminal hterminal] at hstage ⊢
      exact h.carry hstage h.informed rfl rfl rfl rfl
    · rw [cancel_of_live (by simpa using hterminal)] at hstage ⊢
      exact h.carry hstage ⟨by simp [finish], h.informed.laid⟩ rfl rfl rfl rfl

/-- So it is throughout the life of a stream. -/
theorem Bounded.run (service : Service σ) (h : life.Bounded fileId) (events : List LifeEvent) :
    (life.run service events).Bounded fileId :=
  Schedule.foldl_induction (motive := Bounded fileId) (fun _ event hlater => hlater.perform service event) events h

/-- What has been taken is within the file that a manifest lays out. -/
theorem Bounded.within (h : life.Bounded fileId) (hbounds : life.stream.Bounds block) :
    ∃ manifest layout, life.stream.layout = some layout ∧ ofManifest fileId manifest = .ok layout ∧
      block.Within layout.size := by
  obtain ⟨layout, hsome, hle⟩ := hbounds
  obtain ⟨manifest, hlaid⟩ := h.informed.laid layout hsome
  rw [h.fileId_eq] at hlaid
  exact ⟨manifest, layout, hsome, hlaid, Block.within_of_le (Layout.size_lt_of_ofManifest hlaid) hle⟩

end Life

/-- Numbers select chunks of the file only. -/
theorem Layout.mem_of_selectNumbers {numbers : Option (List Nat)} {chunks : List Chunk}
    (h : layout.selectNumbers numbers = .ok chunks) {chunk : Chunk} (hmem : chunk ∈ chunks) :
    chunk ∈ layout.chunks := by
  rw [selectNumbers_eq, Result.mapM_eq_ok_iff] at h
  obtain ⟨i, hi, rfl⟩ := List.mem_iff_getElem.mp hmem
  have hchunk := chunk_eq_ok_iff.mp (h.get (h.length_eq ▸ hi) hi)
  rw [chunk?.eq_def] at hchunk
  split at hchunk
  · simp at hchunk
  · exact List.mem_of_getElem? hchunk

namespace Retriever

variable {σ : Type} {service : Service σ} {retriever : Retriever} {backend after : σ} {fetch : Fetch}

/-- A retrieval of blocks begins to fetch chunks of the file that the manifest of the service lays out. -/
theorem blocks_eq_ok {numbers : Option (List Nat)}
    (h : retriever.blocks service fileId numbers backend = (.ok fetch, after)) :
    fetch.Of fetch.file ∧ ∃ manifest, (service.lookup fileId backend).1 = .ok manifest ∧
      ofManifest fileId manifest = .ok fetch.file.layout := by
  cases hactive : retriever.isShutDown with
  | true =>
    have hresolve : retriever.resolve service fileId = pure (.error .shutDown) := by
      rw [resolve, hactive]
      rfl
    rw [blocks, hresolve, pure_bind] at h
    have hok : Except.error RetrievalError.shutDown = Except.ok fetch := (Prod.ext_iff.mp h).1
    cases hok
  | false =>
    rw [blocks_run service hactive] at h
    obtain ⟨file, hfile, hselect⟩ := Result.bind_eq_ok_iff.mp (Prod.ext_iff.mp h).1
    obtain ⟨chunks, hchunks, rfl⟩ := Result.map_eq_ok_iff.mp hselect
    exact ⟨Fetch.of_start (fun chunk hmem => Layout.mem_of_selectNumbers hchunks hmem) _,
      ResolvedFile.manifest_of_ofAnswer hfile⟩

end Retriever

/-- What a manifest lays out, and what is reckoned with it.

A manifest is laid out when it has chunks, names a compression, has a key if the file is encrypted, and all its chunks
have locations and are together no longer than the largest word; otherwise it is refused for the first of these that it
misses, and of the chunks for the first that cannot be placed. Laid out, the chunks stand in the order of the manifest,
each behind those before it, and all of them end within the file.

Whatever a service brings, in whichever order tasks make steps and polls and cancellations come: every block that a
retrieval finds, every block that a stream takes and every fragment that it yields ends within its file. The ends of
all these are words, and no range that is laid over chunks or blocks takes what is not there. -/
theorem manifest_layout_within {σ : Type} (service : Service σ) (backend : σ) (retriever : Retriever)
    (fileId : String) (manifest : Manifest) :
    ((∃ layout, ofManifest fileId manifest = .ok layout) ↔ Acceptable manifest) ∧
    (∀ error, ofManifest fileId manifest = .error error ↔
      ∃ fault, Refused manifest fault ∧ fault.error fileId = error) ∧
    (∀ layout, ofManifest fileId manifest = .ok layout → Lays fileId manifest layout ∧ layout.Within) ∧
    (∀ numbers fetch after, retriever.blocks service fileId numbers backend = (.ok fetch, after) →
      (∃ answer, (service.lookup fileId backend).1 = .ok answer ∧ ofManifest fileId answer = .ok fetch.file.layout) ∧
      ∀ events block, (Crew.run service ⟨fetch, [], after⟩ events).fetch.next.1 = .item (.ok block) →
        block.Within fetch.file.layout.size) ∧
    ∀ credentials range limit events,
      let life := (Life.start fileId credentials range limit backend).run service events
      ∀ block, (.item (.ok block) ∈ life.found ∨ ∃ task ∈ life.consumed, task.progress = .done (.ok block)) →
        ∃ answer layout, life.stream.layout = some layout ∧ ofManifest fileId answer = .ok layout ∧
          block.Within layout.size := by
  refine ⟨Layout.exists_ofManifest_iff, fun error => Layout.ofManifest_eq_error_iff,
    fun layout h => ⟨Layout.lays_of_ofManifest h, Layout.within_of_ofManifest h⟩, ?_, ?_⟩
  · intro numbers fetch after hblocks
    obtain ⟨hof, manifest, hlookup, hlaid⟩ := Retriever.blocks_eq_ok hblocks
    refine ⟨⟨manifest, hlookup, hlaid⟩, fun events block hnext => ?_⟩
    have hrun : (Crew.run service ⟨fetch, [], after⟩ events).fetch.Of fetch.file := Crew.of_run service hof events
    exact Block.within_of_le (Layout.size_lt_of_ofManifest hlaid) (hrun.stop_le_next hlaid hnext)
  · intro credentials range limit events life block htaken
    have hbounded : life.Bounded fileId :=
      (Life.bounded_start fileId credentials range limit backend).run service events
    refine hbounded.within ?_
    rcases htaken with hfound | ⟨task, htask, hdone⟩
    · exact hbounded.fragments block hfound
    · exact hbounded.blocks task htask block hdone

/-- The stream over all but the first byte of the file, polled until it yields a fragment. -/
def Life.trailing : Life Unit :=
  Life.run Service.sample (.start "f" (.bearer "t") (.starting 1) 1 ())
    [.poll true, .task (.request 0 0), .task (.deliver 0), .task (.decode 0), .poll true]

/-- The file of three chunks is laid out, the block of its first chunk is within it, and so is the fragment of the
chunk's second byte. -/
theorem manifest_layout_within_sample :
    Acceptable .sample ∧ Lays "f" .sample ResolvedFile.sample.layout ∧ Block.Within 5 ⟨"f", 1, 0, [7, 7]⟩ ∧
      Block.Within 5 ⟨"f", 1, 1, [7]⟩ := by
  obtain ⟨hacceptable, -, hlays, hblocks, hstream⟩ :=
    manifest_layout_within Service.sample () Retriever.sample "f" .sample
  have hlaid : ofManifest "f" .sample = .ok ResolvedFile.sample.layout := by with_unfolding_all rfl
  refine ⟨hacceptable.mp ⟨_, hlaid⟩, (hlays _ hlaid).1, ?_, ?_⟩
  · have hbegun : Retriever.sample.blocks Service.sample "f" none () =
        (.ok (Fetch.start .sample ResolvedFile.sample.layout.chunks Retriever.sample.limits.blockLimit), ()) := by
      with_unfolding_all rfl
    exact (hblocks none _ _ hbegun).2 [.task (.request 0 0), .task (.deliver 0), .task (.decode 0)] _ rfl
  · have hfound : Life.trailing.found = [.pending, .item (.ok ⟨"f", 1, 1, [7]⟩)] := by with_unfolding_all rfl
    have hlayout : Life.trailing.stream.layout = some ResolvedFile.sample.layout := by with_unfolding_all rfl
    have hmem : .item (.ok ⟨"f", 1, 1, [7]⟩) ∈ Life.trailing.found := by
      rw [hfound]
      exact .tail _ (.head _)
    obtain ⟨-, layout, hsome, -, hwithin⟩ := hstream (.bearer "t") (.starting 1) 1 _ _ (.inl hmem)
    obtain rfl : ResolvedFile.sample.layout = layout := Option.some.inj (hlayout.symm.trans hsome)
    exact hwithin

end Reassembly
