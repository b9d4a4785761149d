import Mathlib.Data.List.TakeWhile
import Reassembly.Proofs.Retrieval.Content
import Reassembly.Proofs.Retrieval.StreamProgress

/-!
# What reading a range yields

The items of a stream are settled by its range and by what its chunks come to. While chunks succeed,
their fragments cover the range as far as it has been read; the first chunk that fails turns into the
last item, at the offset where the cover stops. Chunks behind it do not count, and neither does the order
in which anything happens.
-/

namespace Reassembly

namespace FragmentStream

/-- However a stream is polled and its tasks take turns, it yields the same items: its polls show them up
to what it owes, it can only stop when it has ended, which it does in the given state with all of them
yielded, and it cannot go on for ever. -/
structure Yields (supply : Supply) (stream : FragmentStream)
    (items : List (Except RetrievalError Block)) (last : StreamState) : Prop where
  shows : ∀ events, Shows items (stream.polls supply events) ((stream.run supply events).owed supply)
  failed : ∀ events, (∃ error, .error error ∈ yielded (stream.polls supply events)) →
    (stream.run supply events).state = .failed
  ended : ∀ events, (stream.run supply events).state.isTerminal = true →
    (stream.run supply events).state = last ∧ yielded (stream.polls supply events) = items
  quiet : ∀ events, Schedule.Quiet (step supply) (stream.run supply events) →
    (stream.run supply events).state.isTerminal = true
  busy : ∀ events, Schedule.Busy (step supply) stream events → events.length ≤ stream.weight supply

variable {supply : Supply} {stream : FragmentStream} {fragments : List Block}
  {items : List (Except RetrievalError Block)}

/-- A stream yields what it owes, and ends completed or failed as this has no error or one. -/
theorem yields_owed {last : StreamState} (hstate : stream.state.isTerminal = false) (hlive : stream.Live)
    (howed : stream.owed supply = items)
    (hlast : last = .completed ∧ (∀ error, .error error ∉ items) ∨
      last = .failed ∧ ∃ error, .error error ∈ items) :
    Yields supply stream items last := by
  have hshows : ∀ events, Shows items (stream.polls supply events) ((stream.run supply events).owed supply) :=
    fun events => howed ▸ shows_polls supply stream events
  refine ⟨hshows, fun events => (state_run supply hstate events).1, ?_, ?_, ?_⟩
  · intro events hterminal
    have hall : yielded (stream.polls supply events) = items := by
      have happend := (hshows events).yielded_append
      rw [owed_of_terminal hterminal, List.append_nil] at happend
      exact happend
    refine ⟨?_, hall⟩
    obtain ⟨hfailed, hcompleted⟩ := state_run supply hstate events
    rw [hall] at hfailed hcompleted
    rcases hlast with ⟨rfl, hnone⟩ | ⟨rfl, hsome⟩
    · rcases hcompleted hterminal with hdone | ⟨error, herror⟩
      · exact hdone
      · exact absurd herror (hnone error)
    · exact hfailed hsome
  · intro events hquiet
    exact terminal_of_quiet (Schedule.foldl_induction (live_step supply) events hlive) hquiet
  · intro events hbusy
    exact hbusy.length_le (weight supply) Live (live_step supply) (weight_step supply) hlive

/-- The items of blocks come before those of other results, and leave the offset where the last of their
fragments stops. -/
theorem items_append (range : ByteRange) (offset : Nat) (blocks : List Block)
    (more : List (Except RetrievalError Block)) :
    FragmentStream.items range offset (blocks.map .ok ++ more) =
      (Block.fragments range blocks).map .ok ++ FragmentStream.items range
        ((Block.fragments range blocks).foldl (fun _ fragment => fragment.stop) offset) more := by
  induction blocks generalizing offset with
  | nil => rfl
  | cons block rest ih =>
    rw [List.map_cons, List.cons_append, FragmentStream.items, Block.fragments, List.map_cons]
    by_cases hempty : (block.clip range).isEmpty = true
    · rw [if_pos hempty, ih, List.filter_cons_of_neg (by simp [hempty])]
      rfl
    · rw [if_neg hempty, ih, List.filter_cons_of_pos (by simpa using hempty)]
      rfl

end FragmentStream

namespace Layout

/-- What a range selects is among the chunks of the file. -/
theorem mem_of_mem_overlapping {chunks : List Chunk} {range : ByteRange} {chunk : Chunk}
    (h : chunk ∈ overlapping chunks range) : chunk ∈ chunks := by
  rw [overlapping_eq] at h
  exact (reached_isPrefix chunks range).subset ((List.dropWhile_suffix _).subset h)

/-- What it takes to select the chunks of a range. -/
theorem selectRange_eq_ok {layout : Layout} {range normalized : ByteRange} {selected : List Chunk}
    (h : layout.selectRange range = .ok (normalized, selected)) :
    range.normalize layout.fileId layout.size = .ok normalized ∧
      selected = overlapping layout.chunks normalized := by
  obtain ⟨found, hfound, h⟩ := Result.bind_eq_ok_iff.mp h
  obtain ⟨rfl, rfl⟩ : found = normalized ∧ overlapping layout.chunks found = selected := by simpa using h
  exact ⟨hfound, rfl⟩

/-- A range that starts within the file selects the chunks that it overlaps once it is normalized. -/
theorem exists_selectRange {layout : Layout} {range : ByteRange} (hstart : range.start ≤ layout.size) :
    ∃ normalized,
      layout.selectRange range = .ok (normalized, overlapping layout.chunks normalized) := by
  obtain ⟨normalized, hnormal⟩ := ByteRange.exists_normalize layout.fileId hstart
  refine ⟨normalized, ?_⟩
  rw [selectRange, hnormal]
  rfl

/-- The whole of a file selects its chunks from the first that is not empty on. -/
theorem selectRange_full (layout : Layout) :
    layout.selectRange .full = .ok (.full, layout.chunks.dropWhile fun chunk => chunk.stop ≤ 0) := by
  have hstart : ¬ layout.size < ByteRange.full.start := Nat.not_lt_zero _
  rw [selectRange, ByteRange.normalize, if_neg hstart]
  rfl

/-- The whole of a file selects no chunk if the file is empty. -/
theorem Complete.dropWhile_eq_nil_iff {layout : Layout} (h : layout.Complete) :
    (layout.chunks.dropWhile fun chunk => chunk.stop ≤ 0) = [] ↔ layout.size = 0 := by
  simp only [List.dropWhile_eq_nil_iff, decide_eq_true_eq]
  constructor
  · intro hstops
    have hstop := stopOf_le (Nat.le_refl 0) hstops
    rw [h.stop_eq] at hstop
    exact Nat.eq_zero_of_le_zero hstop
  · intro hsize chunk hchunk
    rw [← hsize, ← h.stop_eq]
    exact (h.endToEnd.between hchunk).2

end Layout

section Reading

variable {fileId : String} {credentials : Credentials} {manifest : Manifest} {file : ResolvedFile}
  {range normalized : ByteRange} {limit : Nat} {replies : Replies}

/-- The stream over a range of a file, before it is polled. -/
def FragmentStream.ofRange (fileId : String) (credentials : Credentials) (range : ByteRange) (limit : Nat) :
    FragmentStream :=
  { fileId, credentials, range, limit }

/-- A stream owes the items of the outcomes of the selected chunks. -/
theorem FragmentStream.owed_ofRange (hfile : ResolvedFile.ofAnswer fileId credentials (.ok manifest) = .ok file)
    {selected : List Chunk} (hselected : file.layout.selectRange range = .ok (normalized, selected))
    (replies : Replies) (limit : Nat) :
    (ofRange fileId credentials range limit).owed ⟨.ok manifest, replies⟩ =
      items normalized range.start
        (selected.map fun chunk => FetchTask.outcome file chunk (replies chunk)) := by
  have hopening : (ofRange fileId credentials range limit).opening (.ok manifest) =
      .ok (normalized, Fetch.start file selected limit) := by
    rw [opening, ofRange, hfile, Result.ok_bind, hselected]
    rfl
  rw [owed_of_unopened rfl rfl, hopening]
  exact congrArg _ (Fetch.fates_start replies file selected limit)

/-- Chunks that can be read come to their blocks of the content. -/
theorem ResolvedFile.outcomes_eq_blocks (h : file.layout.Complete) {chunks : List Chunk}
    (hmem : ∀ chunk ∈ chunks, chunk ∈ file.layout.chunks)
    (houtcome : ∀ chunk ∈ chunks, ∃ block, FetchTask.outcome file chunk (replies chunk) = .ok block) :
    chunks.map (fun chunk => FetchTask.outcome file chunk (replies chunk)) =
      (chunks.map fun chunk => chunk.block file.layout.fileId (file.content replies)).map .ok := by
  rw [List.map_map]
  refine List.map_congr_left fun chunk hchunk => ?_
  obtain ⟨block, hblock⟩ := houtcome chunk hchunk
  rw [hblock, block_of_outcome h (hmem chunk hchunk) hblock]
  rfl

namespace FragmentStream

/-- When the selected chunks can be read, a stream yields fragments that cover its range. -/
theorem owed_covering (hfile : ResolvedFile.ofAnswer fileId credentials (.ok manifest) = .ok file)
    (hstart : range.start ≤ file.layout.size)
    (houtcome : ∀ chunk ∈ file.layout.chunks, ∃ block,
      FetchTask.outcome file chunk (replies chunk) = .ok block) :
    ∃ fragments, Cover (file.content replies) 0 range.start (range.stop file.layout.size) fragments ∧
      (∀ fragment ∈ fragments, ∃ chunk ∈ file.layout.chunks,
        chunk.number = fragment.number ∧ chunk.length ≠ 0) ∧
      ∀ limit, (ofRange fileId credentials range limit).owed ⟨.ok manifest, replies⟩ = fragments.map .ok := by
  obtain ⟨hcomplete, hid⟩ := ResolvedFile.complete_of_ofAnswer hfile
  obtain ⟨normalized, hselected⟩ := Layout.exists_selectRange hstart
  have hkept := ByteRange.normalized_of_normalize (Layout.selectRange_eq_ok hselected).1
  have hcover := hcomplete.cover_overlapping fileId (ResolvedFile.length_content hcomplete replies)
    (by rw [hkept.start_eq]; exact hstart) hkept.bound_lt
  rw [hkept.start_eq, hkept.stop_eq] at hcover
  refine ⟨_, hcover, fun fragment hfragment => ?_, fun limit => ?_⟩
  · obtain ⟨chunk, hchunk, hsome⟩ := Chunk.exists_of_mem_fragments hfragment
    exact ⟨chunk, Layout.mem_of_mem_overlapping hchunk, hsome⟩
  rw [owed_ofRange hfile hselected, ResolvedFile.outcomes_eq_blocks hcomplete
    (fun _ => Layout.mem_of_mem_overlapping)
    (fun chunk hchunk => houtcome chunk (Layout.mem_of_mem_overlapping hchunk)), hid]
  have happend := items_append normalized range.start
    ((Layout.overlapping file.layout.chunks normalized).map (·.block fileId (file.content replies))) []
  rw [List.append_nil, items, List.append_nil] at happend
  exact happend

/-- When a selected chunk is the first that cannot be read, a stream yields fragments that cover its
range up to that chunk, and then the chunk's error at the offset where they stop. Replies that come to the
same outcomes up to that chunk do not change this. -/
theorem owed_failing (hfile : ResolvedFile.ofAnswer fileId credentials (.ok manifest) = .ok file)
    {before after : List Chunk} {chunk : Chunk} {blocks : List Block} {error : RetrievalError}
    (hselected : file.layout.selectRange range = .ok (normalized, before ++ chunk :: after))
    (hbefore : List.Forall₂ (fun other block => FetchTask.outcome file other (replies other) = .ok block)
      before blocks)
    (hfails : FetchTask.outcome file chunk (replies chunk) = .error error) :
    Cover (file.content replies) 0 range.start (max range.start chunk.offset)
        (Block.fragments normalized blocks) ∧
      ∀ (others : Replies) (limit : Nat), (∀ other ∈ before ++ [chunk],
        FetchTask.outcome file other (others other) = FetchTask.outcome file other (replies other)) →
          (ofRange fileId credentials range limit).owed ⟨.ok manifest, others⟩ =
            (Block.fragments normalized blocks).map .ok ++
              [.error (.stream (max range.start chunk.offset) error)] := by
  obtain ⟨hcomplete, hid⟩ := ResolvedFile.complete_of_ofAnswer hfile
  obtain ⟨hnormal, hoverlapping⟩ := Layout.selectRange_eq_ok hselected
  have hkept := ByteRange.normalized_of_normalize hnormal
  have houtcomes : before.map (fun other => FetchTask.outcome file other (replies other)) =
      blocks.map .ok := by
    rw [← List.forall₂_eq_eq_eq, List.forall₂_map_left_iff, List.forall₂_map_right_iff]
    exact hbefore
  have hblocks : blocks = before.map (·.block fileId (file.content replies)) := by
    have hmem : ∀ other ∈ before, other ∈ file.layout.chunks := fun other hother =>
      Layout.mem_of_mem_overlapping (hoverlapping ▸ List.mem_append_left _ hother)
    have heq := ResolvedFile.outcomes_eq_blocks hcomplete hmem
      (fun _ hother => Result.exists_ok_of_mapM (Result.mapM_eq_ok_iff.mpr hbefore) hother)
    rw [houtcomes, hid] at heq
    exact List.map_injective_iff.mpr (fun _ _ h => Except.ok.inj h) heq
  have hcover := hcomplete.cover_before fileId (ResolvedFile.length_content hcomplete replies)
    hoverlapping.symm
  rw [hkept.start_eq, ← hblocks] at hcover
  refine ⟨hcover, fun others limit hsame => ?_⟩
  have hearlier : before.map (fun other => FetchTask.outcome file other (others other)) =
      blocks.map .ok := by
    rw [← houtcomes]
    exact List.map_congr_left fun other hother => hsame other (List.mem_append_left _ hother)
  rw [owed_ofRange hfile hselected, List.map_append, List.map_cons, hearlier, hsame chunk (by simp), hfails,
    items_append, hcover.foldl_stop]
  rfl

/-- A stream that cannot be opened owes the error of that. -/
theorem owed_unopenable {answer : Except ServiceError Manifest} {error : RetrievalError}
    (h : (ofRange fileId credentials range limit).opening answer = .error error) :
    (ofRange fileId credentials range limit).owed ⟨answer, replies⟩ =
      [.error (.stream range.start error)] := by
  rw [owed_of_unopened rfl rfl, h]
  rfl

end FragmentStream

end Reading

end Reassembly
