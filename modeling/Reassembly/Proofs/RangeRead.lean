import Reassembly.Proofs.Session.Retrieval

/-!
# Reading a range

When every chunk of a file can be read, reading a range gives the bytes of the range. A stream yields
them as fragments that cover the range, in every schedule of its polls and tasks; its offset follows the
bytes that it has yielded, to the end of the range. Where the range ends is settled by the range as it was
asked for and the size of the file.
-/

namespace Reassembly

variable {file : ResolvedFile} {replies : Replies} {fileId : String} {manifest : Manifest}
  {retriever : Retriever} {range : ByteRange} {stream : FragmentStream}

/-- The reply to the request for a chunk is a payload that decodes to the data. -/
def ResolvedFile.Delivers (file : ResolvedFile) (replies : Replies) (chunk : Chunk) (data : Bytes) : Prop :=
  ∃ payload, replies chunk = .payload payload ∧ file.decode chunk payload = .ok data

/-- The outcome of a chunk whose data is delivered is the block of the data. -/
theorem ResolvedFile.Delivers.outcome_eq {chunk : Chunk} {data : Bytes} (h : file.Delivers replies chunk data) :
    FetchTask.outcome file chunk (replies chunk) =
      .ok ⟨file.layout.fileId, chunk.number, chunk.offset, data⟩ := by
  obtain ⟨payload, hreply, hdecode⟩ := h
  rw [hreply, FetchTask.outcome, FetchTask.decoded, hdecode]
  rfl

/-- When every chunk delivers its part of the content, the parts make up the content. -/
theorem ResolvedFile.content_eq_delivered {plain : List Bytes}
    (h : List.Forall₂ (file.Delivers replies) file.layout.chunks plain) : file.content replies = plain.flatten :=
  content_eq_flatten (h.imp fun _ _ hdelivers => hdelivers.outcome_eq)

/-- Chunks that deliver data come to blocks of the data. -/
theorem ResolvedFile.exists_blocks {chunks : List Chunk} {pieces : List Bytes}
    (h : List.Forall₂ (file.Delivers replies) chunks pieces) :
    ∃ blocks, chunks.mapM (fun chunk => FetchTask.outcome file chunk (replies chunk)) = .ok blocks ∧
      blocks.map (·.data) = pieces := by
  induction h with
  | nil => exact ⟨[], rfl, rfl⟩
  | @cons chunk piece _ _ hfirst _ ih =>
    obtain ⟨blocks, hblocks, hdata⟩ := ih
    refine ⟨⟨file.layout.fileId, chunk.number, chunk.offset, piece⟩ :: blocks, ?_, ?_⟩
    · rw [Result.mapM_cons, hfirst.outcome_eq, Result.ok_bind, hblocks, Result.ok_bind]
    · rw [List.map_cons, hdata]

/-- A retriever makes a stream while it is not shut down. -/
theorem Retriever.stream_eq_ok (h : retriever.stream fileId range = .ok stream) :
    retriever.isShutDown = false ∧
      stream = .ofRange fileId retriever.credentials range retriever.limits.streamLimit := by
  rw [Retriever.stream] at h
  split at h
  · simp at h
  · next hactive => exact ⟨by simpa using hactive, (Except.ok.inj h).symm⟩

/-- What is owed to a stream depends on the replies to the chunks of the file alone. -/
theorem FragmentStream.owed_ofRange_congr {credentials : Credentials} {limit : Nat} (others : Replies)
    (hfile : ResolvedFile.ofAnswer fileId credentials (.ok manifest) = .ok file)
    (hstart : range.start ≤ file.layout.size)
    (hsame : ∀ chunk ∈ file.layout.chunks, others chunk = replies chunk) :
    (ofRange fileId credentials range limit).owed ⟨.ok manifest, others⟩ =
      (ofRange fileId credentials range limit).owed ⟨.ok manifest, replies⟩ := by
  obtain ⟨normalized, hselected⟩ := Layout.exists_selectRange hstart
  rw [owed_ofRange hfile hselected, owed_ofRange hfile hselected]
  refine congrArg _ (List.map_congr_left fun chunk hchunk => ?_)
  rw [hsame chunk (Layout.mem_of_mem_overlapping hchunk)]

/-- The fragments among items that are all fragments. -/
theorem FragmentStream.fragmentsOf_map (fragments : List Block) :
    fragmentsOf (fragments.map .ok) = fragments := by
  rw [fragmentsOf, List.filterMap_map]
  exact List.filterMap_some

/-- A stream that yields the fragments of a cover has its offset past the bytes that it has yielded, and
when it has completed, at the end of the cover. -/
theorem FragmentStream.Yields.offset_eq {supply : Supply} {fragments : List Block} {content : Bytes}
    {placed stop : Nat} (h : stream.Yields supply (fragments.map .ok) .completed)
    (hcover : Cover content placed stream.offset stop fragments) (events : List StreamEvent) :
    (stream.run supply events).offset =
        stream.offset + ((fragmentsOf (yielded (stream.polls supply events))).map Block.length).sum ∧
      ((stream.run supply events).state = .completed → (stream.run supply events).offset = stop) := by
  have hsplit : fragments = fragmentsOf (yielded (stream.polls supply events)) ++
      fragmentsOf ((stream.run supply events).owed supply) := by
    rw [← fragmentsOf_map fragments, ← (h.shows events).yielded_append]
    exact List.filterMap_append
  refine ⟨?_, fun hcompleted => ?_⟩
  · rw [offset_run]
    rw [hsplit] at hcover
    exact hcover.foldl_stop_of_append
  · have hall := (h.ended events (by rw [hcompleted]; rfl)).2
    rw [offset_run, hall, fragmentsOf_map]
    exact hcover.foldl_stop

/-- When every chunk delivers its part of the content, a stream yields fragments that cover its range. -/
theorem FragmentStream.owed_delivered {credentials : Credentials}
    (hfile : ResolvedFile.ofAnswer fileId credentials (.ok manifest) = .ok file) {plain : List Bytes}
    (hplain : List.Forall₂ (file.Delivers replies) file.layout.chunks plain)
    (hstart : range.start ≤ file.layout.size) :
    ∃ fragments, Cover plain.flatten 0 range.start (range.stop file.layout.size) fragments ∧
      (∀ fragment ∈ fragments, ∃ chunk ∈ file.layout.chunks,
        chunk.number = fragment.number ∧ chunk.length ≠ 0) ∧
      ∀ limit, (ofRange fileId credentials range limit).owed ⟨.ok manifest, replies⟩ = fragments.map .ok := by
  obtain ⟨blocks, hblocks, -⟩ := ResolvedFile.exists_blocks hplain
  obtain ⟨fragments, hcover, hsome, howed⟩ :=
    owed_covering hfile hstart fun chunk hchunk => Result.exists_ok_of_mapM hblocks hchunk
  rw [ResolvedFile.content_eq_delivered hplain] at hcover
  exact ⟨fragments, hcover, hsome, howed⟩

/-- A session answers a read that comes to fragments with their bytes. -/
theorem Session.readRange_of_owed {session : Session} {holds : Backend → Prop}
    {answers : String → Except ServiceError Manifest} {reply : String → Reply} {fragments : List Block}
    (hactive : retriever.isShutDown = false) (hsteady : session.service.Steady holds answers reply)
    (hholds : holds session.backend)
    (howed : (FragmentStream.ofRange fileId retriever.credentials range retriever.limits.streamLimit).owed
      ⟨answers fileId, Fetch.byLocation reply⟩ = fragments.map .ok) :
    (readRange fileId range retriever session).1 = .bytes (fragments.flatMap (·.data)) := by
  rw [readRange_eq hactive hsteady hholds, howed, Result.mapM_map_ok]
  rfl

/-- Reading a range gives the bytes of the range.

When every chunk delivers its part of the content, a stream over the range yields non-empty fragments that
cover the range, in every schedule of its polls and tasks, and completes; empty chunks yield none. After
every poll its offset is past the bytes that it has yielded, and at completion it is where the range ends.
A session answers a read of the range with the bytes from its start to its end, whatever else it has under
way. -/
theorem readRange_eq_slice (hfile : ResolvedFile.ofAnswer fileId retriever.credentials (.ok manifest) = .ok file)
    (replies : Replies) (plain : List Bytes)
    (hplain : List.Forall₂ (file.Delivers replies) file.layout.chunks plain)
    (hstart : range.start ≤ file.layout.size) (hstream : retriever.stream fileId range = .ok stream) :
    ∃ fragments, Cover plain.flatten 0 range.start (range.stop file.layout.size) fragments ∧
      fragments.flatMap (·.data) = plain.flatten.extract range.start (range.stop file.layout.size) ∧
      (∀ fragment ∈ fragments, ∃ chunk ∈ file.layout.chunks,
        chunk.number = fragment.number ∧ chunk.length ≠ 0) ∧
      stream.Yields ⟨.ok manifest, replies⟩ (fragments.map .ok) .completed ∧
      (∀ events,
        (stream.run ⟨.ok manifest, replies⟩ events).offset = range.start +
          ((FragmentStream.fragmentsOf (FragmentStream.yielded
            (stream.polls ⟨.ok manifest, replies⟩ events))).map Block.length).sum ∧
        ((stream.run ⟨.ok manifest, replies⟩ events).state = .completed →
          (stream.run ⟨.ok manifest, replies⟩ events).offset = range.stop file.layout.size)) ∧
      ∀ (session : Session) (holds : Backend → Prop) (answers : String → Except ServiceError Manifest)
        (reply : String → Reply), session.service.Steady holds answers reply → holds session.backend →
          answers fileId = .ok manifest →
          (∀ chunk ∈ file.layout.chunks, reply chunk.location = replies chunk) →
            (Session.readRange fileId range retriever session).1 =
              .bytes (plain.flatten.extract range.start (range.stop file.layout.size)) := by
  obtain ⟨hactive, rfl⟩ := Retriever.stream_eq_ok hstream
  obtain ⟨fragments, hcover, hsome, howed⟩ := FragmentStream.owed_delivered hfile hplain hstart
  have hyields : FragmentStream.Yields ⟨.ok manifest, replies⟩
      (.ofRange fileId retriever.credentials range retriever.limits.streamLimit) (fragments.map .ok)
      .completed :=
    FragmentStream.yields_owed rfl (FragmentStream.live_of_unopened rfl) (howed _)
      (.inl ⟨rfl, fun error herror => by simp at herror⟩)
  refine ⟨fragments, hcover, hcover.flatMap_data, hsome, hyields,
    fun events => hyields.offset_eq hcover events, ?_⟩
  intro session holds answers reply hsteady hholds hanswer hsame
  rw [← hcover.flatMap_data]
  apply Session.readRange_of_owed hactive hsteady hholds
  rw [hanswer, FragmentStream.owed_ofRange_congr (Fetch.byLocation reply) hfile hstart hsame, howed]

/-- The bytes from the second to the fourth of a file of five, read over an empty chunk. -/
theorem readRange_eq_slice_sample :
    let replies : Replies := fun chunk => .payload (List.replicate chunk.length 7)
    ∃ stream fragments, Retriever.sample.stream "f" ⟨1, some 3, false⟩ = .ok stream ∧
      List.Forall₂ (ResolvedFile.sample.Delivers replies) ResolvedFile.sample.layout.chunks
        [[7, 7], [], [7, 7, 7]] ∧
      Cover [7, 7, 7, 7, 7] 0 1 4 fragments ∧
      stream.Yields ⟨.ok .sample, replies⟩ (fragments.map .ok) .completed := by
  intro replies
  have hstream : Retriever.sample.stream "f" ⟨1, some 3, false⟩ =
      .ok (.ofRange "f" Retriever.sample.credentials ⟨1, some 3, false⟩ Retriever.sample.limits.streamLimit) := rfl
  have hplain : List.Forall₂ (ResolvedFile.sample.Delivers replies) ResolvedFile.sample.layout.chunks
      [[7, 7], [], [7, 7, 7]] :=
    .cons ⟨_, rfl, by decide⟩ (.cons ⟨_, rfl, by decide⟩ (.cons ⟨_, rfl, by decide⟩ .nil))
  obtain ⟨fragments, hcover, -, -, hyields, -⟩ :=
    readRange_eq_slice (ResolvedFile.ofAnswer_sample _) replies _ hplain (by decide) hstream
  exact ⟨_, fragments, hstream, hplain, hcover, hyields⟩

end Reassembly
