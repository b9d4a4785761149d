import Reassembly.Proofs.RangeRead

/-!
# Where a read fails

The first of the selected chunks that cannot be read ends a stream. By then the stream has yielded the
fragments of the chunks before it, and its offset is the chunk's own or, in the first chunk, the start of
the range: empty fragments have moved it nowhere. What becomes of later chunks, and when, makes no
difference. An error that streams have wrapped is still asked for its chunk, its root and its nature.
-/

namespace Reassembly

namespace RetrievalError

/-- An error that streams have wrapped one around the other, at some offsets. -/
def wrapped (offsets : List Nat) (error : RetrievalError) : RetrievalError := offsets.foldr .stream error

/-- Wrapping an error changes neither its chunk nor its root nor its nature. -/
theorem wrapped_transparent (offsets : List Nat) (error : RetrievalError) :
    (wrapped offsets error).context? = error.context? ∧ (wrapped offsets error).root = error.root ∧
      (wrapped offsets error).isConnectionError = error.isConnectionError := by
  induction offsets with
  | nil => exact ⟨rfl, rfl, rfl⟩
  | cons offset rest ih => exact ih

end RetrievalError

variable {file : ResolvedFile} {replies : Replies} {fileId : String} {manifest : Manifest}
  {retriever : Retriever} {range : ByteRange} {stream : FragmentStream}

/-- A chunk is the first of some that cannot be read: those before it come to blocks, and it comes to an
error. -/
structure ResolvedFile.BreaksAt (file : ResolvedFile) (replies : Replies) (selected before : List Chunk)
    (blocks : List Block) (chunk : Chunk) (error : RetrievalError) : Prop where
  selects : ∃ after, selected = before ++ chunk :: after
  reads : List.Forall₂ (fun other block => FetchTask.outcome file other (replies other) = .ok block)
    before blocks
  fails : FetchTask.outcome file chunk (replies chunk) = .error error

/-- Of chunks among which one cannot be read, there is a first. -/
theorem ResolvedFile.exists_breaksAt {selected : List Chunk}
    (h : ∃ chunk ∈ selected, ∃ error, FetchTask.outcome file chunk (replies chunk) = .error error) :
    ∃ before blocks chunk error, file.BreaksAt replies selected before blocks chunk error := by
  obtain ⟨failing, hmem, error, herror⟩ := h
  cases hresult : selected.mapM fun chunk => FetchTask.outcome file chunk (replies chunk) with
  | ok blocks =>
    obtain ⟨block, hblock⟩ := Result.exists_ok_of_mapM hresult hmem
    rw [herror] at hblock
    simp at hblock
  | error first =>
    obtain ⟨before, chunk, after, hsplit, hbefore, hfails⟩ := Result.mapM_eq_error_iff.mp hresult
    obtain ⟨blocks, hblocks⟩ := Result.exists_mapM_eq_ok hbefore
    exact ⟨before, blocks, chunk, first, ⟨after, hsplit⟩, Result.mapM_eq_ok_iff.mp hblocks, hfails⟩

/-- A stream that owes fragments and then an error yields them and fails. -/
theorem FragmentStream.yields_failing {supply : Supply} {limit : Nat} {credentials : Credentials}
    (fragments : List Block) {error : RetrievalError}
    (howed : (ofRange fileId credentials range limit).owed supply = fragments.map .ok ++ [.error error]) :
    (ofRange fileId credentials range limit).Yields supply (fragments.map .ok ++ [.error error]) .failed :=
  yields_owed rfl (live_of_unopened rfl) howed (.inr ⟨rfl, error, by simp⟩)

/-- A session answers a read that comes to an error with the error. -/
theorem Session.answerBytes_failing (fragments : List Block) (error : RetrievalError) :
    answerBytes ((fragments.map .ok ++ [.error error] : List (Except RetrievalError Block)).mapM id) =
      .failed error := by
  have hresult : (fragments.map .ok ++ [.error error] : List (Except RetrievalError Block)).mapM id =
      .error error := by
    rw [Result.mapM_eq_error_iff]
    refine ⟨fragments.map .ok, .error error, [], rfl, fun item hitem => ?_, rfl⟩
    obtain ⟨fragment, -, rfl⟩ := List.mem_map.mp hitem
    exact ⟨fragment, rfl⟩
  rw [hresult]
  rfl

/-- A read that fails tells where it has failed.

When some selected chunk cannot be read, take the first of them. A stream then yields, in every schedule,
the fragments of the chunks before it, which cover the range up to it; then the error of the chunk, wrapped
with the offset where the cover stops; and then nothing more. Replies that agree up to that chunk make no
difference, and a session answers with the same error. When the file cannot be resolved, or the range
starts beyond its end, the error of that is the only item, at the start of the range. -/
theorem readRange_fails_at_first (hstream : retriever.stream fileId range = .ok stream) :
    (∀ {manifest file} (replies : Replies),
        ResolvedFile.ofAnswer fileId retriever.credentials (.ok manifest) = .ok file →
        range.start ≤ file.layout.size →
          ∃ normalized selected, file.layout.selectRange range = .ok (normalized, selected) ∧
            ((∃ chunk ∈ selected, ∃ error, FetchTask.outcome file chunk (replies chunk) = .error error) →
              ∃ before blocks chunk error, file.BreaksAt replies selected before blocks chunk error) ∧
            ∀ before blocks chunk error, file.BreaksAt replies selected before blocks chunk error →
              Cover (file.content replies) 0 range.start (max range.start chunk.offset)
                  (Block.fragments normalized blocks) ∧
                (∀ others : Replies, (∀ other ∈ before ++ [chunk], FetchTask.outcome file other (others other) =
                    FetchTask.outcome file other (replies other)) →
                  stream.Yields ⟨.ok manifest, others⟩
                    ((Block.fragments normalized blocks).map .ok ++
                      [.error (.stream (max range.start chunk.offset) error)]) .failed) ∧
                ∀ (session : Session) (holds : Backend → Prop)
                  (answers : String → Except ServiceError Manifest) (reply : String → Reply),
                  session.service.Steady holds answers reply → holds session.backend →
                  answers fileId = .ok manifest →
                  (∀ other ∈ before ++ [chunk], reply other.location = replies other) →
                    (Session.readRange fileId range retriever session).1 =
                      .failed (.stream (max range.start chunk.offset) error)) ∧
      (∀ answer replies error, ResolvedFile.ofAnswer fileId retriever.credentials answer = .error error →
        stream.Yields ⟨answer, replies⟩ [.error (.stream range.start error)] .failed) ∧
      (∀ answer replies file, ResolvedFile.ofAnswer fileId retriever.credentials answer = .ok file →
        file.layout.size < range.start →
          stream.Yields ⟨answer, replies⟩
            [.error (.stream range.start (.rangeBeyondEnd fileId range.start file.layout.size))] .failed) ∧
      ∀ offsets error,
        (RetrievalError.wrapped offsets error).context? = error.context? ∧
          (RetrievalError.wrapped offsets error).root = error.root ∧
          (RetrievalError.wrapped offsets error).isConnectionError = error.isConnectionError := by
  obtain ⟨hactive, rfl⟩ := Retriever.stream_eq_ok hstream
  refine ⟨?_, ?_, ?_, RetrievalError.wrapped_transparent⟩
  · intro manifest file replies hfile hstart
    obtain ⟨normalized, hselected⟩ := Layout.exists_selectRange hstart
    refine ⟨normalized, _, hselected, ResolvedFile.exists_breaksAt, ?_⟩
    intro before blocks chunk error hbreaks
    obtain ⟨after, hsplit⟩ := hbreaks.selects
    rw [hsplit] at hselected
    obtain ⟨hcover, howed⟩ := FragmentStream.owed_failing hfile hselected hbreaks.reads hbreaks.fails
    refine ⟨hcover, fun others hsame => FragmentStream.yields_failing _ (howed others _ hsame), ?_⟩
    intro session holds answers reply hsteady hholds hanswer hsame
    rw [Session.readRange_eq hactive hsteady hholds, hanswer, howed, Session.answerBytes_failing]
    intro other hother
    rw [Fetch.byLocation, hsame other hother]
  · intro answer replies error herror
    refine FragmentStream.yields_failing [] (FragmentStream.owed_unopenable ?_)
    rw [FragmentStream.opening, FragmentStream.ofRange, herror]
    rfl
  · intro answer replies file hfile hbeyond
    obtain ⟨-, hid⟩ := ResolvedFile.complete_of_ofAnswer hfile
    refine FragmentStream.yields_failing [] (FragmentStream.owed_unopenable ?_)
    rw [FragmentStream.opening, FragmentStream.ofRange, hfile, Result.ok_bind, Layout.selectRange,
      ByteRange.normalize_eq_error hbeyond, hid]
    rfl

/-- A read that finds its third chunk broken down has yielded the second byte of the first. -/
theorem readRange_fails_at_first_sample :
    let replies : Replies := fun chunk => if chunk.number = 3 then .crashed else .payload ([7, 8].take chunk.length)
    ∃ stream, Retriever.sample.stream "f" (.starting 1) = .ok stream ∧
      stream.Yields ⟨.ok .sample, replies⟩
        [.ok ⟨"f", 1, 1, [8]⟩, .error (.stream 2 (.unfinished ⟨"f", 3, 2, 3⟩ crashReason))] .failed := by
  intro replies
  have hstream : Retriever.sample.stream "f" (.starting 1) =
      .ok (.ofRange "f" Retriever.sample.credentials (.starting 1) Retriever.sample.limits.streamLimit) := rfl
  obtain ⟨normalized, selected, hselected, -, hbreaks⟩ :=
    (readRange_fails_at_first hstream).1 replies (ResolvedFile.ofAnswer_sample _) (by decide)
  have hall : ResolvedFile.sample.layout.selectRange (.starting 1) =
      .ok (.starting 1, ResolvedFile.sample.layout.chunks) := by decide
  obtain ⟨rfl, rfl⟩ : ByteRange.starting 1 = normalized ∧ ResolvedFile.sample.layout.chunks = selected := by
    simpa using Except.ok.inj (hall.symm.trans hselected)
  have hfirst : ResolvedFile.sample.BreaksAt replies ResolvedFile.sample.layout.chunks
      [⟨1, 0, 2, "a"⟩, ⟨2, 2, 0, "b"⟩] [⟨"f", 1, 0, [7, 8]⟩, ⟨"f", 2, 2, []⟩] ⟨3, 2, 3, "c"⟩
      (.unfinished ⟨"f", 3, 2, 3⟩ crashReason) :=
    ⟨⟨[], rfl⟩, .cons (by decide) (.cons (by decide) .nil), by decide⟩
  exact ⟨_, hstream, (hbreaks _ _ _ _ hfirst).2.1 replies fun _ _ => rfl⟩

end Reassembly
