import Reassembly.Proofs.Retrieval.Fetch
import Reassembly.Proofs.Selection

/-!
# The content of a file

The chunks of a resolved file that can be downloaded and decoded make up its content: each chunk's data
has the length that the layout announces, so it lies in the content where the chunk lies in the file.
Where a chunk cannot be read the content is filled up with zeros, which nothing ever looks at.
-/

namespace Reassembly

variable {file : ResolvedFile} {replies : Replies} {chunk : Chunk} {reply : Reply} {block : Block}

/-- Decoding opens and expands, and lets through what has the length of the chunk. -/
theorem ResolvedFile.decode_eq_ok_iff {payload found : Bytes} : file.decode chunk payload = .ok found ↔
    (file.openPayload (chunk.context file.layout.fileId) payload >>=
      file.expandPayload (chunk.context file.layout.fileId)) = .ok found ∧ found.length = chunk.length := by
  simp only [decode_def, Result.bind_eq_ok_iff]
  constructor
  · rintro ⟨opened, hopened, data, hdata, hchecked⟩
    split at hchecked
    · next hlength =>
      obtain rfl := Except.ok.inj hchecked
      exact ⟨⟨opened, hopened, hdata⟩, hlength⟩
    · simp at hchecked
  · rintro ⟨⟨opened, hopened, hfound⟩, hlength⟩
    exact ⟨opened, hopened, found, hfound, if_pos hlength⟩

/-- Decoded data has the length that its chunk announces. -/
theorem ResolvedFile.length_of_decode {payload data : Bytes} (h : file.decode chunk payload = .ok data) :
    data.length = chunk.length := (decode_eq_ok_iff.mp h).2

/-- The block of a chunk is at the chunk's place and of its length. -/
theorem FetchTask.outcome_eq_ok (h : FetchTask.outcome file chunk reply = .ok block) :
    block.fileId = file.layout.fileId ∧ block.number = chunk.number ∧ block.offset = chunk.offset ∧
      block.data.length = chunk.length := by
  cases reply with
  | refused error => simp [outcome] at h
  | crashed => simp [outcome] at h
  | payload bytes =>
    obtain ⟨data, hdata, rfl⟩ := Result.map_eq_ok_iff.mp h
    exact ⟨rfl, rfl, rfl, ResolvedFile.length_of_decode hdata⟩

namespace ResolvedFile

/-- The data of a chunk under the replies of the downloads: what can be decoded, and zeros where nothing
can. -/
def chunkData (file : ResolvedFile) (replies : Replies) (chunk : Chunk) : Bytes :=
  match FetchTask.outcome file chunk (replies chunk) with
  | .ok block => block.data
  | .error _ => List.replicate chunk.length 0

/-- The content of a file under the replies of the downloads. -/
def content (file : ResolvedFile) (replies : Replies) : Bytes :=
  file.layout.chunks.flatMap (file.chunkData replies)

/-- The data of a chunk has the chunk's length. -/
theorem length_chunkData (file : ResolvedFile) (replies : Replies) (chunk : Chunk) :
    (file.chunkData replies chunk).length = chunk.length := by
  rw [chunkData]
  split
  · next block hblock => exact (FetchTask.outcome_eq_ok hblock).2.2.2
  · exact List.length_replicate

/-- Data laid end to end as chunks are is as long as the chunks are, and each chunk's part of it lies
where the chunk does. -/
theorem extract_flatMap (data : Chunk → Bytes) (hdata : ∀ chunk, (data chunk).length = chunk.length)
    {placed offset : Nat} {chunks : List Chunk} (h : Layout.EndToEnd placed offset chunks) :
    offset + (chunks.flatMap data).length = Layout.stopOf offset chunks ∧
      ∀ chunk ∈ chunks, (chunks.flatMap data).extract (chunk.offset - offset) (chunk.stop - offset) =
        data chunk := by
  induction chunks generalizing placed offset with
  | nil => exact ⟨rfl, by simp⟩
  | cons first rest ih =>
    obtain ⟨-, hoffset, hrest⟩ := h
    obtain ⟨hlength, hparts⟩ := ih hrest
    have hstop : first.stop = offset + first.length := by rw [Chunk.stop, hoffset]
    rw [List.flatMap_cons]
    refine ⟨?_, ?_⟩
    · rw [List.length_append, hdata first, Layout.stopOf, ← hlength]
      omega
    · intro chunk hmem
      rw [List.extract_eq_take_drop]
      rcases List.mem_cons.mp hmem with rfl | hmem
      · have hlength : chunk.stop - offset - (chunk.offset - offset) = (data chunk).length := by
          rw [hdata chunk]
          omega
        rw [hlength, hoffset, Nat.sub_self, List.drop_zero, List.take_left']
        rfl
      · have hlow := (hrest.between hmem).1
        have hskip : chunk.offset - offset = (data first).length + (chunk.offset - first.stop) := by
          rw [hdata first]
          omega
        have htake : chunk.stop - offset - (chunk.offset - offset) =
            chunk.stop - first.stop - (chunk.offset - first.stop) := by omega
        rw [htake, hskip, List.drop_length_add_append, ← hparts chunk hmem, List.extract_eq_take_drop]

/-- The content of a file is as long as the file. -/
theorem length_content (h : file.layout.Complete) (replies : Replies) :
    (file.content replies).length = file.layout.size := by
  have hlength := (extract_flatMap _ (file.length_chunkData replies) h.endToEnd).1
  rw [h.stop_eq, Nat.zero_add] at hlength
  exact hlength

/-- The content holds the data of every chunk at the chunk's place. -/
theorem extract_content (h : file.layout.Complete) (replies : Replies) (hmem : chunk ∈ file.layout.chunks) :
    (file.content replies).extract chunk.offset chunk.stop = file.chunkData replies chunk :=
  (extract_flatMap _ (file.length_chunkData replies) h.endToEnd).2 chunk hmem

/-- The block of a chunk that can be read is the chunk's block of the content. -/
theorem block_of_outcome (h : file.layout.Complete) (hmem : chunk ∈ file.layout.chunks)
    (houtcome : FetchTask.outcome file chunk (replies chunk) = .ok block) :
    block = chunk.block file.layout.fileId (file.content replies) := by
  obtain ⟨hfile, hnumber, hoffset, -⟩ := FetchTask.outcome_eq_ok houtcome
  have hdata : block.data = file.chunkData replies chunk := by rw [chunkData, houtcome]
  obtain ⟨fileId, number, offset, data⟩ := block
  simp only at hfile hnumber hoffset hdata
  rw [Chunk.block, extract_content h replies hmem, hfile, hnumber, hoffset, hdata]

/-- When all chunks can be read, the content is their data end to end. -/
theorem content_eq_flatten {plain : List Bytes}
    (h : List.Forall₂ (fun chunk data => FetchTask.outcome file chunk (replies chunk) =
      .ok ⟨file.layout.fileId, chunk.number, chunk.offset, data⟩) file.layout.chunks plain) :
    file.content replies = plain.flatten := by
  rw [content]
  generalize file.layout.chunks = chunks at h
  induction h with
  | nil => rfl
  | cons hchunk _ ih => rw [List.flatMap_cons, List.flatten_cons, ih, chunkData, hchunk]

/-- A file that has been resolved is the one that was asked for, and it is laid out whole. -/
theorem complete_of_ofAnswer {fileId : String} {credentials : Credentials}
    {answer : Except ServiceError Manifest} (h : ofAnswer fileId credentials answer = .ok file) :
    file.layout.Complete ∧ file.layout.fileId = fileId := by
  obtain ⟨manifest, -, h⟩ := Result.bind_eq_ok_iff.mp h
  obtain ⟨layout, hlayout, h⟩ := Result.bind_eq_ok_iff.mp h
  obtain ⟨key, -, h⟩ := Result.bind_eq_ok_iff.mp h
  obtain rfl := Except.ok.inj h
  have hlay := Layout.lay_of_ofManifest hlayout
  exact ⟨Layout.complete_of_lay hlay, (Layout.lay_eq_ok hlay).1⟩

end ResolvedFile

end Reassembly
