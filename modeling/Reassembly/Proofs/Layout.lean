import Mathlib.Algebra.GroupWithZero.Nat
import Reassembly.Proofs.Result
import Reassembly.Selection

/-!
# Chunks end to end

Laying out a manifest places its chunks end to end from offset zero, numbered from one, and the size
of the file is where the last of them stops. What is said elsewhere about the places of chunks
follows from this one invariant.
-/

namespace Reassembly

/-- The names of compressions are in upper case. -/
theorem Compression.toUpper_name (compression : Compression) :
    compression.name.map Char.toUpper = compression.name := by
  rw [← String.toList_inj, String.toList_map]
  cases compression <;> decide

/-- A compression is read back from its name. -/
theorem Compression.ofName?_name (compression : Compression) : ofName? compression.name = some compression := by
  rw [ofName?, toUpper_name]
  cases compression <;> decide

namespace Layout

/-- Chunks lie end to end from an offset on, and are numbered from the one after `placed`. -/
def EndToEnd : (placed offset : Nat) → List Chunk → Prop
  | _, _, [] => True
  | placed, offset, chunk :: rest =>
    chunk.number = placed + 1 ∧ chunk.offset = offset ∧ EndToEnd (placed + 1) chunk.stop rest

/-- The offset after chunks that lie end to end from an offset on. -/
def stopOf (offset : Nat) : List Chunk → Nat
  | [] => offset
  | chunk :: rest => stopOf chunk.stop rest

variable {placed offset : Nat} {chunks front back : List Chunk}

/-- The offset after two runs of chunks is the one after the second. -/
theorem stopOf_append (offset : Nat) (front back : List Chunk) :
    stopOf offset (front ++ back) = stopOf (stopOf offset front) back := by
  induction front generalizing offset with
  | nil => rfl
  | cons chunk rest ih => exact ih chunk.stop

/-- Two runs of chunks lie end to end when each does and the second starts where the first stops. -/
theorem endToEnd_append (placed offset : Nat) (front back : List Chunk) :
    EndToEnd placed offset (front ++ back) ↔
      EndToEnd placed offset front ∧
        EndToEnd (placed + front.length) (stopOf offset front) back := by
  induction front generalizing placed offset with
  | nil => simp [EndToEnd, stopOf]
  | cons chunk rest ih =>
    have hlength : placed + 1 + rest.length = placed + (rest.length + 1) := by omega
    simp only [List.cons_append, EndToEnd, stopOf, List.length_cons, ih, hlength, and_assoc]

/-- Chunks end to end never stop before they start. -/
theorem EndToEnd.le_stopOf (h : EndToEnd placed offset chunks) : offset ≤ stopOf offset chunks := by
  induction chunks generalizing placed offset with
  | nil => exact Nat.le_refl _
  | cons chunk rest ih =>
    obtain ⟨-, hoffset, hrest⟩ := h
    have hstop : offset ≤ chunk.stop := by simp [Chunk.stop, hoffset]
    exact Nat.le_trans hstop (ih hrest)

/-- Chunks that all stop by some offset stop by it together. -/
theorem stopOf_le {bound : Nat} (hoffset : offset ≤ bound) (h : ∀ chunk ∈ chunks, chunk.stop ≤ bound) :
    stopOf offset chunks ≤ bound := by
  induction chunks generalizing offset with
  | nil => exact hoffset
  | cons chunk rest ih =>
    exact ih (h chunk List.mem_cons_self) fun other hother => h other (List.mem_cons_of_mem _ hother)

/-- Every chunk of a run lies between the run's two ends. -/
theorem EndToEnd.between (h : EndToEnd placed offset chunks) {chunk : Chunk} (hmem : chunk ∈ chunks) :
    offset ≤ chunk.offset ∧ chunk.stop ≤ stopOf offset chunks := by
  induction chunks generalizing placed offset with
  | nil => simp at hmem
  | cons first rest ih =>
    obtain ⟨-, hoffset, hrest⟩ := h
    have hfirst : offset ≤ first.stop := by simp [Chunk.stop, hoffset]
    rcases List.mem_cons.mp hmem with rfl | hmem
    · exact ⟨Nat.le_of_eq hoffset.symm, hrest.le_stopOf⟩
    · obtain ⟨hlow, hhigh⟩ := ih hrest hmem
      exact ⟨Nat.le_trans hfirst hlow, hhigh⟩

/-- A chunk starts no later than it stops. -/
theorem offset_le_stop (chunk : Chunk) : chunk.offset ≤ chunk.stop := Nat.le_add_right _ _

/-- A run of chunks stops at its first offset and the total of its lengths. -/
theorem EndToEnd.stopOf_eq (h : EndToEnd placed offset chunks) :
    stopOf offset chunks = offset + (chunks.map (·.length)).sum := by
  induction chunks generalizing placed offset with
  | nil => rfl
  | cons chunk rest ih =>
    obtain ⟨-, hoffset, hrest⟩ := h
    have hstop := ih hrest
    simp only [stopOf, List.map_cons, List.sum_cons, hstop]
    simp only [Chunk.stop, hoffset]
    omega

/-- The chunk at a place of a run is numbered by that place. -/
theorem EndToEnd.number_getElem? (h : EndToEnd placed offset chunks) {i : Nat} {chunk : Chunk}
    (hi : chunks[i]? = some chunk) : chunk.number = placed + i + 1 := by
  induction chunks generalizing placed offset i with
  | nil => simp at hi
  | cons first rest ih =>
    obtain ⟨hnumber, -, hrest⟩ := h
    cases i with
    | zero =>
      obtain rfl : first = chunk := by simpa using hi
      exact hnumber
    | succ i =>
      have := ih hrest (i := i) (by simpa using hi)
      omega

/-- Placing chunks puts them end to end, and takes over their lengths and locations. -/
theorem endToEnd_of_place {entries : List ManifestEntry}
    (h : place placed offset entries = .ok chunks) :
    EndToEnd placed offset chunks ∧
      chunks.map (fun chunk => ManifestEntry.mk chunk.location chunk.length) = entries := by
  induction entries generalizing placed offset chunks with
  | nil =>
    obtain rfl : [] = chunks := by simpa [place] using h
    exact ⟨trivial, rfl⟩
  | cons entry rest ih =>
    rw [place] at h
    split at h
    · simp at h
    · split at h
      · simp at h
      · cases hrest : place (placed + 1) (offset + entry.length) rest with
        | error fault => simp [hrest, Except.map] at h
        | ok later =>
          obtain rfl : _ :: later = chunks := by simpa [hrest, Except.map] using h
          obtain ⟨hlater, hentries⟩ := ih hrest
          exact ⟨⟨rfl, rfl, hlater⟩, by simp [hentries]⟩

/-- The lengths of entries are added up one by one. -/
theorem foldl_length_eq_sum (entries : List ManifestEntry) :
    entries.foldl (fun size entry => size + entry.length) 0 = (entries.map (·.length)).sum := by
  rw [List.sum_eq_foldl, List.foldl_map]

/-- What it takes to lay out a file, and what becomes of it. -/
theorem lay_eq_ok {fileId : String} {manifest : Manifest} {layout : Layout}
    (h : lay fileId manifest = .ok layout) :
    layout.fileId = fileId ∧ manifest.compression? = some layout.compression ∧
      key manifest.encryption = .ok layout.wrappedKey ∧
        place 0 0 manifest.entries = .ok layout.chunks ∧
          layout.size = (manifest.entries.map (·.length)).sum := by
  rw [lay] at h
  split at h
  · simp at h
  · split at h
    · next compression hcompression =>
      simp only [Result.pure_eq_ok, Result.bind_eq_ok_iff] at h
      obtain ⟨wrapped, hkey, chunks, hplace, h⟩ := h
      obtain rfl := Except.ok.inj h
      exact ⟨rfl, hcompression, hkey, hplace, foldl_length_eq_sum _⟩
    · simp at h

/-- A manifest is laid out when it has chunks, a known compression, a key if it needs one, and places for
all of its chunks. -/
theorem lay_of_place {fileId : String} {manifest : Manifest} {compression : Compression}
    {wrappedKey : Option String} (hentries : manifest.entries ≠ [])
    (hcompression : manifest.compression? = some compression)
    (hkey : key manifest.encryption = .ok wrappedKey) (hplace : place 0 0 manifest.entries = .ok chunks) :
    lay fileId manifest = .ok
      ⟨fileId, wrappedKey, compression, chunks, (manifest.entries.map (·.length)).sum⟩ := by
  rw [lay, if_neg hentries, hcompression]
  simp only [hkey, hplace, Result.ok_bind, foldl_length_eq_sum]
  rfl

/-- The chunks of a laid-out file lie end to end from its start to its size. -/
structure Complete (layout : Layout) : Prop where
  endToEnd : EndToEnd 0 0 layout.chunks
  stop_eq : stopOf 0 layout.chunks = layout.size

/-- Laying out a file covers it with chunks. -/
theorem complete_of_lay {fileId : String} {manifest : Manifest} {layout : Layout}
    (h : lay fileId manifest = .ok layout) : Complete layout := by
  obtain ⟨-, -, -, hplace, hsize⟩ := lay_eq_ok h
  obtain ⟨hchunks, hentries⟩ := endToEnd_of_place hplace
  refine ⟨hchunks, ?_⟩
  rw [hchunks.stopOf_eq, hsize, ← hentries, List.map_map, Nat.zero_add]
  rfl

/-- A manifest that is not refused is laid out. -/
theorem lay_of_ofManifest {fileId : String} {manifest : Manifest} {layout : Layout}
    (h : ofManifest fileId manifest = .ok layout) : lay fileId manifest = .ok layout :=
  Result.mapError_eq_ok_iff.mp h

/-- A numbered chunk of a laid-out file is the one of that number. -/
theorem Complete.number_of_chunk? {layout : Layout} (h : Complete layout) {number : Nat} {chunk : Chunk}
    (hchunk : layout.chunk? number = some chunk) : chunk.number = number := by
  cases number with
  | zero => simp [chunk?] at hchunk
  | succ i =>
    have := h.endToEnd.number_getElem? (i := i) hchunk
    omega

end Layout

end Reassembly
