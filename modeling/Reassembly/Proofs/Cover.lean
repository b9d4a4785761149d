import Reassembly.Proofs.Clipping
import Reassembly.Proofs.Layout

/-!
# Covers

The fragments of a range cover it: they hold the content of the file between the range's first byte
and its end, one after the other, with nothing lost, nothing repeated and nothing empty. A chunk that
ends after the range's first byte contributes what it has between that byte and its own end, or the
range's last byte when it holds that.
-/

namespace Reassembly

/-- Blocks that hold the content of a file from one offset to another: each starts where the one before
stops, is numbered higher, and has at least one byte. -/
def Cover (content : Bytes) : (placed start stop : Nat) → List Block → Prop
  | _, start, stop, [] => start = stop
  | placed, start, stop, block :: rest =>
    placed < block.number ∧ block.offset = start ∧ block.data ≠ [] ∧
      block.data = content.extract start block.stop ∧
        Cover content block.number block.stop stop rest

namespace Cover

variable {content : Bytes} {placed start middle stop : Nat} {blocks front back : List Block}

/-- A cover stops no earlier than it starts. -/
theorem le (h : Cover content placed start stop blocks) : start ≤ stop := by
  induction blocks generalizing placed start with
  | nil => exact Nat.le_of_eq h
  | cons block rest ih =>
    obtain ⟨-, hoffset, -, -, hrest⟩ := h
    have hstop : start ≤ block.stop := by simp [Block.stop, hoffset]
    exact Nat.le_trans hstop (ih hrest)

/-- Two neighbouring slices make one. -/
theorem extract_append (content : Bytes) (hfirst : start ≤ middle) (hsecond : middle ≤ stop) :
    content.extract start middle ++ content.extract middle stop = content.extract start stop := by
  have hdrop : content.drop middle = (content.drop start).drop (middle - start) := by
    rw [List.drop_drop]
    congr 1
    omega
  have htotal : stop - start = (middle - start) + (stop - middle) := by omega
  rw [List.extract_eq_take_drop, List.extract_eq_take_drop, List.extract_eq_take_drop, hdrop, htotal,
    List.take_add]

/-- The data of a cover is the slice that it covers. -/
theorem flatMap_data (h : Cover content placed start stop blocks) :
    blocks.flatMap (·.data) = content.extract start stop := by
  induction blocks generalizing placed start with
  | nil => simp [show start = stop from h]
  | cons block rest ih =>
    obtain ⟨-, hoffset, -, hdata, hrest⟩ := h
    have hstop : start ≤ block.stop := by simp [Block.stop, hoffset]
    rw [List.flatMap_cons, ih hrest, hdata, extract_append content hstop hrest.le]

/-- A cover may be numbered from any earlier place. -/
theorem of_le {earlier : Nat} (h : Cover content placed start stop blocks) (hle : earlier ≤ placed) :
    Cover content earlier start stop blocks := by
  cases blocks with
  | nil => exact h
  | cons block rest => exact ⟨Nat.lt_of_le_of_lt hle h.1, h.2⟩

/-- Two covers make one when the second starts where the first stops and is numbered on from it. -/
theorem append {last : Nat} (hfront : Cover content placed start middle front)
    (hplaced : placed ≤ last) (hnumbers : ∀ block ∈ front, block.number ≤ last)
    (hback : Cover content last middle stop back) : Cover content placed start stop (front ++ back) := by
  induction front generalizing placed start with
  | nil =>
    obtain rfl : start = middle := hfront
    exact hback.of_le hplaced
  | cons block rest ih =>
    obtain ⟨hnumber, hoffset, hdata, hslice, hrest⟩ := hfront
    refine ⟨hnumber, hoffset, hdata, hslice, ?_⟩
    exact ih hrest (hnumbers block (by simp)) fun other hother => hnumbers other (by simp [hother])

/-- The last block of a cover stops where the cover does. -/
theorem foldl_stop (h : Cover content placed start stop blocks) :
    blocks.foldl (fun _ block => block.stop) start = stop := by
  induction blocks generalizing placed start with
  | nil => exact h
  | cons block rest ih => exact ih h.2.2.2.2

/-- The first blocks of a cover stop after as many bytes as they have. -/
theorem foldl_stop_of_append (h : Cover content placed start stop (front ++ back)) :
    front.foldl (fun _ block => block.stop) start = start + (front.map Block.length).sum := by
  induction front generalizing placed start with
  | nil => rfl
  | cons block rest ih =>
    obtain ⟨-, hoffset, -, -, hrest⟩ := h
    rw [List.foldl_cons, ih hrest, List.map_cons, List.sum_cons, Block.stop, hoffset]
    omega

end Cover

/-- The block of a chunk of a file with the given content. -/
def Chunk.block (chunk : Chunk) (fileId : String) (content : Bytes) : Block :=
  ⟨fileId, chunk.number, chunk.offset, content.extract chunk.offset chunk.stop⟩

/-- The fragments that a range makes of blocks. -/
def Block.fragments (range : ByteRange) (blocks : List Block) : List Block :=
  (blocks.map (·.clip range)).filter (!·.isEmpty)

variable {fileId : String} {content : Bytes} {range : ByteRange} {chunk : Chunk}

/-- The block of a chunk inside a file has the chunk's length. -/
theorem Chunk.length_block (h : chunk.stop ≤ content.length) :
    (chunk.block fileId content).length = chunk.length := by
  simp only [Chunk.stop] at h
  simp only [Block.length, Chunk.block, List.extract_eq_take_drop, List.length_take, List.length_drop,
    Chunk.stop]
  omega

/-- The block of a chunk inside a file stops where the chunk does. -/
theorem Chunk.stop_block (h : chunk.stop ≤ content.length) :
    (chunk.block fileId content).stop = chunk.stop := by
  rw [Block.stop, Chunk.length_block h]
  rfl

/-- Where a range leaves off in a chunk: after the range's last byte if the chunk holds it, and
otherwise where the chunk stops. -/
def Chunk.reach (chunk : Chunk) (range : ByteRange) : Nat :=
  match range.bound? with
  | some last => if chunk.offset ≤ last ∧ last < chunk.stop then last + 1 else chunk.stop
  | none => chunk.stop

/-- A range leaves off in a chunk no later than the chunk stops. -/
theorem Chunk.reach_le (chunk : Chunk) (range : ByteRange) : chunk.reach range ≤ chunk.stop := by
  unfold Chunk.reach
  split
  · split <;> omega
  · exact Nat.le_refl _

/-- Cutting a slice at both ends gives a slice. -/
theorem drop_take_extract (content : Bytes) {offset stop front back : Nat} (hback : offset + back ≤ stop) :
    ((content.extract offset stop).take back).drop front =
      content.extract (offset + front) (offset + back) := by
  have hmin : min back (stop - offset) = back := by omega
  have hlength : offset + back - (offset + front) = back - front := by omega
  rw [List.extract_eq_take_drop, List.extract_eq_take_drop, List.take_take, hmin, List.drop_take,
    List.drop_drop, hlength]

/-- What a range cuts out of a chunk that ends after the range's first byte. -/
theorem Chunk.clip_block (h : chunk.stop ≤ content.length) (hstart : range.start < chunk.stop) :
    (chunk.block fileId content).clip range =
      ⟨fileId, chunk.number, max range.start chunk.offset,
        content.extract (max range.start chunk.offset) (chunk.reach range)⟩ := by
  have hlength : chunk.stop = chunk.offset + chunk.length := rfl
  have hfront : (chunk.block fileId content).cutFront range = range.start - chunk.offset :=
    Block.cutFront_of_lt (by rwa [Chunk.stop_block h])
  have hback : chunk.offset + (chunk.block fileId content).cutBack range = chunk.reach range := by
    unfold Block.cutBack Chunk.reach
    rw [Chunk.stop_block h, Chunk.length_block h]
    cases range.bound? with
    | none => exact hlength.symm
    | some last =>
      show chunk.offset + (if chunk.offset ≤ last ∧ last < chunk.stop then last - chunk.offset + 1
          else chunk.length) = if chunk.offset ≤ last ∧ last < chunk.stop then last + 1 else chunk.stop
      split <;> omega
  have hoffset : chunk.offset + (range.start - chunk.offset) = max range.start chunk.offset := by omega
  have hle := chunk.reach_le range
  rw [Block.clip, hfront]
  show Block.mk fileId chunk.number _ _ = _
  rw [show (chunk.block fileId content).offset = chunk.offset from rfl, hoffset]
  rw [show (chunk.block fileId content).data = content.extract chunk.offset chunk.stop from rfl,
    drop_take_extract content (by omega), hback, hoffset]

/-- A chunk that ends after a range's first byte covers what the range has of it. -/
theorem cover_fragment (fileId : String) (placed : Nat) (h : chunk.stop ≤ content.length)
    (hstart : range.start < chunk.stop) (hnumber : placed < chunk.number)
    (hreach : chunk.offset ≤ chunk.reach range) :
    Cover content placed (max range.start chunk.offset) (max range.start (chunk.reach range))
      (Block.fragments range [chunk.block fileId content]) := by
  have hle := chunk.reach_le range
  simp only [Block.fragments, List.map_cons, List.map_nil, Chunk.clip_block h hstart]
  by_cases hempty : chunk.reach range ≤ max range.start chunk.offset
  · -- The range has nothing of the chunk.
    have hsize : chunk.reach range - max range.start chunk.offset = 0 := by omega
    simp only [Block.isEmpty, List.extract_eq_take_drop, hsize, List.take_zero, List.isEmpty_nil,
      Bool.not_true, Bool.false_eq_true, not_false_eq_true, List.filter_cons_of_neg, List.filter_nil]
    show max range.start chunk.offset = max range.start (chunk.reach range)
    omega
  · have hlength : (content.extract (max range.start chunk.offset) (chunk.reach range)).length =
        chunk.reach range - max range.start chunk.offset := by
      simp only [List.extract_eq_take_drop, List.length_take, List.length_drop]
      omega
    have hdata : content.extract (max range.start chunk.offset) (chunk.reach range) ≠ [] := by
      intro hnil
      rw [hnil] at hlength
      simp only [List.length_nil] at hlength
      omega
    have hstop : (⟨fileId, chunk.number, max range.start chunk.offset,
        content.extract (max range.start chunk.offset) (chunk.reach range)⟩ : Block).stop =
          chunk.reach range := by
      simp only [Block.stop, Block.length, hlength]
      omega
    rw [List.filter_cons_of_pos (by simpa [Block.isEmpty] using hdata), List.filter_nil]
    refine ⟨hnumber, rfl, hdata, by rw [hstop], ?_⟩
    show _ = _
    rw [hstop]
    omega

/-- Fragments of two runs of blocks follow each other. -/
theorem Block.fragments_append (range : ByteRange) (front back : List Block) :
    Block.fragments range (front ++ back) = Block.fragments range front ++ Block.fragments range back := by
  simp [Block.fragments]

/-- A fragment keeps the number of its block. -/
theorem Block.number_of_mem_fragments {blocks : List Block} {fragment : Block}
    (h : fragment ∈ Block.fragments range blocks) : ∃ block ∈ blocks, fragment.number = block.number := by
  obtain ⟨hmem, -⟩ := List.mem_filter.mp h
  obtain ⟨block, hblock, rfl⟩ := List.mem_map.mp hmem
  exact ⟨block, hblock, rfl⟩

/-- Every fragment is of a chunk that is not empty. -/
theorem Chunk.exists_of_mem_fragments {chunks : List Chunk} {fragment : Block}
    (h : fragment ∈ Block.fragments range (chunks.map (·.block fileId content))) :
    ∃ chunk ∈ chunks, chunk.number = fragment.number ∧ chunk.length ≠ 0 := by
  obtain ⟨hmem, hsome⟩ := List.mem_filter.mp h
  obtain ⟨block, hblock, rfl⟩ := List.mem_map.mp hmem
  obtain ⟨chunk, hchunk, rfl⟩ := List.mem_map.mp hblock
  refine ⟨chunk, hchunk, rfl, fun hzero => ?_⟩
  have hdata : (chunk.block fileId content).data = [] := by
    simp [Chunk.block, Chunk.stop, hzero, List.extract_eq_take_drop]
  simp [Block.isEmpty, Block.clip, hdata] at hsome

end Reassembly
