import Reassembly.Proofs.Words

/-!
# Windows

The window of a range is all that lies from its first byte on, through its last byte if this counts. Every range clips
every block, wherever the two lie, and what it leaves is a part of the block in its place. If the block has a byte in
the window, the range leaves all that block and window have in common. Nothing is said of how much it leaves of a block
beside the window, which can be the whole block.
-/

namespace Reassembly

/-- A block holds a byte of its file. -/
def Block.Holds (block : Block) (byte : Nat) : Prop := block.offset ≤ byte ∧ byte < block.stop

/-- A byte lies in the window of a range: no earlier than its first byte, and no later than its last byte if this
counts. -/
def ByteRange.Spans (range : ByteRange) (byte : Nat) : Prop :=
  range.start ≤ byte ∧ ∀ last, range.bound? = some last → byte ≤ last

namespace Block

variable {block : Block} {range : ByteRange}

/-- A range leaves of a block's data as much as it leaves of the block, from the place that its offset tells. -/
theorem data_clip (block : Block) (range : ByteRange) :
    (block.clip range).data =
      (block.data.drop ((block.clip range).offset - block.offset)).take (block.clip range).length := by
  have hfront : (block.clip range).offset - block.offset = block.cutFront range := Nat.add_sub_cancel_left _ _
  rw [hfront, length_clip, ← List.drop_take]
  rfl

/-- What a range leaves of a block that has a byte in its window is all that the two have in common. -/
theorem holds_clip_iff (hmeets : ∃ byte, block.Holds byte ∧ range.Spans byte) (byte : Nat) :
    (block.clip range).Holds byte ↔ block.Holds byte ∧ range.Spans byte := by
  obtain ⟨common, ⟨hlow, hhigh⟩, hstart, hlast⟩ := hmeets
  have hoffset : (block.clip range).offset = max range.start block.offset :=
    offset_clip (Nat.lt_of_le_of_lt hstart hhigh)
  have hback : ∀ byte, byte < block.offset + block.cutBack range ↔
      byte < block.stop ∧ ∀ last, range.bound? = some last → byte ≤ last :=
    lt_cutBack_iff fun last hbound => Nat.le_trans hlow (hlast last hbound)
  -- The cuts are in order, because the common byte lies between them.
  have hcommon : common < block.offset + block.cutBack range := (hback common).mpr ⟨hhigh, hlast⟩
  have hfront : (block.clip range).offset = block.offset + block.cutFront range := rfl
  have hstop : (block.clip range).stop = block.offset + block.cutBack range := by
    rw [stop_clip]
    omega
  rw [Holds, hstop, hback, hoffset, Nat.max_comm, Nat.max_le]
  exact and_and_and_comm

/-- What a range leaves of a block, wherever the two lie.

A block that ends no later than the largest word is clipped by every range, without a step that leaves the words or the
data, and the end of what is left is a word as well. What is left is a part of the block: it belongs to the same chunk,
lies inside the block, and its data are those of the block at its place. If the block has a byte in the window of the
range, what is left holds the bytes that are both in the block and in the window, and no others. -/
theorem clip_is_intersection (h : block.stop < sizeBound) (range : ByteRange) :
    (block.clip? range = some (block.clip range) ∧ (block.clip range).stop? = some (block.clip range).stop) ∧
    ((block.clip range).fileId = block.fileId ∧ (block.clip range).number = block.number) ∧
    (block.offset ≤ (block.clip range).offset ∧ (block.clip range).stop ≤ block.stop) ∧
    (block.clip range).data =
      (block.data.drop ((block.clip range).offset - block.offset)).take (block.clip range).length ∧
    ((∃ byte, block.Holds byte ∧ range.Spans byte) →
      ∀ byte, (block.clip range).Holds byte ↔ block.Holds byte ∧ range.Spans byte) := by
  have hstop := block.stop_clip_le range
  exact ⟨⟨clip?_of_lt h range, stop?_of_lt (Nat.lt_of_le_of_lt hstop h)⟩, ⟨rfl, rfl⟩, ⟨Nat.le_add_right _ _, hstop⟩,
    data_clip block range, holds_clip_iff⟩

/-- Of three bytes that end with the largest word, the middle one is left by the range of this byte; a range that ends
in the block before it starts there leaves nothing. -/
theorem clip_is_intersection_sample :
    Block.stop ⟨"f", 7, 0xfffffffffffffffc, [1, 2, 3]⟩ < sizeBound ∧
      Block.clip? ⟨"f", 7, 0xfffffffffffffffc, [1, 2, 3]⟩ ⟨0xfffffffffffffffd, some 0xfffffffffffffffd, false⟩ =
        some ⟨"f", 7, 0xfffffffffffffffd, [2]⟩ ∧
      (∀ byte, Block.Holds ⟨"f", 7, 0xfffffffffffffffd, [2]⟩ byte ↔
        Block.Holds ⟨"f", 7, 0xfffffffffffffffc, [1, 2, 3]⟩ byte ∧
          ByteRange.Spans ⟨0xfffffffffffffffd, some 0xfffffffffffffffd, false⟩ byte) ∧
      Block.clip? ⟨"f", 7, 0xfffffffffffffffc, [1, 2, 3]⟩ ⟨0xfffffffffffffffe, some 0xfffffffffffffffc, false⟩ =
        some ⟨"f", 7, 0xfffffffffffffffe, []⟩ := by
  have hlast : Block.stop ⟨"f", 7, 0xfffffffffffffffc, [1, 2, 3]⟩ < sizeBound := by decide
  obtain ⟨⟨hmiddle, -⟩, -, -, -, hcommon⟩ :=
    clip_is_intersection hlast ⟨0xfffffffffffffffd, some 0xfffffffffffffffd, false⟩
  obtain ⟨⟨hinverted, -⟩, -⟩ := clip_is_intersection hlast ⟨0xfffffffffffffffe, some 0xfffffffffffffffc, false⟩
  have hmeets : ∃ byte, Block.Holds ⟨"f", 7, 0xfffffffffffffffc, [1, 2, 3]⟩ byte ∧
      ByteRange.Spans ⟨0xfffffffffffffffd, some 0xfffffffffffffffd, false⟩ byte :=
    ⟨0xfffffffffffffffd, ⟨by decide, by decide⟩, Nat.le_refl _, by simp [ByteRange.bound?]⟩
  exact ⟨hlast, hmiddle, hcommon hmeets, hinverted⟩

end Block

end Reassembly
