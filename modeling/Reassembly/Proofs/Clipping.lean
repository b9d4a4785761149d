import Reassembly.Block

/-!
# Clipping

A range cuts a block at two places that are found apart from each other. Either is inside the block, whatever the
range, so what is left lies between them; there is nothing left when they are in the wrong order. The front is cut
where the range starts if it starts before the block ends. The back is cut where the range ends if it does not end
before the block starts.
-/

namespace Reassembly

namespace Block

variable {block : Block} {range : ByteRange}

/-- What a range cuts off the front of a block is no more than the block has. -/
theorem cutFront_le (block : Block) (range : ByteRange) : block.cutFront range ≤ block.length := by
  rw [cutFront]
  split
  · next hinside =>
    have hstop : block.stop = block.offset + block.length := rfl
    omega
  · exact Nat.zero_le _

/-- What a range leaves of a block is no more than the block has. -/
theorem cutBack_le (block : Block) (range : ByteRange) : block.cutBack range ≤ block.length := by
  rw [cutBack]
  split
  · split
    · next hinside =>
      have hstop : block.stop = block.offset + block.length := rfl
      omega
    · exact Nat.le_refl _
  · exact Nat.le_refl _

/-- What a range leaves of a block is as long as the back is behind the front. -/
theorem length_clip (block : Block) (range : ByteRange) :
    (block.clip range).length = block.cutBack range - block.cutFront range := by
  have hback : block.cutBack range ≤ block.data.length := block.cutBack_le range
  show ((block.data.take _).drop _).length = _
  rw [List.length_drop, List.length_take, Nat.min_eq_left hback]

/-- It stops that far behind the front. -/
theorem stop_clip (block : Block) (range : ByteRange) :
    (block.clip range).stop = block.offset + block.cutFront range + (block.cutBack range - block.cutFront range) := by
  rw [stop, length_clip]
  rfl

/-- What a range leaves of a block stops no later than the block. -/
theorem stop_clip_le (block : Block) (range : ByteRange) : (block.clip range).stop ≤ block.stop := by
  have hfront := block.cutFront_le range
  have hback := block.cutBack_le range
  have hstop : block.stop = block.offset + block.length := rfl
  rw [stop_clip]
  omega

/-- Off the front of a block that ends after a range's first byte, the range cuts what lies before this byte. -/
theorem cutFront_of_lt (hstart : range.start < block.stop) : block.cutFront range = range.start - block.offset := by
  rw [cutFront]
  split <;> omega

/-- What it leaves starts with this byte or with the block. -/
theorem offset_clip (hstart : range.start < block.stop) : (block.clip range).offset = max range.start block.offset := by
  show block.offset + block.cutFront range = _
  rw [cutFront_of_lt hstart]
  omega

/-- Before it cuts off the back of a block that starts no later than a range's last byte, the range leaves what lies
through this byte. -/
theorem lt_cutBack_iff (hlast : ∀ last, range.bound? = some last → block.offset ≤ last) (byte : Nat) :
    byte < block.offset + block.cutBack range ↔
      byte < block.stop ∧ ∀ last, range.bound? = some last → byte ≤ last := by
  have hstop : block.stop = block.offset + block.length := rfl
  rw [cutBack]
  cases hbound : range.bound? with
  | none => simp [hstop]
  | some last =>
    have hle := hlast last hbound
    simp only [Option.some.injEq, forall_eq']
    split <;> omega

/-- What a range leaves of a block that ends after the range's first byte lies from that byte on, and inside
the block. -/
theorem clip_between (hstart : range.start < block.stop) :
    max range.start block.offset ≤ (block.clip range).stop ∧ (block.clip range).stop ≤ block.stop := by
  refine ⟨?_, block.stop_clip_le range⟩
  rw [← offset_clip hstart]
  exact Nat.le_add_right _ _

end Block

end Reassembly
