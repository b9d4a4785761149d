import Reassembly.Proofs.Clipping
import Reassembly.Selection

/-!
# Reckoning in words

Offsets, lengths and places are numbers without bounds in this library. A machine reckons with words of 64 bits: a sum
has to stay below their bound, a difference above zero, and the part that is taken of a list inside the list. What is
reckoned here under these checks comes to the same as without them, or to nothing. That it never comes to nothing takes
no more than that all ends of chunks and blocks are words.
-/

namespace Reassembly

namespace Word

/-- The sum of two words, if it is one. -/
def add? (a b : Nat) : Option Nat := if a + b < sizeBound then some (a + b) else none

/-- The difference of two words, if it is one. -/
def sub? (a b : Nat) : Option Nat := if b ≤ a then some (a - b) else none

/-- The part of a list from one place to another, if they are in order and in the list. -/
def slice? {α : Type} (list : List α) (front back : Nat) : Option (List α) :=
  if front ≤ back ∧ back ≤ list.length then some (list.extract front back) else none

/-- A sum below the bound is a word. -/
theorem add?_of_lt {a b : Nat} (h : a + b < sizeBound) : add? a b = some (a + b) := if_pos h

/-- A difference that is not negative is a word. -/
theorem sub?_of_le {a b : Nat} (h : b ≤ a) : sub? a b = some (a - b) := if_pos h

/-- A part of a list that lies in it can be taken. -/
theorem slice?_of_le {α : Type} {list : List α} {front back : Nat} (horder : front ≤ back)
    (hinside : back ≤ list.length) : slice? list front back = some (list.extract front back) := if_pos ⟨horder, hinside⟩

end Word

/-- The offset after a chunk, reckoned in words. -/
def Chunk.stop? (chunk : Chunk) : Option Nat := Word.add? chunk.offset chunk.length

/-- The end of a chunk below the bound can be reckoned in words. -/
theorem Chunk.stop?_of_lt {chunk : Chunk} (h : chunk.stop < sizeBound) : chunk.stop? = some chunk.stop :=
  Word.add?_of_lt h

namespace Block

/-- The offset after a block, reckoned in words. -/
def stop? (block : Block) : Option Nat := Word.add? block.offset block.length

/-- The bytes that a range cuts off the front of a block, reckoned in words. -/
def cutFront? (block : Block) (range : ByteRange) : Option Nat := do
  let stop ← block.stop?
  if block.offset < range.start ∧ range.start < stop then Word.sub? range.start block.offset else some 0

/-- The bytes that a range leaves before it cuts off the back of a block, reckoned in words. -/
def cutBack? (block : Block) (range : ByteRange) : Option Nat :=
  match range.bound? with
  | some last => do
    let stop ← block.stop?
    if block.offset ≤ last ∧ last < stop then do
      let before ← Word.sub? last block.offset
      Word.add? before 1
    else some block.length
  | none => some block.length

/-- The part of a block that lies in a range, reckoned in words. -/
def clip? (block : Block) (range : ByteRange) : Option Block := do
  let front ← block.cutFront? range
  let back ← block.cutBack? range
  let offset ← Word.add? block.offset front
  let data ← Word.slice? block.data front (max back front)
  return { block with offset, data }

variable {block : Block} {range : ByteRange}

/-- The end of a block below the bound can be reckoned in words. -/
theorem stop?_of_lt (h : block.stop < sizeBound) : block.stop? = some block.stop := Word.add?_of_lt h

/-- So can what a range cuts off its front. -/
theorem cutFront?_of_lt (h : block.stop < sizeBound) (range : ByteRange) :
    block.cutFront? range = some (block.cutFront range) := by
  rw [cutFront?, stop?_of_lt h, cutFront]
  simp only [Option.bind_eq_bind, Option.bind_some]
  split
  · next hinside => exact Word.sub?_of_le (Nat.le_of_lt hinside.1)
  · rfl

/-- So can what it leaves before it cuts off the back. -/
theorem cutBack?_of_lt (h : block.stop < sizeBound) (range : ByteRange) :
    block.cutBack? range = some (block.cutBack range) := by
  rw [cutBack?, cutBack]
  cases range.bound? with
  | none => rfl
  | some last =>
    simp only [stop?_of_lt h, Option.bind_eq_bind, Option.bind_some]
    split
    · next hinside =>
      have hsum : last - block.offset + 1 < sizeBound := by omega
      rw [Word.sub?_of_le hinside.1, Option.bind_some, Word.add?_of_lt hsum]
    · rfl

/-- A block that ends below the bound is clipped by every range, without a step that leaves the words or the data. -/
theorem clip?_of_lt (h : block.stop < sizeBound) (range : ByteRange) : block.clip? range = some (block.clip range) := by
  have hfront := block.cutFront_le range
  have hback := block.cutBack_le range
  have hoffset : block.offset + block.cutFront range < sizeBound := by
    have hstop : block.stop = block.offset + block.length := rfl
    omega
  have hdata : block.data.extract (block.cutFront range) (max (block.cutBack range) (block.cutFront range)) =
      (block.data.take (block.cutBack range)).drop (block.cutFront range) := by
    rw [List.drop_take, List.extract_eq_take_drop]
    congr 1
    omega
  rw [clip?, cutFront?_of_lt h, cutBack?_of_lt h]
  simp only [Option.bind_eq_bind, Option.bind_some]
  rw [Word.add?_of_lt hoffset, Option.bind_some,
    Word.slice?_of_le (Nat.le_max_right _ _) (Nat.max_le.mpr ⟨hback, hfront⟩), Option.bind_some, hdata]
  rfl

end Block

namespace Layout

/-- The place of the first chunk that ends after a byte, reckoned in words; all of them are passed when there is
none. -/
def firstPast? (byte : Nat) : List Chunk → Option Nat
  | [] => some 0
  | chunk :: rest => do
    let stop ← chunk.stop?
    if byte < stop then some 0 else (firstPast? byte rest).map (· + 1)

/-- The number of chunks through the first that ends after the last byte of a range, reckoned in words; all of them
when there is none. -/
def countReached? (chunks : List Chunk) (range : ByteRange) : Option Nat :=
  match range.bound? with
  | some last => (firstPast? last chunks).map fun place => min (place + 1) chunks.length
  | none => some chunks.length

/-- The chunks that a range selects, taken as a part of all of them and reckoned in words. -/
def overlapping? (chunks : List Chunk) (range : ByteRange) : Option (List Chunk) := do
  let front ← firstPast? range.start chunks
  let back ← countReached? chunks range
  Word.slice? chunks front (max back front)

variable {chunks : List Chunk} {range : ByteRange}

/-- The first chunk that ends after a byte is found when all ends are words. -/
theorem firstPast?_of_lt (h : ∀ chunk ∈ chunks, chunk.stop < sizeBound) (byte : Nat) :
    firstPast? byte chunks = some (chunks.findIdx (byte < ·.stop)) := by
  induction chunks with
  | nil => rfl
  | cons chunk rest ih =>
    obtain ⟨hfirst, hrest⟩ := List.forall_mem_cons.mp h
    rw [firstPast?, Chunk.stop?_of_lt hfirst, ih hrest, List.findIdx_cons]
    by_cases hpast : byte < chunk.stop <;> simp [hpast]

/-- The chunks through a byte are as many as it takes to get past it. -/
theorem throughByte_eq_take (last : Nat) (chunks : List Chunk) :
    throughByte last chunks = chunks.take (chunks.findIdx (last < ·.stop) + 1) := by
  induction chunks with
  | nil => rfl
  | cons chunk rest ih =>
    rw [throughByte, List.findIdx_cons, List.take_succ_cons]
    by_cases hpast : last < chunk.stop
    · simp [hpast]
    · simp [hpast, ih]

/-- The chunks that a range leaves of the first ones are a part of all of them. -/
theorem dropWhile_take (start count : Nat) (chunks : List Chunk) :
    (chunks.take count).dropWhile (fun chunk => chunk.stop ≤ start) =
      chunks.extract (chunks.findIdx (start < ·.stop)) (max count (chunks.findIdx (start < ·.stop))) := by
  have hpast : (fun chunk : Chunk => !decide (chunk.stop ≤ start)) = fun chunk => decide (start < chunk.stop) := by
    funext chunk
    rw [← decide_not]
    exact decide_eq_decide.mpr Nat.not_le
  rw [List.dropWhile_eq_drop_findIdx_not, hpast, List.findIdx_take, List.drop_take, List.extract_eq_take_drop]
  rcases Nat.le_total count (chunks.findIdx (start < ·.stop)) with hle | hle
  · rw [Nat.min_eq_left hle, Nat.max_eq_right hle, Nat.sub_self, Nat.sub_self, List.take_zero, List.take_zero]
  · rw [Nat.min_eq_right hle, Nat.max_eq_left hle]

/-- The chunks that a range reaches are counted when all ends are words. -/
theorem countReached?_of_lt (h : ∀ chunk ∈ chunks, chunk.stop < sizeBound) (range : ByteRange) :
    ∃ count, countReached? chunks range = some count ∧ count ≤ chunks.length ∧
      overlapping chunks range = (chunks.take count).dropWhile fun chunk => chunk.stop ≤ range.start := by
  rw [countReached?, overlapping]
  cases range.bound? with
  | none => exact ⟨_, rfl, Nat.le_refl _, by rw [List.take_length]⟩
  | some last =>
    refine ⟨_, congrArg (Option.map _) (firstPast?_of_lt h last), Nat.min_le_right _ _, ?_⟩
    simp only [throughByte_eq_take]
    rw [← List.take_eq_take_min]

/-- When all chunks end below the bound, a range selects its part of them without a step that leaves the words or the
chunks. -/
theorem overlapping?_of_lt (h : ∀ chunk ∈ chunks, chunk.stop < sizeBound) (range : ByteRange) :
    overlapping? chunks range = some (overlapping chunks range) := by
  obtain ⟨count, hcount, hle, hoverlapping⟩ := countReached?_of_lt h range
  rw [overlapping?, firstPast?_of_lt h, hcount]
  simp only [Option.bind_eq_bind, Option.bind_some]
  rw [Word.slice?_of_le (Nat.le_max_right _ _) (Nat.max_le.mpr ⟨hle, List.findIdx_le_length⟩), hoverlapping,
    dropWhile_take]

end Layout

end Reassembly
