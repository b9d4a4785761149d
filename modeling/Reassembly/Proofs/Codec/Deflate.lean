import Reassembly.Codec.Deflate

/-!
# Deflate looks no further than it reads

A reading that succeeds has seen the bits that it took and no others: with more bytes behind the stream it
gives the same value and leaves what it left before, with those bytes behind it. A reading that is refused for
anything but the end of the stream is refused for the same with more bytes behind it. Readings in sequence
inherit this from their parts, and the loops over steps, code lengths and blocks from one round of each.
That a stream ends where it ends, whatever follows it, is the case of a whole stream.
-/

namespace Reassembly.Deflate

open Reader

variable {α β : Type}

/-- The same stream with more bytes behind it. -/
def BitStream.followedBy (s : BitStream) (trail : Bytes) : BitStream := { s with rest := s.rest ++ trail }

/-- A reading is settled unless it runs out of bits: with more bytes behind the stream it comes to the same value and
leaves what it left before, with those bytes behind it, or is refused for the same fault. -/
def Settled (x : BitReader α) : Prop :=
  ∀ s trail, x s ≠ .error .incomplete →
    x (s.followedBy trail) = (x s).map fun read => (read.1, read.2.followedBy trail)

section Sequences

variable {x : BitReader α} {s t : BitStream} {a : α} {fault : Fault}

/-- A settled reading that succeeds has seen no more than it took. -/
theorem Settled.of_ok (hx : Settled x) (h : x s = .ok (a, t)) (trail : Bytes) :
    x (s.followedBy trail) = .ok (a, t.followedBy trail) := by
  rw [hx s trail (by simp [h]), h]
  rfl

/-- A settled reading that is refused for anything but the end of the stream stays refused. -/
theorem Settled.of_error (hx : Settled x) (h : x s = .error fault) (hlong : fault ≠ .incomplete) (trail : Bytes) :
    x (s.followedBy trail) = .error fault := by
  rw [hx s trail (by simpa [h] using hlong), h]
  rfl

/-- Reading nothing is settled. -/
theorem Settled.pure (a : α) : Settled (Pure.pure a) := fun _ _ _ => rfl

/-- Refusing is settled. -/
theorem Settled.refuse (fault : Fault) : Settled (refuse fault : BitReader α) := fun _ _ _ => rfl

/-- Settled readings are settled one after the other. -/
theorem Settled.bind {f : α → BitReader β} (hx : Settled x) (hf : ∀ a, Settled (f a)) : Settled (x >>= f) := by
  intro s trail hlong
  cases hs : x s with
  | error fault =>
    rw [bind_of_error hs] at hlong ⊢
    exact bind_of_error (hx.of_error hs (by simpa using hlong) trail)
  | ok read =>
    rw [bind_of_ok hs] at hlong ⊢
    rw [bind_of_ok (hx.of_ok hs trail), hf read.1 read.2 trail hlong]

end Sequences

section Bits

/-- Reading a bit is settled. -/
theorem settled_bit : Settled bit := by
  rintro ⟨pending, rest⟩ trail hlong
  cases pending with
  | cons first pending => rfl
  | nil =>
    cases rest with
    | nil => exact absurd rfl hlong
    | cons byte rest =>
      simp only [bit, BitStream.followedBy, List.cons_append]
      split <;> rfl

/-- Reading a number is settled. -/
theorem settled_bits (width : Nat) : Settled (bits width) := by
  induction width with
  | zero => exact Settled.pure 0
  | succ width ih => exact settled_bit.bind fun _ => ih.bind fun _ => Settled.pure _

/-- Dropping the bits that are left of a byte is settled. -/
theorem settled_align : Settled align := fun _ _ _ => rfl

/-- Taking whole bytes is settled. -/
theorem settled_bytes (count : Nat) : Settled (bytes count) := by
  intro s trail hlong
  simp only [bytes] at hlong ⊢
  split at hlong
  · exact absurd rfl hlong
  · next henough =>
    have hcount : count ≤ s.rest.length := by
      rw [List.length_take] at henough
      omega
    simp only [BitStream.followedBy, List.take_append_of_le_length hcount, List.drop_append_of_le_length hcount]
    rw [if_neg henough, if_neg henough]
    rfl

end Bits

section Symbols

/-- Reading a symbol is settled, from whatever length on. -/
theorem settled_readSymbolFrom (symbols : Array Nat) (counts : List Nat) (code first index : Nat) :
    Settled (readSymbolFrom symbols counts code first index) := by
  induction counts generalizing code first index with
  | nil => exact Settled.refuse _
  | cons count counts ih =>
    refine settled_bit.bind fun b => ?_
    dsimp only
    split
    · split
      · exact Settled.pure _
      · exact Settled.refuse _
    · exact ih _ _ _

/-- Reading a symbol is settled. -/
theorem Code.settled_read (code : Code) : Settled code.read := settled_readSymbolFrom _ _ _ _ _

/-- Reading extra bits is settled. -/
theorem settled_readExtra (entry : Option (Nat × Nat)) : Settled (readExtra entry) := by
  cases entry with
  | none => exact Settled.refuse _
  | some entry => exact (settled_bits _).bind fun _ => Settled.pure _

/-- Reading a copy is settled. -/
theorem settled_readCopy (distances : Code) (symbol : Nat) : Settled (readCopy distances symbol) :=
  (settled_readExtra _).bind fun _ => (Code.settled_read _).bind fun _ => (settled_readExtra _).bind fun _ =>
    Settled.pure _

/-- Reading a step of a coded block is settled. -/
theorem settled_readToken (literals distances : Code) : Settled (readToken literals distances) := by
  refine (Code.settled_read _).bind fun symbol => ?_
  split
  · exact Settled.pure _
  · split
    · exact Settled.pure _
    · exact settled_readCopy _ _

/-- Behind a step of a coded block, the block goes on or ends as the step says. -/
theorem readTokens_of_ok {literals distances : Code} {s t : BitStream} {token : Token} (out : Array UInt8) :
    readToken literals distances s = .ok (token, t) →
      readTokens literals distances out s =
        match token with
        | .literal b => readTokens literals distances (out.push b) t
        | .copy length distance => readTokens literals distances (repeatBack out distance length) t
        | .endOfBlock => .ok (out, t) := by
  intro h
  rw [readTokens]
  split
  · next fault hfault => simp [h] at hfault
  · next found u hfound =>
    obtain ⟨rfl, rfl⟩ : token = found ∧ t = u := by simpa [h] using hfound
    cases token <;> rfl

/-- A block is refused when one of its steps is. -/
theorem readTokens_of_error {literals distances : Code} {s : BitStream} {fault : Fault} (out : Array UInt8)
    (h : readToken literals distances s = .error fault) : readTokens literals distances out s = .error fault := by
  rw [readTokens]
  split
  · next found hfound =>
    obtain rfl : fault = found := by simpa [h] using hfound
    rfl
  · next hfound => simp [h] at hfound

/-- Reading the steps of a coded block is settled. -/
theorem settled_readTokens (literals distances : Code) (out : Array UInt8) :
    Settled (readTokens literals distances out) := by
  intro s trail hlong
  fun_induction readTokens literals distances out s with
  | case1 out s fault hu =>
    exact readTokens_of_error out ((settled_readToken _ _).of_error hu (by simpa using hlong) trail)
  | case2 out s u b hu _ _ ih =>
    rw [readTokens_of_ok out ((settled_readToken _ _).of_ok hu trail)]
    exact ih hlong
  | case3 out s u length distance hu _ _ ih =>
    rw [readTokens_of_ok out ((settled_readToken _ _).of_ok hu trail)]
    exact ih hlong
  | case4 out s u hu => exact readTokens_of_ok out ((settled_readToken _ _).of_ok hu trail)

end Symbols

section Codes

/-- Reading numbers of three bits is settled. -/
theorem settled_readThreeBits (count : Nat) : Settled (readThreeBits count) := by
  induction count with
  | zero => exact Settled.pure _
  | succ count ih => exact (settled_bits _).bind fun _ => ih.bind fun _ => Settled.pure _

/-- Reading a run of code lengths is settled. -/
theorem settled_readRun (code : Code) (previous : Option Nat) : Settled (readRun code previous) := by
  refine (Code.settled_read _).bind fun symbol => ?_
  split
  · exact Settled.pure _
  · split
    · split
      · exact Settled.refuse _
      · exact (settled_bits _).bind fun _ => Settled.pure _
    · split <;> exact (settled_bits _).bind fun _ => Settled.pure _

/-- Reading code lengths is settled. -/
theorem settled_readLengths (code : Code) (needed : Nat) (earlier : List Nat) :
    Settled (readLengths code needed earlier) := by
  induction needed using Nat.strongRecOn generalizing earlier with
  | ind needed ih =>
    rw [readLengths]
    split
    · exact Settled.pure _
    · refine (settled_readRun _ _).bind fun run => ?_
      dsimp only
      split
      · exact ih _ (by omega) _
      · exact Settled.refuse _

/-- Reading the codes of a block is settled. -/
theorem settled_readCodes (dialect : Dialect) : Settled (readCodes dialect) := by
  refine (settled_bits _).bind fun _ => (settled_bits _).bind fun _ => (settled_bits _).bind fun _ => ?_
  split
  · exact Settled.refuse _
  · refine (settled_readThreeBits _).bind fun _ => ?_
    split
    · exact Settled.refuse _
    · refine (settled_readLengths _ _ _).bind fun _ => ?_
      split
      · exact Settled.pure _
      · exact Settled.refuse _

end Codes

section Blocks

variable {dialect : Dialect}

/-- Reading a stored block is settled. -/
theorem settled_readStored (out : Array UInt8) : Settled (readStored out) := by
  refine settled_align.bind fun _ => (settled_bits _).bind fun _ => (settled_bits _).bind fun _ => ?_
  split
  · exact (settled_bytes _).bind fun _ => Settled.pure _
  · exact Settled.refuse _

/-- Reading a block is settled. -/
theorem settled_readBlock (dialect : Dialect) (out : Array UInt8) : Settled (readBlock dialect out) := by
  refine settled_bit.bind fun _ => (settled_bits _).bind fun _ => ?_
  split
  · exact (settled_readStored _).bind fun _ => Settled.pure _
  · exact (settled_readTokens _ _ _).bind fun _ => Settled.pure _
  · exact (settled_readCodes _).bind fun _ => (settled_readTokens _ _ _).bind fun _ => Settled.pure _
  · exact Settled.refuse _

/-- Blocks end with the one that is marked as the last. -/
theorem readBlocks_last {out more : Array UInt8} {s t : BitStream}
    (h : readBlock dialect out s = .ok ((true, more), t)) : readBlocks dialect out s = .ok (more, t) := by
  rw [readBlocks]
  split
  · simp_all
  · simp_all

/-- Blocks go on behind one that is not marked as the last. -/
theorem readBlocks_more {out more : Array UInt8} {s t : BitStream}
    (h : readBlock dialect out s = .ok ((false, more), t)) :
    readBlocks dialect out s = readBlocks dialect more t := by
  rw [readBlocks]
  split
  · simp_all
  · simp_all

/-- Blocks are refused when the first is. -/
theorem readBlocks_of_error {out : Array UInt8} {s : BitStream} {fault : Fault}
    (h : readBlock dialect out s = .error fault) : readBlocks dialect out s = .error fault := by
  rw [readBlocks]
  split
  · simp_all
  · simp_all

/-- Reading blocks up to the last is settled. -/
theorem settled_readBlocks (dialect : Dialect) (out : Array UInt8) : Settled (readBlocks dialect out) := by
  intro s trail hlong
  fun_induction readBlocks dialect out s with
  | case1 out s fault hu =>
    exact readBlocks_of_error ((settled_readBlock dialect out).of_error hu (by simpa using hlong) trail)
  | case2 out s more u hu _ => exact readBlocks_last ((settled_readBlock dialect out).of_ok hu trail)
  | case3 out s last more u hu _ hlast ih =>
    obtain rfl : last = false := by simpa using hlast
    rw [readBlocks_more ((settled_readBlock dialect out).of_ok hu trail), ih hlong]

/-- A stream ends where it ends, in every dialect and whatever follows it, unless that is too early. -/
theorem inflate_append {source : Bytes} (hlong : inflate dialect source ≠ .error .incomplete) (trail : Bytes) :
    inflate dialect (source ++ trail) = (inflate dialect source).map fun read => (read.1, read.2 ++ trail) := by
  have hsource : BitStream.ofBytes (source ++ trail) = (BitStream.ofBytes source).followedBy trail := rfl
  have hread : readBlocks dialect #[] (BitStream.ofBytes source) ≠ .error .incomplete := by
    intro hshort
    rw [inflate, hshort] at hlong
    exact hlong rfl
  rw [inflate, inflate, hsource, settled_readBlocks dialect #[] _ trail hread]
  cases readBlocks dialect #[] (BitStream.ofBytes source) <;> rfl

end Blocks

end Reassembly.Deflate
