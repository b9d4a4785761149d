import Reassembly.Bytes
import Reassembly.Reader

/-!
# Bit streams

Deflate packs bits into bytes, low bit first. A stream holds the bits of the current byte that
have not been read and the bytes behind it. Every read either returns a shorter stream or finds
that the bits run out.
-/

namespace Reassembly.Deflate

/-- Why a deflate stream is refused: it ends too early, or it breaks a rule of the format. -/
inductive Fault
  | incomplete
  | corrupt
  deriving Repr, DecidableEq

/-- The wording of a fault. -/
def Fault.message : Fault → String
  | .incomplete => "incomplete deflate stream"
  | .corrupt => "corrupt deflate stream"

/-- The bits of the current byte that are left, next one first, and the bytes behind them. -/
structure BitStream where
  pending : List Bool
  rest : Bytes

namespace BitStream

/-- A stream at the start of a byte string. -/
def ofBytes (bytes : Bytes) : BitStream := ⟨[], bytes⟩

/-- The number of bits that are left. -/
def size (s : BitStream) : Nat := s.pending.length + 8 * s.rest.length

/-- The bits of a byte, low bit first. -/
def bitsOfByte (b : UInt8) : List Bool := (List.range 8).map fun i => b.toNat.testBit i

/-- A byte has eight bits. -/
@[simp] theorem length_bitsOfByte (b : UInt8) : (bitsOfByte b).length = 8 := by
  simp [bitsOfByte]

end BitStream

/-- Bit streams are used up bit by bit. -/
instance : Source BitStream := ⟨BitStream.size⟩

/-- A reading of a bit stream. -/
abbrev BitReader (α : Type) := Reader Fault BitStream α

open Reader

/-- Read one bit. -/
def bit : BitReader Bool := fun s =>
  match s.pending with
  | b :: pending => .ok (b, { s with pending })
  | [] =>
    match s.rest with
    | [] => .error .incomplete
    | byte :: rest =>
      match BitStream.bitsOfByte byte with
      | [] => .error .incomplete
      | b :: pending => .ok (b, ⟨pending, rest⟩)

/-- Reading a bit leaves one bit less. -/
theorem size_bit {s t : BitStream} {b : Bool} (h : bit s = .ok (b, t)) : t.size + 1 = s.size := by
  rcases s with ⟨pending, rest⟩
  cases pending with
  | cons b pending =>
    simp only [bit, Except.ok.injEq, Prod.mk.injEq] at h
    obtain ⟨-, rfl⟩ := h
    simp [BitStream.size]
    omega
  | nil =>
    cases rest with
    | nil => simp [bit] at h
    | cons byte rest =>
      have eight := BitStream.length_bitsOfByte byte
      simp only [bit] at h
      split at h
      · simp at h
      · next b pending eq =>
        simp only [Except.ok.injEq, Prod.mk.injEq] at h
        obtain ⟨-, rfl⟩ := h
        simp only [eq, List.length_cons] at eight
        simp [BitStream.size]
        omega

/-- Reading a bit takes a bit. -/
theorem consumes_bit : Consumes bit := fun _ _ _ h => Nat.le_of_eq (size_bit h)

/-- Read a number of `width` bits, low bit first. -/
def bits : (width : Nat) → BitReader Nat
  | 0 => pure 0
  | width + 1 => do
    let b ← bit
    let high ← bits width
    return b.toNat + 2 * high

/-- Reading a number shrinks. -/
theorem shrinks_bits (width : Nat) : Shrinks (bits width) := by
  induction width with
  | zero => exact Shrinks.pure 0
  | succ width ih => exact consumes_bit.shrinks.bind fun _ => ih.bind fun _ => Shrinks.pure _

/-- Drop the bits that are left of the current byte. -/
def align : BitReader Unit := fun s => .ok ((), ⟨[], s.rest⟩)

/-- Dropping bits shrinks. -/
theorem shrinks_align : Shrinks align := by
  intro s a t h
  obtain ⟨-, rfl⟩ : a = () ∧ (⟨[], s.rest⟩ : BitStream) = t := by simpa [align] using h
  simp [Source.remaining, BitStream.size]

/-- Take whole bytes from behind the current byte. -/
def bytes (count : Nat) : BitReader Bytes := fun s =>
  let taken := s.rest.take count
  if taken.length < count then .error .incomplete
  else .ok (taken, { s with rest := s.rest.drop count })

/-- Taking bytes shrinks. -/
theorem shrinks_bytes (count : Nat) : Shrinks (bytes count) := by
  intro s a t h
  simp only [bytes] at h
  split at h
  · simp at h
  · simp only [Except.ok.injEq, Prod.mk.injEq] at h
    obtain ⟨-, rfl⟩ := h
    simp only [Source.remaining, BitStream.size, List.length_drop]
    omega

end Reassembly.Deflate
