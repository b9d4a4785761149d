import Mathlib.Data.List.Forall2
import Reassembly.Codec.Snappy.Frames
import Reassembly.Proofs.Codec.Aes
import Reassembly.Proofs.Codec.Snappy.Plan

/-!
# Snappy payloads are read back

A container gives its data back, and so it does with the padding of a cipher behind it: as the length of a
frame, padding announces more than there is. A raw block gives its data back only on its own. It is never
taken for a container, since it starts with a literal where the magic has the first byte of a copy.
-/

namespace Reassembly.Snappy

section Containers

/-- A frame is the first of those that it stands in front of. -/
theorem framesOf_frame {frame : Bytes} (hlength : frame.length < Nat.pow 256 4) (rest : Bytes) :
    framesOf (Bytes.ofNatBigEndian 4 frame.length ++ frame ++ rest) = frame :: framesOf rest := by
  obtain ⟨a, b, c, d, hlead⟩ : ∃ a b c d, Bytes.ofNatBigEndian 4 frame.length = [a, b, c, d] := by
    have hfour := Bytes.length_ofNatBigEndian 4 frame.length
    match Bytes.ofNatBigEndian 4 frame.length, hfour with
    | [a, b, c, d], _ => exact ⟨a, b, c, d, rfl⟩
  have hannounced : Bytes.bigEndian [a, b, c, d] = frame.length := by
    rw [← hlead, Bytes.bigEndian_ofNat hlength]
  rw [hlead]
  show framesOf (a :: b :: c :: d :: (frame ++ rest)) = _
  rw [framesOf]
  simp only [hannounced, List.take_left, List.drop_left, Nat.lt_irrefl, if_false]

/-- Fewer bytes than the length of a frame takes are no frame. -/
theorem framesOf_of_length_lt {bytes : Bytes} (h : bytes.length < 4) : framesOf bytes = [] := by
  match bytes, h with
  | [], _ | [_], _ | [_, _], _ | [_, _, _], _ => simp [framesOf]

/-- Few bytes that all have their number as value are no frame. -/
theorem framesOf_replicate {n : Nat} (hn : n ≤ Aes.blockSize) : framesOf (List.replicate n (UInt8.ofNat n)) = [] := by
  rw [Aes.blockSize] at hn
  have hbyte : (UInt8.ofNat n).toNat = n := UInt8.toNat_ofNat_of_lt' (by show n < 256; omega)
  by_cases hfew : n < 4
  · exact framesOf_of_length_lt (by rw [List.length_replicate]; exact hfew)
  · obtain ⟨m, rfl⟩ : ∃ m, n = m + 4 := ⟨n - 4, by omega⟩
    have hannounced : m < Bytes.bigEndian (List.replicate 4 (UInt8.ofNat (m + 4))) := by
      simp only [Bytes.bigEndian, List.replicate, List.foldl_cons, List.foldl_nil, hbyte]
      omega
    show framesOf (UInt8.ofNat (m + 4) :: UInt8.ofNat (m + 4) :: UInt8.ofNat (m + 4) :: UInt8.ofNat (m + 4) ::
      List.replicate m (UInt8.ofNat (m + 4))) = []
    rw [framesOf,
      if_pos (Nat.lt_of_le_of_lt (List.length_take_le' _ _) (by rw [List.length_replicate]; exact hannounced))]

/-- Padding is no frame. -/
theorem framesOf_padding (length : Nat) : framesOf (Aes.padding length) = [] := by
  obtain ⟨n, -, hn, hpadding⟩ := Aes.padding_eq length
  rw [hpadding, framesOf_replicate hn]

/-- A block that can be read is not empty. -/
theorem ne_nil_of_decode {block data : Bytes} (h : decode block = .ok data) : block ≠ [] := by
  rintro rfl
  simp [decode] at h

/-- A block in its frame. -/
def frame (block : Bytes) : Bytes := Bytes.ofNatBigEndian 4 block.length ++ block

/-- A container of blocks, behind a version of eight bytes that nobody checks. -/
def container (version : Bytes) (blocks : List Bytes) : Bytes := magic ++ version ++ blocks.flatMap frame

/-- Framed blocks are the frames that they stand in. -/
theorem framesOf_flatMap {blocks : List Bytes} (hsmall : ∀ block ∈ blocks, block.length < Nat.pow 256 4)
    (trail : Bytes) : framesOf (blocks.flatMap frame ++ trail) = blocks ++ framesOf trail := by
  induction blocks with
  | nil => rfl
  | cons block rest ih =>
    rw [List.flatMap_cons, List.append_assoc, frame, framesOf_frame (hsmall block List.mem_cons_self),
      ih fun other hother => hsmall other (List.mem_cons_of_mem _ hother)]
    rfl

/-- The frames of blocks give what the blocks give, one behind the other. -/
theorem decodeFrames_of_forall₂ {blocks pieces : List Bytes}
    (h : List.Forall₂ (fun block piece => decode block = .ok piece) blocks pieces) (number : Nat) :
    decodeFrames number blocks = .ok pieces.flatten := by
  induction h generalizing number with
  | nil => rfl
  | cons hfirst _ ih =>
    rw [decodeFrames, decodeFrame, if_neg (ne_nil_of_decode hfirst), hfirst]
    simp only
    rw [ih]
    rfl

/-- A container gives what its blocks give, and is not disturbed by bytes behind it that hold no frame. -/
theorem decodePayload_container {version trail : Bytes} {blocks pieces : List Bytes} (hversion : version.length = 8)
    (hsmall : ∀ block ∈ blocks, block.length < Nat.pow 256 4)
    (hreads : List.Forall₂ (fun block piece => decode block = .ok piece) blocks pieces)
    (htrail : framesOf trail = []) : decodePayload (container version blocks ++ trail) = .ok pieces.flatten := by
  have hmagic : magic <+: container version blocks ++ trail :=
    ⟨version ++ (blocks.flatMap frame ++ trail), by simp only [container, List.append_assoc]⟩
  have hheader : (magic ++ version).length = headerLength := by
    rw [List.length_append, hversion]
    rfl
  have hbody : (container version blocks ++ trail).drop headerLength = blocks.flatMap frame ++ trail := by
    rw [container, List.append_assoc _ (blocks.flatMap frame), List.drop_left' hheader]
  rw [decodePayload, if_pos hmagic, decodeContainer, if_neg, hbody, framesOf_flatMap hsmall, htrail,
    List.append_nil, decodeFrames_of_forall₂ hreads]
  rw [container, List.append_assoc _ (blocks.flatMap frame), List.length_append, hheader]
  exact Nat.not_lt.mpr (Nat.le_add_right _ _)

/-- The parts of data make it up. -/
theorem flatten_split {size : Nat} (hsize : 1 ≤ size) (data : Bytes) : (split size data).flatten = data := by
  fun_induction split size data with
  | case1 data hnone =>
    rcases hnone with rfl | hzero
    · rfl
    · omega
  | case2 data hsome ih => rw [List.flatten_cons, ih, List.take_append_drop]

/-- The parts of data are no longer than they are meant to be, and no longer than the data. -/
theorem length_of_mem_split {size : Nat} {data piece : Bytes} (h : piece ∈ split size data) :
    piece.length ≤ size ∧ piece.length ≤ data.length := by
  fun_induction split size data with
  | case1 => simp at h
  | case2 data hsome ih =>
    rcases List.mem_cons.mp h with rfl | h
    · rw [List.length_take]
      exact ⟨Nat.min_le_left _ _, Nat.min_le_right _ _⟩
    · obtain ⟨hpart, hwhole⟩ := ih h
      rw [List.length_drop] at hwhole
      exact ⟨hpart, Nat.le_trans hwhole (Nat.sub_le _ _)⟩

/-- A block is at least as long as its data, in the most that it may take. -/
theorem length_le_longestBlock (length : Nat) : length ≤ longestBlock length := by
  rw [longestBlock]
  omega

/-- The most that a block may take grows with its data. -/
theorem longestBlock_mono {length other : Nat} (h : length ≤ other) : longestBlock length ≤ longestBlock other := by
  rw [longestBlock, longestBlock]
  omega

/-- Data is written as a container of the blocks of its parts. -/
theorem encodeContainer_eq (data : Bytes) (frameSize : Nat) :
    encodeContainer data frameSize = container (Bytes.ofNatBigEndian 4 1 ++ Bytes.ofNatBigEndian 4 1)
      ((split (max frameSize 1) data).map encode) := by
  rw [encodeContainer, header, container, List.flatMap_map, List.append_assoc magic]
  rfl

/-- The blocks of the parts of data are short enough to be framed, when the longest of them is. -/
theorem length_block_lt {data block : Bytes} {frameSize : Nat}
    (hsmall : longestBlock (min data.length (max frameSize 1)) ≤ maxLength)
    (h : block ∈ (split (max frameSize 1) data).map encode) : block.length < Nat.pow 256 4 := by
  obtain ⟨piece, hpiece, rfl⟩ := List.mem_map.mp h
  obtain ⟨hpart, hwhole⟩ := length_of_mem_split hpiece
  have hlongest := longestBlock_mono (Nat.le_min.mpr ⟨hwhole, hpart⟩)
  exact Nat.lt_of_le_of_lt (Nat.le_trans (length_encode_le piece) (Nat.le_trans hlongest hsmall)) (by decide)

/-- The blocks of the parts of data give the parts. -/
theorem decode_blocks {data : Bytes} {frameSize : Nat}
    (hsmall : longestBlock (min data.length (max frameSize 1)) ≤ maxLength) :
    List.Forall₂ (fun block piece => decode block = .ok piece) ((split (max frameSize 1) data).map encode)
      (split (max frameSize 1) data) := by
  rw [List.forall₂_map_left_iff]
  refine List.forall₂_same.mpr fun piece hpiece => ?_
  obtain ⟨hpart, hwhole⟩ := length_of_mem_split hpiece
  have hlongest := longestBlock_mono (Nat.le_min.mpr ⟨hwhole, hpart⟩)
  exact decode_encode (Nat.le_trans (length_le_longestBlock _) (Nat.le_trans hlongest hsmall))

/-- A container gives its data back, and is not disturbed by bytes behind it that hold no frame. -/
theorem decodePayload_encodeContainer {data trail : Bytes} {frameSize : Nat}
    (hsmall : longestBlock (min data.length (max frameSize 1)) ≤ maxLength) (htrail : framesOf trail = []) :
    decodePayload (encodeContainer data frameSize ++ trail) = .ok data := by
  rw [encodeContainer_eq, decodePayload_container rfl (fun _ h => length_block_lt hsmall h)
    (decode_blocks hsmall) htrail, flatten_split (Nat.le_max_right _ _)]

end Containers

section RawBlocks

variable {data : Bytes}

/-- The elements of data that is not empty start with a literal. -/
theorem exists_literal_elementsOf (hsome : data ≠ []) :
    ∃ first rest, elementsOf data = .literal first :: rest ∧ first ≠ [] := by
  obtain ⟨hfit, hexpand⟩ := elementsOf_spec data
  cases helements : elementsOf data with
  | nil =>
    rw [helements] at hexpand
    exact absurd hexpand.symm hsome
  | cons element rest =>
    rw [helements, fitFrom, Bool.and_eq_true] at hfit
    cases element with
    | literal first => exact ⟨first, rest, rfl, by simpa [Element.fits] using hfit.1⟩
    | copy offset length =>
      have hfits := hfit.1
      simp only [Element.fits, Bool.and_eq_true, decide_eq_true_eq] at hfits
      omega

/-- The first byte of a literal tells that it is one. -/
theorem exists_tag_writeLiteral (hsome : data ≠ []) :
    ∃ tag rest, writeLiteral data = tag :: rest ∧ tag.toNat % 4 = 0 := by
  obtain ⟨n, hn⟩ : ∃ n, data.length = n + 1 :=
    ⟨data.length - 1, by have := List.length_pos_iff.mpr hsome; omega⟩
  rw [writeLiteral, hn]
  simp only
  split
  · next hshort =>
    refine ⟨_, _, rfl, ?_⟩
    rw [UInt8.toNat_ofNat_of_lt' (by show _ < 256; omega)]
    omega
  split
  · exact ⟨_, _, rfl, rfl⟩
  split
  · exact ⟨_, _, rfl, rfl⟩
  split
  · exact ⟨_, _, rfl, rfl⟩
  · exact ⟨_, _, rfl, rfl⟩

/-- A raw block is not taken for a container. -/
theorem not_magic_encode (hlong : data.length ≤ maxLength) (trail : Bytes) : ¬ magic <+: encode data ++ trail := by
  rintro ⟨rest, hrest⟩
  have hread := readVarint_encode hlong trail
  have hmagic : readVarint maxGroups (magic ++ rest) =
      some (10626, 0x4e :: 0x41 :: 0x50 :: 0x50 :: 0x59 :: 0x00 :: rest) := rfl
  rw [← hrest, hmagic, Option.some.injEq, Prod.mk.injEq] at hread
  obtain ⟨hlength, helements⟩ := hread
  have hsome : data ≠ [] := by
    rintro rfl
    simp at hlength
  obtain ⟨first, later, hfirst, hnonempty⟩ := exists_literal_elementsOf hsome
  obtain ⟨tag, body, htag, hkind⟩ := exists_tag_writeLiteral hnonempty
  rw [hfirst, List.flatMap_cons, Element.encode, htag] at helements
  obtain rfl : 0x4e = tag := (List.cons.inj helements).1
  simp at hkind

/-- A raw block on its own gives its data back. -/
theorem decodePayload_encode (hlong : data.length ≤ maxLength) : decodePayload (encode data) = .ok data := by
  have hmagic := not_magic_encode hlong []
  rw [List.append_nil] at hmagic
  rw [decodePayload, if_neg hmagic, decode_encode hlong]
  rfl

/-- A raw block with anything behind it is refused. -/
theorem decodePayload_encode_trail (hlong : data.length ≤ maxLength) {trail : Bytes} (htrail : trail ≠ []) :
    ∃ fault, decodePayload (encode data ++ trail) = .error (.block fault) := by
  obtain ⟨fault, hfault⟩ := decode_encode_trail hlong htrail
  refine ⟨fault, ?_⟩
  rw [decodePayload, if_neg (not_magic_encode hlong trail), hfault]
  rfl

end RawBlocks

end Reassembly.Snappy
