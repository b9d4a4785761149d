import Reassembly.Proofs.Codec.Snappy.Frames
import Reassembly.Proofs.Result

/-!
# Parts of Snappy payloads

A block that is cut short cannot be read to its declared length, so a part of a block that can be read at
all gives what the block gives. A container that is cut short loses frames at its end, and gives what the
others give. Cut inside its magic it is taken for a block, and refused as one. So what a part of a payload
gives, if anything, is a part of what the payload gives.
-/

namespace Reassembly.Snappy

section Stability

variable {source rest trail : Bytes}

/-- A number does not depend on what stands behind it. -/
theorem readVarint_append {groups n : Nat} (h : readVarint groups source = some (n, rest)) (trail : Bytes) :
    readVarint groups (source ++ trail) = some (n, rest ++ trail) := by
  induction groups generalizing source n with
  | zero => simp [readVarint] at h
  | succ groups ih =>
    cases source with
    | nil => simp [readVarint] at h
    | cons b source =>
      rw [List.cons_append, readVarint]
      rw [readVarint] at h
      split at h
      · next hlast =>
        obtain ⟨rfl, rfl⟩ : b.toNat = n ∧ source = rest := by simpa using h
        rw [if_pos hlast]
      · next hmore =>
        obtain ⟨⟨high, left⟩, hhigh, heq⟩ := Option.map_eq_some_iff.mp h
        obtain ⟨rfl, rfl⟩ : b.toNat - 128 + 128 * high = n ∧ left = rest := by simpa using heq
        rw [if_neg hmore, ih hhigh]
        rfl

variable {element : Element} {room written : Nat}

/-- A short literal does not depend on what stands behind it. -/
theorem readShortLiteral_stable {length : Nat} (h : readShortLiteral length room source = .ok (element, rest))
    (trail : Bytes) : readShortLiteral length room (source ++ trail) = .ok (element, rest ++ trail) := by
  simp only [readShortLiteral] at h ⊢
  split at h
  · simp at h
  · next henough =>
    obtain ⟨rfl, rfl⟩ := Prod.mk.inj (Except.ok.inj h)
    have hlength : length ≤ source.length := by
      rw [List.length_take] at henough
      omega
    rw [List.take_append_of_le_length hlength, List.drop_append_of_le_length hlength, if_neg henough]

/-- A long literal does not depend on what stands behind it. -/
theorem readLongLiteral_stable {width : Nat} (h : readLongLiteral width room source = .ok (element, rest))
    (trail : Bytes) : readLongLiteral width room (source ++ trail) = .ok (element, rest ++ trail) := by
  simp only [readLongLiteral] at h ⊢
  split at h
  · simp at h
  · next hwidth =>
    split at h
    · simp at h
    · next henough =>
      obtain ⟨rfl, rfl⟩ := Prod.mk.inj (Except.ok.inj h)
      have hlead : width ≤ source.length := by
        rw [List.length_take] at hwidth
        omega
      have hlength : Bytes.littleEndian (source.take width) + 1 ≤ (source.drop width).length := by
        rw [List.length_take] at henough
        omega
      rw [List.take_append_of_le_length hlead, List.drop_append_of_le_length hlead, if_neg hwidth,
        List.take_append_of_le_length hlength, List.drop_append_of_le_length hlength, if_neg henough]

/-- A copy does not depend on what stands behind it. -/
theorem readCopy_stable {width high length : Nat}
    (h : readCopy width high length written room source = .ok (element, rest)) (trail : Bytes) :
    readCopy width high length written room (source ++ trail) = .ok (element, rest ++ trail) := by
  simp only [readCopy] at h ⊢
  split at h
  · simp at h
  · next hwidth =>
    split at h
    · simp at h
    · next hback =>
      split at h
      · simp at h
      · next hroom =>
        obtain ⟨rfl, rfl⟩ := Prod.mk.inj (Except.ok.inj h)
        have hlead : width ≤ source.length := by
          rw [List.length_take] at hwidth
          omega
        rw [List.take_append_of_le_length hlead, List.drop_append_of_le_length hlead, if_neg hwidth,
          if_neg hback, if_neg hroom]

/-- An element does not depend on what stands behind it. -/
theorem readElement_stable {tag : UInt8} (h : readElement tag written room source = .ok (element, rest))
    (trail : Bytes) : readElement tag written room (source ++ trail) = .ok (element, rest ++ trail) := by
  simp only [readElement] at h ⊢
  split at h
  · split at h
    · next hshort =>
      rw [if_pos hshort]
      exact readShortLiteral_stable h trail
    · next hlong =>
      rw [if_neg hlong]
      exact readLongLiteral_stable h trail
  · exact readCopy_stable h trail
  · exact readCopy_stable h trail
  · exact readCopy_stable h trail

/-- Reading elements to their end and then what stands behind them is reading them together. -/
theorem readElements_append {declared : Nat} {out more : Array UInt8}
    (h : readElements declared source out = .ok more) (trail : Bytes) :
    readElements declared (source ++ trail) out = readElements declared trail more := by
  fun_induction readElements declared source out with
  | case1 out =>
    obtain rfl := Except.ok.inj h
    rfl
  | case2 => simp at h
  | case3 out tag source element rest hread _ ih =>
    rw [List.cons_append, readElements_cons (readElement_stable hread trail)]
    exact ih h

end Stability

section Growth

/-- Repeating back keeps what has been written. -/
theorem repeatBack_isPrefix (out : Array UInt8) (offset length : Nat) :
    out.toList <+: (repeatBack out offset length).toList := by
  induction length generalizing out with
  | zero => exact List.prefix_rfl
  | succ length ih =>
    refine List.IsPrefix.trans ?_ (ih _)
    rw [Array.toList_push]
    exact List.prefix_append _ _

/-- Writing an element keeps what has been written. -/
theorem Element.write_isPrefix (element : Element) (out : Array UInt8) :
    out.toList <+: (element.write out).toList := by
  cases element with
  | literal data =>
    show out.toList <+: (out ++ data).toList
    rw [Array.toList_appendList]
    exact List.prefix_append _ _
  | copy offset length => exact repeatBack_isPrefix out offset length

/-- Reading elements keeps what has been written. -/
theorem readElements_isPrefix {declared : Nat} {source : Bytes} {out more : Array UInt8}
    (h : readElements declared source out = .ok more) : out.toList <+: more.toList := by
  fun_induction readElements declared source out with
  | case1 out =>
    obtain rfl := Except.ok.inj h
    exact List.prefix_rfl
  | case2 => simp at h
  | case3 out tag source element rest hread _ ih => exact (element.write_isPrefix out).trans (ih h)

end Growth

section Blocks

/-- A block that can be read declares the length of its data, and its elements write the data. -/
theorem decode_eq_ok {block data : Bytes} (h : decode block = .ok data) :
    ∃ source out, readVarint maxGroups block = some (data.length, source) ∧
      readElements data.length source #[] = .ok out ∧ out.toList = data := by
  rw [decode] at h
  split at h
  · simp at h
  · split at h
    · simp at h
    · next declared source hdeclared =>
      split at h
      · simp at h
      · split at h
        · simp at h
        · next out hout =>
          split at h
          · next hsize =>
            obtain rfl := Except.ok.inj h
            have hlength : out.toList.length = declared := by rw [Array.length_toList, hsize]
            exact ⟨source, out, by rw [hlength]; exact hdeclared, by rw [hlength]; exact hout, rfl⟩
          · simp at h

/-- A part of a block that can be read gives what the block gives. -/
theorem decode_eq_of_isPrefix {part block data found : Bytes} (hpart : part <+: block)
    (hfound : decode part = .ok found) (hdata : decode block = .ok data) : found = data := by
  obtain ⟨trail, rfl⟩ := hpart
  obtain ⟨source, out, hdeclared, hread, rfl⟩ := decode_eq_ok hfound
  obtain ⟨whole, all, hwhole, hall, rfl⟩ := decode_eq_ok hdata
  rw [readVarint_append hdeclared trail] at hwhole
  obtain ⟨hlength, rfl⟩ : out.toList.length = all.toList.length ∧ source ++ trail = whole := by
    simpa using hwhole
  rw [← hlength, readElements_append hread] at hall
  exact (readElements_isPrefix hall).eq_of_length hlength

/-- Nothing can be copied from before the start. -/
theorem readCopy_start (width high length room : Nat) (source : Bytes) :
    ∃ fault, readCopy width high length 0 room source = .error fault := by
  simp only [readCopy]
  split
  · exact ⟨_, rfl⟩
  · rw [if_pos (Nat.eq_zero_or_pos _)]
    exact ⟨_, rfl⟩

/-- The magic, read as a block, declares a length and then copies, so that neither it nor what it starts can
be read as a block. -/
theorem decode_of_copy (source : Bytes) : ∃ fault, decode (0x82 :: 0x53 :: 0x4e :: source) = .error fault := by
  cases hdecode : decode (0x82 :: 0x53 :: 0x4e :: source) with
  | error fault => exact ⟨fault, rfl⟩
  | ok data =>
    obtain ⟨elements, out, hdeclared, hread, -⟩ := decode_eq_ok hdecode
    have hlength : readVarint maxGroups (0x82 :: 0x53 :: 0x4e :: source) = some (10626, 0x4e :: source) := rfl
    rw [hlength] at hdeclared
    obtain ⟨-, rfl⟩ := Prod.mk.inj (Option.some.inj hdeclared)
    obtain ⟨fault, hfault⟩ := readCopy_start 2 0 20 data.length source
    have hfirst : readElement 0x4e 0 data.length source = .error fault := hfault
    rw [readElements] at hread
    split at hread
    · simp at hread
    · next element left hleft =>
      simp only [List.size_toArray, List.length_nil, Nat.sub_zero] at hleft
      rw [hfirst] at hleft
      simp at hleft

/-- What starts as a container does cannot be read as a block. -/
theorem decode_of_magic {block : Bytes} (h : magic <+: block) : ∃ fault, decode block = .error fault := by
  obtain ⟨rest, rfl⟩ := h
  exact decode_of_copy _

/-- What is cut off inside the magic cannot be read as a block either. -/
theorem decode_of_isPrefix_magic {part : Bytes} (h : part <+: magic) : ∃ fault, decode part = .error fault := by
  match part, h with
  | [], _ => exact ⟨.empty, rfl⟩
  | [a], h =>
    obtain rfl : a = 0x82 := by simpa [magic] using h
    exact ⟨.header, rfl⟩
  | [a, b], h =>
    obtain ⟨rfl, rfl⟩ : a = 0x82 ∧ b = 0x53 := by simpa [magic] using h
    cases hdecode : decode [0x82, 0x53] with
    | error fault => exact ⟨fault, rfl⟩
    | ok data =>
      -- Both bytes belong to the length, and no element stands behind them.
      obtain ⟨elements, out, hdeclared, hread, hout⟩ := decode_eq_ok hdecode
      have hlength : readVarint maxGroups [0x82, 0x53] = some (10626, []) := rfl
      rw [hlength] at hdeclared
      obtain ⟨hdata, rfl⟩ := Prod.mk.inj (Option.some.inj hdeclared)
      rw [readElements] at hread
      obtain rfl := Except.ok.inj hread
      subst hout
      simp at hdata
  | a :: b :: c :: rest, h =>
    obtain ⟨rfl, rfl, rfl, -⟩ : a = 0x82 ∧ b = 0x53 ∧ c = 0x4e ∧ rest <+: magic.drop 3 := by
      simpa [magic] using h
    exact decode_of_copy rest

end Blocks

section Containers

/-- The frames of a part are the first frames of the whole. -/
theorem framesOf_isPrefix (part trail : Bytes) : framesOf part <+: framesOf (part ++ trail) := by
  fun_induction framesOf part with
  | case1 a b c d rest length frame hshort => exact List.nil_prefix
  | case2 a b c d rest length frame henough ih =>
    have hlength : length ≤ rest.length := by
      rw [List.length_take] at henough
      omega
    show _ <+: framesOf (a :: b :: c :: d :: (rest ++ trail))
    rw [framesOf]
    rw [List.take_append_of_le_length hlength, List.drop_append_of_le_length hlength, if_neg henough]
    exact (List.prefix_cons_inj _).mpr ih
  | case3 => exact List.nil_prefix

/-- The first of some frames give the first part of what all of them give. -/
theorem decodeFrames_isPrefix {part whole : List Bytes} {number : Nat} {found data : Bytes} (h : part <+: whole)
    (hfound : decodeFrames number part = .ok found) (hdata : decodeFrames number whole = .ok data) :
    found <+: data := by
  induction part generalizing whole number found data with
  | nil =>
    obtain rfl := Except.ok.inj hfound
    exact List.nil_prefix
  | cons frame part ih =>
    obtain ⟨rest, rfl⟩ := h
    rw [List.cons_append, decodeFrames] at hdata
    rw [decodeFrames] at hfound
    cases hframe : decodeFrame frame with
    | error fault => simp [hframe] at hfound
    | ok first =>
      simp only [hframe] at hfound hdata
      obtain ⟨later, hlater, hjoined⟩ := Result.bind_eq_ok_iff.mp hfound
      obtain ⟨all, hall, hwhole⟩ := Result.bind_eq_ok_iff.mp hdata
      obtain rfl := Except.ok.inj hjoined
      obtain rfl := Except.ok.inj hwhole
      exact (List.prefix_append_right_inj first).mpr (ih (List.prefix_append _ _) hlater hall)

/-- A part of a payload that can be read gives a part of what the payload gives. -/
theorem decodePayload_isPrefix {part payload found data : Bytes} (h : part <+: payload)
    (hfound : decodePayload part = .ok found) (hdata : decodePayload payload = .ok data) : found <+: data := by
  obtain ⟨trail, rfl⟩ := h
  rw [decodePayload] at hfound hdata
  by_cases hpart : magic <+: part
  · rw [if_pos hpart, decodeContainer] at hfound
    rw [if_pos (hpart.trans (List.prefix_append _ _)), decodeContainer] at hdata
    split at hfound
    · simp at hfound
    · next hheader =>
      split at hdata
      · simp at hdata
      · rw [List.drop_append_of_le_length (Nat.le_of_not_lt hheader)] at hdata
        exact decodeFrames_isPrefix (framesOf_isPrefix _ _) hfound hdata
  · rw [if_neg hpart, Result.mapError_eq_ok_iff] at hfound
    by_cases hwhole : magic <+: part ++ trail
    · -- The part ends inside the magic.
      have hinside : part <+: magic :=
        (List.prefix_or_prefix_of_prefix (List.prefix_append part trail) hwhole).resolve_right hpart
      obtain ⟨fault, hfault⟩ := decode_of_isPrefix_magic hinside
      simp [hfault] at hfound
    · rw [if_neg hwhole, Result.mapError_eq_ok_iff] at hdata
      obtain rfl := decode_eq_of_isPrefix (List.prefix_append _ _) hfound hdata
      exact List.prefix_rfl

end Containers

end Reassembly.Snappy
