import Mathlib.Algebra.GroupWithZero.Nat
import Reassembly.Codec.Snappy.Plan
import Reassembly.Proofs.Bytes

/-!
# Raw Snappy blocks are read back

Elements are written so that reading them writes the same data. A block that is read to its declared
length has no room left, and then no element can be read at all: whatever stands behind a block makes it
unreadable.
-/

namespace Reassembly.Snappy

section Elements

/-- Repeating back writes as many bytes as it is told to. -/
theorem size_repeatBack (out : Array UInt8) (offset length : Nat) :
    (repeatBack out offset length).size = out.size + length := by
  induction length generalizing out with
  | zero => rfl
  | succ length ih => rw [repeatBack, ih, Array.size_push, Nat.add_assoc, Nat.add_comm 1]

/-- Repeating back can be done in two parts. -/
theorem repeatBack_add (out : Array UInt8) (offset first second : Nat) :
    repeatBack (repeatBack out offset first) offset second = repeatBack out offset (first + second) := by
  induction first generalizing out with
  | zero => rw [repeatBack, Nat.zero_add]
  | succ first ih => rw [repeatBack, ih, Nat.succ_add, repeatBack]

/-- An element writes as many bytes as it has. -/
theorem Element.size_write (element : Element) (out : Array UInt8) :
    (element.write out).size = out.size + element.length := by
  cases element with
  | literal data =>
    show (out ++ data).size = out.size + data.length
    rw [← Array.length_toList, Array.toList_appendList, List.length_append, Array.length_toList]
  | copy offset count => exact size_repeatBack out offset count

/-- Elements write as many bytes as they have together. -/
theorem size_foldl_write (elements : List Element) (out : Array UInt8) :
    (elements.foldl Element.write out).size = out.size + (elements.map Element.length).sum := by
  induction elements generalizing out with
  | nil => rfl
  | cons element rest ih => rw [List.foldl_cons, ih, Element.size_write, List.map_cons, List.sum_cons, Nat.add_assoc]

end Elements

section Varints

/-- A number is read back from its groups. -/
theorem readVarint_writeVarint {groups n : Nat} (h : n < Nat.pow 128 (groups + 1)) (rest : Bytes) :
    readVarint (groups + 1) (writeVarint (groups + 1) n ++ rest) = some (n, rest) := by
  induction groups generalizing n with
  | zero =>
    have hsmall : n < 128 := h
    have hbyte : (UInt8.ofNat n).toNat = n := UInt8.toNat_ofNat_of_lt' (Nat.lt_trans hsmall (by decide))
    have hlow : UInt8.ofNat n < 0x80 := by
      rw [UInt8.lt_iff_toNat_lt, hbyte]
      exact hsmall
    rw [writeVarint, if_pos hsmall, List.cons_append, readVarint, if_pos hlow, hbyte]
    rfl
  | succ groups ih =>
    rw [writeVarint]
    by_cases hsmall : n < 128
    · have hbyte : (UInt8.ofNat n).toNat = n := UInt8.toNat_ofNat_of_lt' (Nat.lt_trans hsmall (by decide))
      have hlow : UInt8.ofNat n < 0x80 := by
        rw [UInt8.lt_iff_toNat_lt, hbyte]
        exact hsmall
      rw [if_pos hsmall, List.cons_append, readVarint, if_pos hlow, hbyte]
      rfl
    · have hbyte : (UInt8.ofNat (n % 128 + 128)).toNat = n % 128 + 128 :=
        UInt8.toNat_ofNat_of_lt' (by show _ < 256; omega)
      have hhigh : ¬ UInt8.ofNat (n % 128 + 128) < 0x80 := by
        rw [UInt8.lt_iff_toNat_lt, hbyte]
        show ¬ _ < 128
        omega
      have hrest : n / 128 < Nat.pow 128 (groups + 1) := by
        change n < Nat.pow 128 (groups + 1) * 128 at h
        exact Nat.div_lt_of_lt_mul (by rwa [Nat.mul_comm] at h)
      rw [if_neg hsmall, List.cons_append, readVarint, if_neg hhigh, ih hrest, hbyte, Option.map_some]
      simp only [Option.some.injEq, Prod.mk.injEq, and_true]
      omega

end Varints

section Reading

variable {declared room written : Nat} {out : Array UInt8}

/-- Reading goes on behind an element with what it has written. -/
theorem readElements_cons {tag : UInt8} {source rest : Bytes} {element : Element}
    (h : readElement tag out.size (declared - out.size) source = .ok (element, rest)) :
    readElements declared (tag :: source) out = readElements declared rest (element.write out) := by
  rw [readElements]
  split
  · next fault hfault => simp [h] at hfault
  · next found left hfound =>
    obtain ⟨rfl, rfl⟩ : element = found ∧ rest = left := by simpa [h] using hfound
    rfl

/-- Reading a literal whose length stands in its first byte. -/
theorem readShortLiteral_append {data : Bytes} (hroom : data.length ≤ room) (rest : Bytes) :
    readShortLiteral data.length room (data ++ rest) = .ok (.literal data, rest) := by
  rw [readShortLiteral]
  simp only [List.take_left, List.drop_left]
  rw [if_neg (by omega)]

/-- Reading a literal whose length stands in bytes of its own. -/
theorem readLongLiteral_append {width : Nat} {data : Bytes} (hsome : data ≠ [])
    (hwidth : data.length ≤ Nat.pow 256 width) (hroom : data.length ≤ room) (rest : Bytes) :
    readLongLiteral width room (Bytes.ofNatLittleEndian width (data.length - 1) ++ (data ++ rest)) =
      .ok (.literal data, rest) := by
  have hpos := List.length_pos_iff.mpr hsome
  have htake : (Bytes.ofNatLittleEndian width (data.length - 1) ++ (data ++ rest)).take width =
      Bytes.ofNatLittleEndian width (data.length - 1) := List.take_left' (Bytes.length_ofNatLittleEndian _ _)
  have hdrop : (Bytes.ofNatLittleEndian width (data.length - 1) ++ (data ++ rest)).drop width = data ++ rest :=
    List.drop_left' (Bytes.length_ofNatLittleEndian _ _)
  have hlength : Bytes.littleEndian (Bytes.ofNatLittleEndian width (data.length - 1)) + 1 = data.length := by
    rw [Bytes.littleEndian_ofNat (by omega)]
    omega
  rw [readLongLiteral]
  simp only [htake, hdrop, Bytes.length_ofNatLittleEndian, Nat.lt_irrefl, if_false, hlength, List.take_left,
    List.drop_left, false_or]
  rw [if_neg (Nat.not_lt.mpr hroom)]

/-- Reading a copy whose offset lies within what has been written. -/
theorem readCopy_append {width high low length : Nat} (hlow : low < Nat.pow 256 width)
    (hpos : 1 ≤ high * Nat.pow 256 width + low) (hback : high * Nat.pow 256 width + low ≤ written)
    (hroom : length ≤ room) (rest : Bytes) :
    readCopy width high length written room (Bytes.ofNatLittleEndian width low ++ rest) =
      .ok (.copy (high * Nat.pow 256 width + low) length, rest) := by
  have htake : (Bytes.ofNatLittleEndian width low ++ rest).take width = Bytes.ofNatLittleEndian width low :=
    List.take_left' (Bytes.length_ofNatLittleEndian _ _)
  have hdrop : (Bytes.ofNatLittleEndian width low ++ rest).drop width = rest :=
    List.drop_left' (Bytes.length_ofNatLittleEndian _ _)
  rw [readCopy]
  simp only [htake, hdrop, Bytes.length_ofNatLittleEndian, Nat.lt_irrefl, if_false, Bytes.littleEndian_ofNat hlow]
  rw [if_neg (by omega), if_neg (by omega)]

/-- Reading by a first byte that stands for a literal and its length. -/
theorem readElement_shortLiteral {tag : UInt8} {n : Nat} (htag : tag.toNat = 4 * n) (hshort : n < 60)
    (source : Bytes) : readElement tag written room source = readShortLiteral (n + 1) room source := by
  have hkind : tag.toNat % 4 = 0 := by omega
  have hhigh : tag.toNat / 4 = n := by omega
  simp only [readElement, hkind, hhigh, if_pos hshort]

/-- Reading by a first byte that stands for a literal and the number of its length bytes. -/
theorem readElement_longLiteral {tag : UInt8} {width : Nat} (htag : tag.toNat = 4 * (59 + width))
    (hwidth : 1 ≤ width) (source : Bytes) :
    readElement tag written room source = readLongLiteral width room source := by
  have hkind : tag.toNat % 4 = 0 := by omega
  have hhigh : tag.toNat / 4 = 59 + width := by omega
  simp only [readElement, hkind, hhigh]
  rw [if_neg (by omega), Nat.add_sub_cancel_left]

/-- Reading by a first byte that stands for a copy, its length, and the high bits of its offset. -/
theorem readElement_shortCopy {tag : UInt8} {high low : Nat} (htag : tag.toNat = 4 * (8 * high + low) + 1)
    (hlow : low < 8) (source : Bytes) :
    readElement tag written room source = readCopy 1 high (low + 4) written room source := by
  have hkind : tag.toNat % 4 = 1 := by omega
  have hhigh : tag.toNat / 4 / 8 = high := by omega
  have hlength : tag.toNat / 4 % 8 = low := by omega
  simp only [readElement, hkind, hhigh, hlength]

/-- Reading by a first byte that stands for a copy with an offset of two bytes. -/
theorem readElement_farCopy {tag : UInt8} {n : Nat} (htag : tag.toNat = 4 * n + 2) (source : Bytes) :
    readElement tag written room source = readCopy 2 0 (n + 1) written room source := by
  have hkind : tag.toNat % 4 = 2 := by omega
  have hhigh : tag.toNat / 4 = n := by omega
  simp only [readElement, hkind, hhigh]

/-- A literal is read back. -/
theorem readElements_literal {data : Bytes} (hsome : data ≠ []) (hlong : data.length ≤ maxLength)
    (hroom : out.size + data.length ≤ declared) (rest : Bytes) :
    readElements declared (writeLiteral data ++ rest) out = readElements declared rest (out ++ data) := by
  have hpos := List.length_pos_iff.mpr hsome
  rw [maxLength] at hlong
  have hleft : data.length ≤ declared - out.size := by omega
  obtain ⟨n, hn⟩ : ∃ n, data.length = n + 1 := ⟨data.length - 1, by omega⟩
  have hbefore : n = data.length - 1 := by omega
  have hlongTag : ∀ {tag : UInt8} {width : Nat}, tag.toNat = 4 * (59 + width) → 1 ≤ width →
      n < Nat.pow 256 width → readElements declared
        (tag :: (Bytes.ofNatLittleEndian width n ++ data) ++ rest) out = readElements declared rest (out ++ data) := by
    intro tag width htag hwidth hfits
    have hread : readElement tag out.size (declared - out.size)
        (Bytes.ofNatLittleEndian width n ++ data ++ rest) = .ok (.literal data, rest) := by
      rw [List.append_assoc, readElement_longLiteral htag hwidth, hbefore]
      exact readLongLiteral_append hsome (by omega) hleft rest
    exact readElements_cons hread
  rw [writeLiteral, hn]
  simp only
  by_cases hshort : n < 60
  · rw [if_pos hshort]
    have htag : (UInt8.ofNat (n * 4)).toNat = 4 * n := by
      rw [UInt8.toNat_ofNat_of_lt' (by show _ < 256; omega), Nat.mul_comm]
    have hread : readElement (UInt8.ofNat (n * 4)) out.size (declared - out.size) (data ++ rest) =
        .ok (.literal data, rest) := by
      rw [readElement_shortLiteral htag hshort, ← hn]
      exact readShortLiteral_append hleft rest
    exact readElements_cons hread
  rw [if_neg hshort]
  by_cases hone : n < 256
  · rw [if_pos hone]
    exact hlongTag rfl (by decide) hone
  rw [if_neg hone]
  by_cases htwo : n < 65536
  · rw [if_pos htwo]
    exact hlongTag rfl (by decide) htwo
  rw [if_neg htwo]
  by_cases hthree : n < 16777216
  · rw [if_pos hthree]
    exact hlongTag rfl (by decide) hthree
  · rw [if_neg hthree]
    exact hlongTag rfl (by decide) (by show n < 4294967296; omega)

/-- The offset of a copy can be written, and lies within what has been written. -/
structure Backward (out : Array UInt8) (offset : Nat) : Prop where
  pos : 1 ≤ offset
  back : offset ≤ out.size
  near : offset < 65536

/-- Copying leaves the offset within what has been written. -/
theorem Backward.repeatBack {offset : Nat} (h : Backward out offset) (length : Nat) :
    Backward (repeatBack out offset length) offset where
  pos := h.pos
  back := by
    rw [size_repeatBack]
    exact Nat.le_add_right_of_le h.back
  near := h.near

variable {offset length : Nat}

/-- A copy of at most 64 bytes is read back. -/
theorem readElements_farCopy (hback : Backward out offset) (hpos : 1 ≤ length) (hshort : length ≤ 64)
    (hroom : out.size + length ≤ declared) (rest : Bytes) :
    readElements declared (writeFarCopy offset length ++ rest) out =
      readElements declared rest (repeatBack out offset length) := by
  have htag : (UInt8.ofNat ((length - 1) * 4 + 2)).toNat = 4 * (length - 1) + 2 := by
    rw [UInt8.toNat_ofNat_of_lt' (by show _ < 256; omega), Nat.mul_comm]
  have hoffset : 0 * Nat.pow 256 2 + offset = offset := by rw [Nat.zero_mul, Nat.zero_add]
  have hread := @readCopy_append (declared - out.size) out.size 2 0 offset (length - 1 + 1) hback.near
    (by rw [hoffset]; exact hback.pos) (by rw [hoffset]; exact hback.back) (by omega) rest
  rw [← readElement_farCopy htag, hoffset, Nat.sub_add_cancel hpos] at hread
  exact readElements_cons hread

/-- A copy of four to 64 bytes is read back. -/
theorem readElements_shortCopy (hback : Backward out offset) (hlong : 4 ≤ length) (hshort : length ≤ 64)
    (hroom : out.size + length ≤ declared) (rest : Bytes) :
    readElements declared (writeShortCopy offset length ++ rest) out =
      readElements declared rest (repeatBack out offset length) := by
  rw [writeShortCopy]
  by_cases htight : length ≤ 11 ∧ offset ≤ 2047
  · obtain ⟨hfew, hnear⟩ := htight
    rw [if_pos ⟨hfew, hnear⟩]
    have htag : (UInt8.ofNat (offset / 256 * 32 + (length - 4) * 4 + 1)).toNat =
        4 * (8 * (offset / 256) + (length - 4)) + 1 := by
      rw [UInt8.toNat_ofNat_of_lt' (by show _ < 256; omega)]
      omega
    have hoffset : offset / 256 * Nat.pow 256 1 + offset % 256 = offset := Nat.div_add_mod' offset 256
    have hbytes : Bytes.ofNatLittleEndian 1 (offset % 256) = [UInt8.ofNat offset] := by
      rw [Bytes.ofNatLittleEndian, Bytes.ofNatLittleEndian, UInt8.ofNat_mod_size]
    have hread := @readCopy_append (declared - out.size) out.size 1 (offset / 256) (offset % 256)
      (length - 4 + 4) (Nat.mod_lt _ (by decide)) (by rw [hoffset]; exact hback.pos)
      (by rw [hoffset]; exact hback.back) (by omega) rest
    rw [← readElement_shortCopy htag (by omega), hoffset, hbytes, Nat.sub_add_cancel hlong] at hread
    exact readElements_cons hread
  · rw [if_neg htight]
    exact readElements_farCopy hback (by omega) hshort hroom rest

/-- A copy is read back. -/
theorem readElements_copy (hback : Backward out offset) (hlong : 4 ≤ length)
    (hroom : out.size + length ≤ declared) (rest : Bytes) :
    readElements declared (writeCopy offset length ++ rest) out =
      readElements declared rest (repeatBack out offset length) := by
  induction length using Nat.strongRecOn generalizing out with
  | ind length ih =>
    rw [writeCopy]
    by_cases hmany : 68 ≤ length
    · rw [if_pos hmany, List.append_assoc, readElements_farCopy hback (by decide) (by decide) (by omega),
        ih (length - 64) (by omega) (hback.repeatBack 64) (by omega) (by rw [size_repeatBack]; omega),
        repeatBack_add, Nat.add_sub_cancel' (by omega)]
    rw [if_neg hmany]
    by_cases hmore : 64 < length
    · rw [if_pos hmore, List.append_assoc, readElements_farCopy hback (by decide) (by decide) (by omega),
        readElements_shortCopy (hback.repeatBack 60) (by omega) (by omega) (by rw [size_repeatBack]; omega),
        repeatBack_add, Nat.add_sub_cancel' (by omega)]
    · rw [if_neg hmore]
      exact readElements_shortCopy hback hlong (by omega) hroom rest

/-- Elements that fit one behind the other are read back. -/
theorem readElements_encode {elements : List Element} (hfit : fitFrom out.size elements = true)
    (hroom : out.size + (elements.map Element.length).sum ≤ declared) (hmax : declared ≤ maxLength)
    (rest : Bytes) :
    readElements declared (elements.flatMap Element.encode ++ rest) out =
      readElements declared rest (elements.foldl Element.write out) := by
  induction elements generalizing out with
  | nil => rfl
  | cons element later ih =>
    rw [fitFrom, Bool.and_eq_true] at hfit
    rw [List.map_cons, List.sum_cons] at hroom
    have hone : readElements declared (element.encode ++ (later.flatMap Element.encode ++ rest)) out =
        readElements declared (later.flatMap Element.encode ++ rest) (element.write out) := by
      cases element with
      | literal data =>
        have hsome : data ≠ [] := by simpa [Element.fits] using hfit.1
        rw [Element.length] at hroom
        exact readElements_literal hsome (by omega) (by omega) _
      | copy offset length =>
        have hfits := hfit.1
        simp only [Element.fits, Bool.and_eq_true, decide_eq_true_eq] at hfits
        obtain ⟨⟨⟨hpos, hback⟩, hnear⟩, hlong⟩ := hfits
        rw [Element.length] at hroom
        exact readElements_copy ⟨hpos, hback, hnear⟩ hlong (by omega) _
    rw [List.flatMap_cons, List.append_assoc, hone, List.foldl_cons]
    have hsize := element.size_write out
    exact ih (by rw [hsize]; exact hfit.2) (by rw [hsize]; omega)

/-- No element fits when there is no room left. -/
theorem readElement_full (tag : UInt8) (written : Nat) (source : Bytes) :
    ∃ fault, readElement tag written 0 source = .error fault := by
  have hlong : ∀ width, ∃ fault, readLongLiteral width 0 source = .error fault := by
    intro width
    rw [readLongLiteral]
    split
    · exact ⟨_, rfl⟩
    · exact ⟨_, if_pos (.inr (Nat.succ_pos _))⟩
  have hcopy : ∀ width high length, ∃ fault, readCopy width high (length + 1) written 0 source = .error fault := by
    intro width high length
    rw [readCopy]
    split
    · exact ⟨_, rfl⟩
    · simp only
      split
      · exact ⟨_, rfl⟩
      · exact ⟨_, if_pos (Nat.succ_pos _)⟩
  rw [readElement]
  split
  · split
    · exact ⟨_, if_pos (.inr (Nat.succ_pos _))⟩
    · exact hlong _
  · exact hcopy _ _ _
  · exact hcopy _ _ _
  · exact hcopy _ _ _

/-- Nothing can be read behind a block that is complete. -/
theorem readElements_full (tag : UInt8) (source : Bytes) (out : Array UInt8) :
    ∃ fault, readElements out.size (tag :: source) out = .error fault := by
  obtain ⟨fault, hfault⟩ := readElement_full tag out.size source
  rw [readElements]
  split
  · next other _ => exact ⟨other, rfl⟩
  · next found left hfound =>
    rw [Nat.sub_self, hfault] at hfound
    simp at hfound

end Reading

section Blocks

variable {data : Bytes}

/-- The elements of a block fit one behind the other, and expand to its data. -/
theorem elementsOf_spec (data : Bytes) :
    fitFrom 0 (elementsOf data) = true ∧ (expand (elementsOf data)).toList = data := by
  rw [elementsOf]
  split
  · next hsound =>
    rw [Bool.and_eq_true, beq_iff_eq] at hsound
    exact hsound
  · by_cases hempty : data = []
    · rw [if_pos hempty, hempty]
      exact ⟨rfl, rfl⟩
    · rw [if_neg hempty]
      refine ⟨by simp [fitFrom, Element.fits, hempty], ?_⟩
      show ((#[] : Array UInt8) ++ data).toList = data
      rw [Array.toList_appendList, List.nil_append]

/-- The elements of a block have as many bytes as its data. -/
theorem sum_length_elementsOf (data : Bytes) :
    ((elementsOf data).map Element.length).sum = data.length := by
  have hsize := size_foldl_write (elementsOf data) #[]
  rw [← expand, ← Array.length_toList, (elementsOf_spec data).2] at hsize
  simpa using hsize.symm

/-- The header of a block is its length, and behind it stand its elements. -/
theorem readVarint_encode (hlong : data.length ≤ maxLength) (trail : Bytes) :
    readVarint maxGroups (encode data ++ trail) =
      some (data.length, (elementsOf data).flatMap Element.encode ++ trail) := by
  rw [encode, List.append_assoc]
  exact readVarint_writeVarint (Nat.lt_of_le_of_lt hlong (by decide)) _

/-- A block reads as far as its data, and then goes on with what stands behind it. -/
theorem decode_encode_append (hlong : data.length ≤ maxLength) (trail : Bytes) :
    decode (encode data ++ trail) =
      (readElements data.length trail (expand (elementsOf data))).bind fun out =>
        if out.size = data.length then .ok out.toList else .error (.lengthMismatch data.length out.size) := by
  have hsome : encode data ++ trail ≠ [] := by
    intro hempty
    have hread := readVarint_encode hlong trail
    rw [hempty] at hread
    simp [readVarint, maxGroups] at hread
  have hread : readElements data.length ((elementsOf data).flatMap Element.encode ++ trail) #[] =
      readElements data.length trail ((elementsOf data).foldl Element.write #[]) := by
    have hfit : fitFrom (#[] : Array UInt8).size (elementsOf data) = true := (elementsOf_spec data).1
    refine readElements_encode hfit ?_ hlong trail
    rw [sum_length_elementsOf]
    exact Nat.le_of_eq (Nat.zero_add _)
  rw [decode, if_neg hsome, readVarint_encode hlong]
  simp only
  rw [if_neg (Nat.not_lt.mpr hlong), hread, expand]
  cases readElements data.length trail ((elementsOf data).foldl Element.write #[]) <;> rfl

/-- A block that stands on its own gives its data back. -/
theorem decode_encode (hlong : data.length ≤ maxLength) : decode (encode data) = .ok data := by
  have hread := decode_encode_append hlong []
  have hexpand := (elementsOf_spec data).2
  rw [List.append_nil, readElements, Except.bind, ← Array.length_toList, hexpand, if_pos rfl] at hread
  exact hread

/-- A block with anything behind it is refused. -/
theorem decode_encode_trail (hlong : data.length ≤ maxLength) {trail : Bytes} (htrail : trail ≠ []) :
    ∃ fault, decode (encode data ++ trail) = .error fault := by
  obtain ⟨tag, source, rfl⟩ := List.exists_cons_of_ne_nil htrail
  have hsize : (expand (elementsOf data)).size = data.length := by
    rw [← Array.length_toList, (elementsOf_spec data).2]
  obtain ⟨fault, hfault⟩ := readElements_full tag source (expand (elementsOf data))
  rw [hsize] at hfault
  exact ⟨fault, by rw [decode_encode_append hlong, hfault]; rfl⟩

end Blocks

end Reassembly.Snappy
