import Reassembly.Http.Percent
import Reassembly.Proofs.Bytes

/-!
# Percent-encoding is undone by decoding

What a segment encodes is decoded to the text that was encoded, for a segment reserves the percent sign. A
path does not: what it encodes is decoded to what the text itself is decoded to, so that a text with an escape
in it comes back as what the escape stands for. Decoding never makes longer, and is as long only where it
leaves everything alone.
-/

namespace Reassembly.Percent

open Bytes

/-! ## Decoding -/

/-- No byte of 128 or more is a hexadecimal digit. -/
theorem digit?_of_le {b : UInt8} (h : 128 ≤ b.toNat) : digit? (Char.ofNat b.toNat) = none := by
  rw [digit?, toNat_charOfNat, if_neg (by omega), if_neg (by omega), if_neg (by omega)]

/-- A byte other than the percent sign stands for itself. -/
theorem decode_cons_of_ne {b : UInt8} (h : b ≠ 0x25) (rest : Bytes) : decode (b :: rest) = b :: decode rest := by
  rw [decode]
  rintro high low rest rfl
  exact absurd rfl h

/-- Bytes without a percent sign stand for themselves. -/
theorem decode_append_of_ne {bytes : Bytes} (h : ∀ b ∈ bytes, b ≠ 0x25) (rest : Bytes) :
    decode (bytes ++ rest) = bytes ++ decode rest := by
  induction bytes with
  | nil => rfl
  | cons b later ih =>
    rw [List.cons_append, decode_cons_of_ne (h b List.mem_cons_self), List.cons_append,
      ih fun c hc => h c (List.mem_cons_of_mem _ hc)]

/-- The percent sign is the only character with its byte. -/
theorem ne_of_mem_utf8EncodeChar {c : Char} (h : c ≠ '%') {b : UInt8} (hb : b ∈ String.utf8EncodeChar c) :
    b ≠ 0x25 := by
  rintro rfl
  by_cases hlt : c.toNat < 128
  · rw [utf8EncodeChar_of_lt hlt, List.mem_singleton] at hb
    have hchar := charOfNat_ofNat hlt
    rw [← hb] at hchar
    exact h hchar.symm
  · exact absurd (le_of_mem_utf8EncodeChar (Nat.le_of_not_lt hlt) hb) (by decide)

/-- A percent sign stands for itself when the byte after it is no digit. -/
theorem decode_percent_of_first {b : UInt8} (h : digit? (Char.ofNat b.toNat) = none) (rest : Bytes) :
    decode (0x25 :: b :: rest) = 0x25 :: decode (b :: rest) := by
  cases rest with
  | nil =>
    rw [decode]
    simp
  | cons c rest => rw [decode, h]

/-- A percent sign stands for itself when the second byte after it is no digit. -/
theorem decode_percent_of_second {b c : UInt8} (h : digit? (Char.ofNat c.toNat) = none) (rest : Bytes) :
    decode (0x25 :: b :: c :: rest) = 0x25 :: decode (b :: c :: rest) := by
  rw [decode, h]
  split
  · next hnone => simp at hnone
  · rfl

/-- Decoding does not make longer, and what it leaves as long it leaves as it is. -/
theorem length_decode (bytes : Bytes) :
    (decode bytes).length ≤ bytes.length ∧ ((decode bytes).length = bytes.length → decode bytes = bytes) := by
  fun_induction decode bytes with
  | case1 high low rest h l hlow hhigh ih =>
    simp only [List.length_cons]
    exact ⟨by omega, by omega⟩
  | case2 high low rest hnone ih =>
    simp only [List.length_cons] at ih ⊢
    exact ⟨by omega, fun h => by rw [ih.2 (by omega)]⟩
  | case3 b rest hne ih =>
    simp only [List.length_cons]
    exact ⟨by omega, fun h => by rw [ih.2 (by omega)]⟩
  | case4 => exact ⟨Nat.le_refl _, fun _ => rfl⟩

/-! ## Encoding -/

/-- The digits that are written are read. -/
theorem digit?_digit : ∀ n : Fin 16, (digit n).toNat < 128 ∧ digit? (digit n) = some n.val := by decide

/-- A byte is decoded from its escape. -/
theorem decode_ofByte (b : UInt8) (rest : Bytes) :
    decode ((ofByte b).flatMap String.utf8EncodeChar ++ rest) = b :: decode rest := by
  have hlt := b.toNat_lt
  obtain ⟨hhigh, hhighValue⟩ := digit?_digit ⟨b.toNat / 16, by omega⟩
  obtain ⟨hlow, hlowValue⟩ := digit?_digit ⟨b.toNat % 16, by omega⟩
  have hbytes : (ofByte b).flatMap String.utf8EncodeChar =
      [0x25, UInt8.ofNat (digit (b.toNat / 16)).toNat, UInt8.ofNat (digit (b.toNat % 16)).toNat] := by
    rw [ofByte, List.flatMap_cons, List.flatMap_cons, List.flatMap_cons, utf8EncodeChar_of_lt (by decide),
      utf8EncodeChar_of_lt hhigh, utf8EncodeChar_of_lt hlow]
    rfl
  rw [hbytes, List.cons_append, List.cons_append, List.cons_append, List.nil_append, decode,
    charOfNat_ofNat hhigh, charOfNat_ofNat hlow, hhighValue, hlowValue]
  dsimp only
  rw [show 16 * (b.toNat / 16) + b.toNat % 16 = b.toNat by omega, UInt8.ofNat_toNat]

/-- Bytes are decoded from their escapes. -/
theorem decode_flatMap_ofByte (bytes rest : Bytes) :
    decode ((bytes.flatMap ofByte).flatMap String.utf8EncodeChar ++ rest) = bytes ++ decode rest := by
  induction bytes with
  | nil => rfl
  | cons b later ih =>
    rw [List.flatMap_cons, List.flatMap_append, List.append_assoc, decode_ofByte, ih, List.cons_append]

variable {reserves : Char → Bool}

/-- A character that is not foreign is one of ASCII. -/
theorem toNat_lt_of_not_isForeign {c : Char} (h : isForeign c = false) : c.toNat < 128 := by
  simp only [isForeign, Bool.or_eq_false_iff, decide_eq_false_iff_not] at h
  omega

/-- A character that is reserved is encoded in escapes. -/
theorem encode_cons_of_reserved {c : Char} (h : (isForeign c || reserves c) = true) (rest : List Char) :
    encode reserves (c :: rest) = (String.utf8EncodeChar c).flatMap ofByte ++ encode reserves rest := by
  have hbytes : Bytes.ofText c.toString = String.utf8EncodeChar c := by
    rw [show c.toString = String.ofList [c] by simp, ofText_ofList]
    simp
  rw [encode, List.flatMap_cons, if_pos h, hbytes]
  rfl

/-- A character that is not reserved is kept. -/
theorem encode_cons_of_not_reserved {c : Char} (h : (isForeign c || reserves c) = false) (rest : List Char) :
    encode reserves (c :: rest) = c :: encode reserves rest := by
  rw [encode, List.flatMap_cons, if_neg (by simp [h])]
  rfl

/-- What is encoded with the percent sign among the reserved characters is decoded to what it was. -/
theorem decode_encode (hpercent : reserves '%' = true) (chars : List Char) :
    decode ((encode reserves chars).flatMap String.utf8EncodeChar) = chars.flatMap String.utf8EncodeChar := by
  induction chars with
  | nil => rfl
  | cons c rest ih =>
    cases hreserved : isForeign c || reserves c with
    | true =>
      rw [encode_cons_of_reserved hreserved, List.flatMap_append, decode_flatMap_ofByte, ih, List.flatMap_cons]
    | false =>
      have hlt := toNat_lt_of_not_isForeign (Bool.or_eq_false_iff.mp hreserved).1
      have hne : UInt8.ofNat c.toNat ≠ 0x25 := by
        refine ne_of_mem_utf8EncodeChar (c := c) ?_ (utf8EncodeChar_of_lt hlt ▸ List.mem_singleton_self _)
        rintro rfl
        simp [hpercent] at hreserved
      rw [encode_cons_of_not_reserved hreserved, List.flatMap_cons, utf8EncodeChar_of_lt hlt, List.singleton_append,
        decode_cons_of_ne hne, ih, List.flatMap_cons, utf8EncodeChar_of_lt hlt, List.singleton_append]

/-- Something is encoded as something. -/
theorem encode_ne_nil {chars : List Char} (h : chars ≠ []) : encode reserves chars ≠ [] := by
  obtain ⟨c, rest, rfl⟩ := List.exists_cons_of_ne_nil h
  cases hreserved : isForeign c || reserves c with
  | true =>
    obtain ⟨b, later, hsplit⟩ := List.exists_cons_of_length_pos (String.length_utf8EncodeChar c ▸ c.utf8Size_pos)
    rw [encode_cons_of_reserved hreserved, hsplit]
    exact List.cons_ne_nil _ _
  | false =>
    rw [encode_cons_of_not_reserved hreserved]
    exact List.cons_ne_nil _ _

/-- What is encoded has no characters but those of escapes, and those of the text that are not reserved. -/
theorem of_mem_encode {chars : List Char} {c : Char} (h : c ∈ encode reserves chars) :
    c ∈ chars ∧ isForeign c = false ∧ reserves c = false ∨ c = '%' ∨ c.isAlphanum = true := by
  obtain ⟨d, hd, hc⟩ := List.mem_flatMap.mp h
  cases hreserved : isForeign d || reserves d with
  | true =>
    rw [if_pos hreserved] at hc
    obtain ⟨b, -, hc⟩ := List.mem_flatMap.mp hc
    have hdigit : ∀ n : Fin 16, (digit n).isAlphanum = true := by decide
    have hlt := b.toNat_lt
    simp only [ofByte, List.mem_cons, List.not_mem_nil, or_false] at hc
    rcases hc with rfl | rfl | rfl
    · exact .inr (.inl rfl)
    · exact .inr (.inr (hdigit ⟨b.toNat / 16, by omega⟩))
    · exact .inr (.inr (hdigit ⟨b.toNat % 16, by omega⟩))
  | false =>
    rw [if_neg (by simp [hreserved]), List.mem_singleton] at hc
    subst hc
    exact .inl ⟨hd, Bool.or_eq_false_iff.mp hreserved⟩

/-! ## Paths -/

/-- The bytes of a character that a path encodes have no percent sign among them, and do not start with a
digit. -/
theorem bytes_of_reserved {c : Char} (h : (isForeign c || inPath c) = true) :
    (∀ b ∈ String.utf8EncodeChar c, b ≠ 0x25) ∧
      ∃ b later, String.utf8EncodeChar c = b :: later ∧ digit? (Char.ofNat b.toNat) = none := by
  by_cases hlt : c.toNat < 128
  · obtain ⟨hpercent, hdigit⟩ := forall_char
      (p := fun c => (isForeign c || inPath c) = true → c ≠ '%' ∧ digit? c = none) (by decide) hlt h
    refine ⟨fun b hb => ne_of_mem_utf8EncodeChar hpercent hb, _, _, utf8EncodeChar_of_lt hlt, ?_⟩
    rwa [charOfNat_ofNat hlt]
  · have hbytes := fun b => le_of_mem_utf8EncodeChar (Nat.le_of_not_lt hlt) (b := b)
    refine ⟨fun b hb => ne_of_mem_utf8EncodeChar ?_ hb, ?_⟩
    · rintro rfl
      exact hlt (by decide)
    · obtain ⟨b, later, hsplit⟩ := List.exists_cons_of_length_pos (String.length_utf8EncodeChar c ▸ c.utf8Size_pos)
      exact ⟨b, later, hsplit, digit?_of_le (hbytes b (by simp [hsplit]))⟩

/-- A character that is encoded starts with a percent sign. -/
theorem bytes_encode_of_reserved {c : Char} (h : (isForeign c || reserves c) = true) (rest : List Char) :
    ∃ tail, (encode reserves (c :: rest)).flatMap String.utf8EncodeChar = 0x25 :: tail := by
  obtain ⟨b, later, hsplit⟩ := List.exists_cons_of_length_pos (String.length_utf8EncodeChar c ▸ c.utf8Size_pos)
  rw [encode_cons_of_reserved h, hsplit, List.flatMap_cons, ofByte]
  exact ⟨_, rfl⟩

/-- A percent sign that stands before what a path encodes is decoded as if nothing was encoded. -/
theorem decode_percent_encode {rest : List Char}
    (ih : ∀ later : List Char, later.length ≤ rest.length →
      decode ((encode inPath later).flatMap String.utf8EncodeChar) = decode (later.flatMap String.utf8EncodeChar)) :
    decode (0x25 :: (encode inPath rest).flatMap String.utf8EncodeChar) =
      decode (0x25 :: rest.flatMap String.utf8EncodeChar) := by
  -- The two characters behind the sign decide; one that is encoded is no digit, neither before nor after.
  match rest with
  | [] => rfl
  | c :: rest =>
    have hrest := ih (c :: rest) (Nat.le_refl _)
    cases hreserved : isForeign c || inPath c with
    | true =>
      obtain ⟨-, b, later, hbytes, hdigit⟩ := bytes_of_reserved hreserved
      have hencoded := bytes_encode_of_reserved hreserved rest
      obtain ⟨tail, htail⟩ := hencoded
      rw [htail, decode_percent_of_first (by decide), ← htail, hrest, List.flatMap_cons, hbytes, List.cons_append,
        decode_percent_of_first hdigit]
    | false =>
      have hlt := toNat_lt_of_not_isForeign (Bool.or_eq_false_iff.mp hreserved).1
      rw [encode_cons_of_not_reserved hreserved, List.flatMap_cons, List.flatMap_cons, utf8EncodeChar_of_lt hlt,
        List.singleton_append, List.singleton_append] at hrest ⊢
      match rest with
      | [] => rfl
      | d :: rest =>
        cases hsecond : isForeign d || inPath d with
        | true =>
          obtain ⟨-, b, later, hbytes, hdigit⟩ := bytes_of_reserved hsecond
          obtain ⟨tail, htail⟩ := bytes_encode_of_reserved hsecond rest
          rw [htail] at hrest ⊢
          rw [List.flatMap_cons, hbytes, List.cons_append] at hrest ⊢
          rw [decode_percent_of_second (by decide), hrest, decode_percent_of_second hdigit]
        | false =>
          have hsecondLt := toNat_lt_of_not_isForeign (Bool.or_eq_false_iff.mp hsecond).1
          have hlater := ih rest (by simp; omega)
          rw [encode_cons_of_not_reserved hsecond, List.flatMap_cons, List.flatMap_cons,
            utf8EncodeChar_of_lt hsecondLt, List.singleton_append, List.singleton_append] at hrest ⊢
          rw [decode, decode, hlater, hrest]

/-- What a path encodes is decoded to what the text is decoded to. -/
theorem decode_encode_inPath (chars : List Char) :
    decode ((encode inPath chars).flatMap String.utf8EncodeChar) = decode (chars.flatMap String.utf8EncodeChar) := by
  induction hlength : chars.length using Nat.strongRecOn generalizing chars with
  | ind length ih =>
    subst hlength
    match chars with
    | [] => rfl
    | c :: rest =>
      have hlater : ∀ later : List Char, later.length ≤ rest.length →
          decode ((encode inPath later).flatMap String.utf8EncodeChar) =
            decode (later.flatMap String.utf8EncodeChar) :=
        fun later hle => ih later.length (Nat.lt_succ_of_le hle) later rfl
      cases hreserved : isForeign c || inPath c with
      | true =>
        rw [encode_cons_of_reserved hreserved, List.flatMap_append, decode_flatMap_ofByte,
          hlater rest (Nat.le_refl _), List.flatMap_cons, decode_append_of_ne (bytes_of_reserved hreserved).1]
      | false =>
        have hlt := toNat_lt_of_not_isForeign (Bool.or_eq_false_iff.mp hreserved).1
        rw [encode_cons_of_not_reserved hreserved, List.flatMap_cons, List.flatMap_cons, utf8EncodeChar_of_lt hlt,
          List.singleton_append, List.singleton_append]
        by_cases hpercent : UInt8.ofNat c.toNat = 0x25
        · rw [hpercent]
          exact decode_percent_encode hlater
        · rw [decode_cons_of_ne hpercent, decode_cons_of_ne hpercent, hlater rest (Nat.le_refl _)]

/-! ## Texts -/

/-- The text that was encoded is read back. -/
theorem textOf?_encode (hpercent : reserves '%' = true) (chars : List Char) :
    textOf? (encode reserves chars) = some (String.ofList chars) := by
  rw [textOf?, bytesOf, ofText_ofList, decode_encode hpercent, ← ofText_ofList, toText?_ofText]

/-- What a path encodes stands for what the text stands for. -/
theorem bytesOf_encode_inPath (chars : List Char) : bytesOf (encode inPath chars) = bytesOf chars := by
  rw [bytesOf, bytesOf, ofText_ofList, ofText_ofList, decode_encode_inPath]

/-- A text without a percent sign stands for itself. -/
theorem bytesOf_of_forall {chars : List Char} (h : ∀ c ∈ chars, c ≠ '%') :
    bytesOf chars = ofText (String.ofList chars) := by
  have hne : ∀ b ∈ chars.flatMap String.utf8EncodeChar, b ≠ 0x25 := by
    intro b hb
    obtain ⟨c, hc, hmem⟩ := List.mem_flatMap.mp hb
    exact ne_of_mem_utf8EncodeChar (h c hc) hmem
  have hdecode := decode_append_of_ne hne []
  rwa [List.append_nil, decode, List.append_nil, ← ofText_ofList] at hdecode

/-- A text stands for no more bytes than it has, and for as many only when it stands for itself. -/
theorem length_bytesOf (chars : List Char) :
    (bytesOf chars).length ≤ (ofText (String.ofList chars)).length ∧
      ((bytesOf chars).length = (ofText (String.ofList chars)).length →
        bytesOf chars = ofText (String.ofList chars)) := length_decode _

end Reassembly.Percent
