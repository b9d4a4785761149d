import Reassembly.Bytes

/-!
# Numbers and texts in bytes

Numbers are read back from the bytes that they are written in, in either order. Bytes below 128 are a
text of as many characters, and are the encoding of that text.
-/

namespace Reassembly.Bytes

/-- What holds of the bytes of all numbers below 256 holds of all bytes. -/
theorem forall_byte {p : UInt8 → Prop} (h : ∀ i : Fin 256, p (UInt8.ofNat i)) (b : UInt8) : p b := by
  have hb := h ⟨b.toNat, b.toNat_lt⟩
  rwa [UInt8.ofNat_toNat] at hb

/-- What holds of the characters of all numbers below a bound holds of all characters below it. -/
theorem forall_char {p : Char → Prop} {bound : Nat} (h : ∀ i : Fin bound, p (Char.ofNat i)) {c : Char}
    (hc : c.toNat < bound) : p c := by
  have hchar := h ⟨c.toNat, hc⟩
  rwa [Char.ofNat_toNat] at hchar

/-- A number is read back from its bytes, low byte first. -/
theorem littleEndian_ofNat {width n : Nat} (h : n < Nat.pow 256 width) :
    littleEndian (ofNatLittleEndian width n) = n := by
  induction width generalizing n with
  | zero =>
    obtain rfl : n = 0 := by simpa using h
    rfl
  | succ width ih =>
    have hhigh : n / 256 < Nat.pow 256 width := by
      change n < Nat.pow 256 width * 256 at h
      exact Nat.div_lt_of_lt_mul (by rwa [Nat.mul_comm] at h)
    rw [ofNatLittleEndian, littleEndian, ih hhigh, UInt8.toNat_ofNat']
    omega

/-- The two byte orders are each other's reverse. -/
theorem bigEndian_reverse (bytes : Bytes) : bigEndian bytes.reverse = littleEndian bytes := by
  induction bytes with
  | nil => rfl
  | cons b rest ih =>
    rw [bigEndian] at ih
    rw [List.reverse_cons, bigEndian, List.foldl_append, ih, littleEndian, List.foldl_cons, List.foldl_nil]
    omega

/-- A number is read back from its bytes, high byte first. -/
theorem bigEndian_ofNat {width n : Nat} (h : n < Nat.pow 256 width) : bigEndian (ofNatBigEndian width n) = n := by
  rw [ofNatBigEndian, bigEndian_reverse, littleEndian_ofNat h]

/-- A number in bytes is below the first that takes more. -/
theorem littleEndian_lt (bytes : Bytes) : littleEndian bytes < Nat.pow 256 bytes.length := by
  induction bytes with
  | nil => exact Nat.one_pos
  | cons b rest ih =>
    have hb := b.toNat_lt
    show b.toNat + 256 * littleEndian rest < Nat.pow 256 rest.length * 256
    omega

/-- Bytes are written again for the number that they are read as, low byte first. -/
theorem ofNat_littleEndian (bytes : Bytes) : ofNatLittleEndian bytes.length (littleEndian bytes) = bytes := by
  induction bytes with
  | nil => rfl
  | cons b rest ih =>
    have hb := b.toNat_lt
    have hlow : UInt8.ofNat (b.toNat + 256 * littleEndian rest) = b := by
      rw [UInt8.ofNat_add, UInt8.ofNat_toNat, UInt8.ofNat_mul, show UInt8.ofNat 256 = 0 from rfl, UInt8.zero_mul,
        UInt8.add_zero]
    have hhigh : (b.toNat + 256 * littleEndian rest) / 256 = littleEndian rest := by omega
    rw [List.length_cons, littleEndian, ofNatLittleEndian, hlow, hhigh, ih]

/-- A number in bytes is below the first that takes more, high byte first. -/
theorem bigEndian_lt (bytes : Bytes) : bigEndian bytes < Nat.pow 256 bytes.length := by
  have hreversed := littleEndian_lt bytes.reverse
  rwa [← bigEndian_reverse, List.reverse_reverse, List.length_reverse] at hreversed

/-- Bytes are written again for the number that they are read as, high byte first. -/
theorem ofNat_bigEndian (bytes : Bytes) : ofNatBigEndian bytes.length (bigEndian bytes) = bytes := by
  have hreversed := ofNat_littleEndian bytes.reverse
  rw [← bigEndian_reverse, List.reverse_reverse, List.length_reverse] at hreversed
  rw [ofNatBigEndian, hreversed, List.reverse_reverse]

/-- The text whose characters have the numbers of the bytes. -/
def asciiText (bytes : Bytes) : String := String.ofList (bytes.map fun b => Char.ofNat b.toNat)

/-- A byte below 128 is the encoding of its character. -/
theorem utf8EncodeChar_ofNat {b : UInt8} (h : b.toNat < 128) :
    String.utf8EncodeChar (Char.ofNat b.toNat) = [b] := by
  have hall : ∀ i : Fin 128, String.utf8EncodeChar (Char.ofNat i) = [UInt8.ofNat i] := by decide
  rw [hall ⟨b.toNat, h⟩, UInt8.ofNat_toNat]

/-- The character of a byte has the number of the byte. -/
theorem toNat_charOfNat (b : UInt8) : (Char.ofNat b.toNat).toNat = b.toNat := by
  have hvalid : b.toNat.isValidChar := .inl (Nat.lt_trans b.toNat_lt (by decide))
  rw [Char.ofNat, dif_pos hvalid]
  rfl

/-- A character below 128 is the character of its byte. -/
theorem charOfNat_ofNat {c : Char} (h : c.toNat < 128) : Char.ofNat (UInt8.ofNat c.toNat).toNat = c := by
  rw [UInt8.toNat_ofNat', Nat.mod_eq_of_lt (by omega), Char.ofNat_toNat]

/-- A character below 128 is encoded in one byte, which is its number. -/
theorem utf8EncodeChar_of_lt {c : Char} (h : c.toNat < 128) : String.utf8EncodeChar c = [UInt8.ofNat c.toNat] := by
  have hbyte : (UInt8.ofNat c.toNat).toNat < 128 := by
    rw [UInt8.toNat_ofNat']
    omega
  have hchar := utf8EncodeChar_ofNat hbyte
  rwa [charOfNat_ofNat h] at hchar

/-- A character of 128 or more is encoded in bytes of 128 or more. -/
theorem le_of_mem_utf8EncodeChar {c : Char} (h : 128 ≤ c.toNat) {b : UInt8} (hb : b ∈ String.utf8EncodeChar c) :
    128 ≤ b.toNat := by
  have hvalue : ¬ c.val.toNat ≤ 127 := Nat.not_le_of_lt h
  rw [String.utf8EncodeChar] at hb
  simp only [if_neg hvalue] at hb
  repeat' split at hb
  all_goals
    simp only [List.mem_cons, List.not_mem_nil, or_false] at hb
    rcases hb with rfl | rfl | rfl | rfl <;> rw [UInt8.toNat_ofNat'] <;> omega

/-- What is read as a text is its encoding. -/
theorem eq_ofText_of_toText? {bytes : Bytes} {text : String} (h : toText? bytes = some text) : bytes = ofText text := by
  rw [toText?, String.fromUTF8?] at h
  split at h
  · obtain rfl := Option.some.inj h
    rfl
  · simp at h

/-- Texts in a row are encoded in a row. -/
theorem ofText_append (first second : String) : ofText (first ++ second) = ofText first ++ ofText second := by
  simp [ofText]

/-- A text is encoded character by character. -/
theorem ofText_ofList (chars : List Char) : ofText (String.ofList chars) = chars.flatMap String.utf8EncodeChar := by
  simp [ofText, String.toByteArray_ofList, List.utf8Encode]

/-- A text is encoded character by character. -/
theorem ofText_eq (text : String) : ofText text = text.toList.flatMap String.utf8EncodeChar := by
  rw [← ofText_ofList, String.ofList_toList]

/-- Joined texts are encoded in a row. -/
theorem ofText_join (texts : List String) : ofText (String.join texts) = texts.flatMap ofText := by
  rw [ofText_eq, String.toList_join, List.flatMap_assoc]
  exact congrArg (texts.flatMap ·) (funext fun text => (ofText_eq text).symm)

/-- Bytes below 128 are the encoding of their text. -/
theorem ofText_asciiText {bytes : Bytes} (h : ∀ b ∈ bytes, b.toNat < 128) : ofText (asciiText bytes) = bytes := by
  have hflat : (bytes.map fun b => Char.ofNat b.toNat).flatMap String.utf8EncodeChar = bytes := by
    induction bytes with
    | nil => rfl
    | cons b rest ih =>
      rw [List.map_cons, List.flatMap_cons, utf8EncodeChar_ofNat (h b List.mem_cons_self),
        ih fun c hc => h c (List.mem_cons_of_mem _ hc)]
      rfl
  rw [asciiText, ofText_ofList, hflat]

/-- Bytes below 128 are read as their text. -/
theorem toText?_of_ascii {bytes : Bytes} (h : ∀ b ∈ bytes, b.toNat < 128) : toText? bytes = some (asciiText bytes) := by
  have hread := toText?_ofText (asciiText bytes)
  rwa [ofText_asciiText h] at hread

end Reassembly.Bytes
