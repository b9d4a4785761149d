import Reassembly.Json.Structure
import Reassembly.Proofs.Bytes
import Reassembly.Proofs.Json.Grammar
import Reassembly.Proofs.Number.Text

/-!
# Strings and numbers are read from any of their texts

A string that is kept is read character by character, however each of them is spelled: none can be taken for the
quotation mark that closes the string. One that is skipped is left at that mark. A number is read with all of its
parts, as long as nothing follows that could go on with it.
-/

namespace Reassembly.Json

open Reader Bytes

variable {use : Use} {read : Array UInt8} {rest : Bytes}

/-! ## Parts -/

/-- The next byte is taken. -/
theorem next_cons (b : UInt8) (rest : Bytes) : next (b :: rest) = .ok (b, rest) := rfl

/-- What can be looked at is what comes first. -/
theorem peek_eq (s : Bytes) : peek s = .ok (s.head?, s) := rfl

/-- A byte that is no space starts the next part of the text. -/
theorem space_cons {b : UInt8} (h : isSpace b = false) (rest : Bytes) : space (b :: rest) = .ok ((), b :: rest) := by
  rw [space, List.dropWhile_cons_of_neg (by simp [h])]

/-- A byte that is no space is the first of the next part of the text. -/
theorem nextPart_cons {b : UInt8} (h : isSpace b = false) (rest : Bytes) :
    nextPart (b :: rest) = .ok (some b, b :: rest) := by
  rw [nextPart, bind_of_ok (space_cons h rest)]
  rfl

/-- The byte that is expected is taken. -/
theorem expect_cons {b : UInt8} (h : isSpace b = false) (rest : Bytes) : expect b (b :: rest) = .ok ((), rest) := by
  rw [expect, bind_of_ok (space_cons h rest), bind_of_ok (next_cons b rest), if_pos rfl]
  rfl

/-- A word is taken. -/
theorem literal_append (word rest : Bytes) : literal word (word ++ rest) = .ok ((), rest) := by
  induction word with
  | nil => rfl
  | cons b later ih =>
    rw [literal, List.cons_append, bind_of_ok (next_cons b _),
      if_pos rfl, ih]

/-- The bytes that may stand between the parts of a text are its spaces. -/
theorem isSpace_of_mem {b : UInt8} (h : b ∈ [0x20, 0x09, 0x0a, 0x0d]) : isSpace b = true :=
  (by decide +kernel : ∀ b ∈ ([0x20, 0x09, 0x0a, 0x0d] : Bytes), isSpace b = true) b h

/-- Going to the next part of a text leaves a blank behind. -/
theorem space_append {blank : Bytes} (h : Blank blank) (s : Bytes) : space (blank ++ s) = space s := by
  rw [space, space, List.dropWhile_append_of_pos fun b hb => isSpace_of_mem (h b hb)]

/-- The next part of a text is the same with a blank in front. -/
theorem nextPart_append {blank : Bytes} (h : Blank blank) (s : Bytes) : nextPart (blank ++ s) = nextPart s :=
  bind_congr (space_append h s) _

/-- A byte is expected behind a blank as it is without. -/
theorem expect_append {blank : Bytes} (h : Blank blank) (b : UInt8) (s : Bytes) : expect b (blank ++ s) = expect b s :=
  bind_congr (space_append h s) _

/-! ## Strings -/

/-- Bytes that stand for themselves are read as they are. -/
theorem stringBytes_plain {bytes : Bytes} (h : ∀ b ∈ bytes, IsPlain b) (read : Array UInt8) (rest : Bytes) :
    stringBytes use read (bytes ++ rest) = stringBytes use (read ++ bytes) rest := by
  induction bytes generalizing read with
  | nil => simp
  | cons b later ih =>
    obtain ⟨⟨hquote, hbackslash, hcontrol⟩, hlater⟩ := List.forall_mem_cons.mp h
    rw [List.cons_append, stringBytes, if_neg hquote, if_neg hbackslash, if_neg hcontrol, ih hlater]
    simp

/-- An escape is read as what it stands for. -/
theorem stringBytes_escape {text decoded : Bytes} (h : escape use text = .ok (decoded, rest)) (read : Array UInt8) :
    stringBytes use read (0x5c :: text) = stringBytes use (read ++ decoded) rest := by
  rw [stringBytes, if_neg (by decide), if_pos rfl]
  split
  · next hescape => simp [h] at hescape
  · next hescape =>
    obtain ⟨rfl, rfl⟩ : decoded = _ ∧ rest = _ := by simpa [h] using hescape
    rfl

/-- A quotation mark closes a string. -/
theorem stringBytes_quote (read : Array UInt8) (rest : Bytes) :
    stringBytes use read (0x22 :: rest) = .ok (read, rest) := by
  rw [stringBytes, if_pos rfl]

/-- The letter of a short escape stands for the one byte of its character. -/
theorem shortEscape?_of_mem {letter : UInt8} {c : Char} (h : (letter, c) ∈ shortEscapes) :
    shortEscape? letter = some (UInt8.ofNat c.toNat) ∧ String.utf8EncodeChar c = [UInt8.ofNat c.toNat] :=
  (by decide : ∀ p ∈ shortEscapes, shortEscape? p.1 = some (UInt8.ofNat p.2.toNat) ∧
    String.utf8EncodeChar p.2 = [UInt8.ofNat p.2.toNat]) _ h

/-- An escape of one letter stands for one byte. -/
theorem escape_short {letter : UInt8} {c : Char} (h : (letter, c) ∈ shortEscapes) (rest : Bytes) :
    escape use (letter :: rest) = .ok (String.utf8EncodeChar c, rest) := by
  unfold escape
  rw [bind_of_ok (next_cons letter rest), (shortEscape?_of_mem h).1, (shortEscape?_of_mem h).2]
  rfl

/-- A digit has the value that it writes. -/
theorem hexValue?_of_hexDigit {n : Nat} {b : UInt8} (h : HexDigit n b) : hexValue? b = some n := by
  obtain ⟨hlt, hdigit⟩ := h
  have hboth := (by decide : ∀ i : Fin 16, hexValue? (UInt8.ofNat (Nat.digitChar i).toNat) = some i.val ∧
    hexValue? (UInt8.ofNat (Nat.digitChar i).toUpper.toNat) = some i.val) ⟨n, hlt⟩
  rcases hdigit with rfl | rfl
  · exact hboth.1
  · exact hboth.2

/-- Four digits have the value that they write. -/
theorem hex4_append {n : Nat} {digits : Bytes} (h : CodeUnit n digits) (rest : Bytes) :
    hex4 (digits ++ rest) = .ok (n, rest) := by
  obtain ⟨first, second, third, fourth⟩ := h
  have hvalue : ((n / 4096 * 16 + n / 256 % 16) * 16 + n / 16 % 16) * 16 + n % 16 = n := by omega
  simp only [List.cons_append, List.nil_append, hex4, hexValue?_of_hexDigit first, hexValue?_of_hexDigit second,
    hexValue?_of_hexDigit third, hexValue?_of_hexDigit fourth, hvalue]

/-- Behind the letter of a number stands what is read as a character, or skipped. -/
theorem escape_number (rest : Bytes) :
    escape use (0x75 :: rest) = (match use with
      | .kept => unicodeEscape
      | .skipped => do
        let _ ← hex4
        return []) rest := by
  cases use <;> rfl

/-- No character has the number of half a pair. -/
theorem not_surrogate (c : Char) : isLowSurrogate c.toNat = false ∧ isHighSurrogate c.toNat = false := by
  have hvalid : c.toNat < 0xd800 ∨ 0xdfff < c.toNat ∧ c.toNat < 0x110000 := c.valid
  simp only [isLowSurrogate, isHighSurrogate, Bool.and_eq_false_iff, decide_eq_false_iff_not]
  omega

/-- An escape of four digits stands for the character with their number. -/
theorem escape_unit {c : Char} {digits : Bytes} (h : CodeUnit c.toNat digits) (rest : Bytes) :
    escape .kept (0x75 :: (digits ++ rest)) = .ok (String.utf8EncodeChar c, rest) := by
  obtain ⟨hlow, hhigh⟩ := not_surrogate c
  rw [escape_number]
  dsimp only
  rw [unicodeEscape, bind_of_ok (hex4_append h rest), hlow, hhigh, encodeScalar, Char.ofNat_toNat]
  rfl

/-- Two escapes stand for the character whose number their halves make up. -/
theorem escape_pair {c : Char} {high low : Bytes} (large : 0x10000 ≤ c.toNat)
    (first : CodeUnit (0xd800 + (c.toNat - 0x10000) / 0x400) high)
    (second : CodeUnit (0xdc00 + (c.toNat - 0x10000) % 0x400) low) (rest : Bytes) :
    escape .kept (0x75 :: (high ++ 0x5c :: 0x75 :: (low ++ rest))) = .ok (String.utf8EncodeChar c, rest) := by
  have hlarge : c.toNat < 0x110000 := by
    have hvalid : c.toNat < 0xd800 ∨ 0xdfff < c.toNat ∧ c.toNat < 0x110000 := c.valid
    omega
  generalize hnumber : c.toNat - 0x10000 = number at first second
  have hfirst : isLowSurrogate (0xd800 + number / 0x400) = false ∧
      isHighSurrogate (0xd800 + number / 0x400) = true := by
    simp only [isLowSurrogate, isHighSurrogate, Bool.and_eq_false_iff, Bool.and_eq_true, decide_eq_false_iff_not,
      decide_eq_true_eq]
    omega
  have hsecond : isLowSurrogate (0xdc00 + number % 0x400) = true := by
    simp only [isLowSurrogate, Bool.and_eq_true, decide_eq_true_eq]
    omega
  have hvalue : 0x10000 + (0xd800 + number / 0x400 - 0xd800) * 0x400 + (0xdc00 + number % 0x400 - 0xdc00) =
      c.toNat := by
    omega
  have hmark : literal [0x5c, 0x75] (0x5c :: 0x75 :: (low ++ rest)) = .ok ((), low ++ rest) :=
    literal_append [0x5c, 0x75] (low ++ rest)
  rw [escape_number]
  dsimp only
  rw [unicodeEscape, bind_of_ok (hex4_append first _), hfirst.1, hfirst.2, if_neg Bool.false_ne_true, if_pos rfl,
    bind_of_ok hmark, bind_of_ok (hex4_append second rest), hsecond, if_pos rfl, hvalue, encodeScalar, Char.ofNat_toNat]
  rfl

/-- A character that needs no escape has bytes that stand for themselves. -/
theorem isPlain_of_mem {c : Char} (hquote : c ≠ '"') (hbackslash : c ≠ '\\') (hcontrol : ¬ c.toNat < 0x20) {b : UInt8}
    (hb : b ∈ String.utf8EncodeChar c) : IsPlain b := by
  by_cases hlt : c.toNat < 128
  · rw [utf8EncodeChar_of_lt hlt, List.mem_singleton] at hb
    have hchar := charOfNat_ofNat hlt
    rw [← hb] at hchar
    refine ⟨?_, ?_, fun hless => hcontrol ?_⟩
    · rintro rfl
      exact hquote hchar.symm
    · rintro rfl
      exact hbackslash hchar.symm
    · rw [← hchar, toNat_charOfNat]
      exact UInt8.lt_iff_toNat_lt.mp hless
  · have hle := le_of_mem_utf8EncodeChar (Nat.le_of_not_lt hlt) hb
    refine ⟨?_, ?_, fun hless => ?_⟩
    · rintro rfl
      exact absurd hle (by decide)
    · rintro rfl
      exact absurd hle (by decide)
    · have hsmall := UInt8.lt_iff_toNat_lt.mp hless
      rw [show (0x20 : UInt8).toNat = 32 by decide] at hsmall
      omega

/-- A character is read from any of its spellings. -/
theorem stringBytes_spellsChar {c : Char} {bytes : Bytes} (h : SpellsChar c bytes) (read : Array UInt8) (rest : Bytes) :
    stringBytes .kept read (bytes ++ rest) = stringBytes .kept (read ++ String.utf8EncodeChar c) rest := by
  cases h with
  | plain quote backslash control =>
    exact stringBytes_plain (fun b hb => isPlain_of_mem quote backslash control hb) read rest
  | short h => exact stringBytes_escape (escape_short h rest) read
  | unit h => exact stringBytes_escape (escape_unit h rest) read
  | pair large first second =>
    rw [List.cons_append, List.cons_append, List.append_assoc]
    exact stringBytes_escape (escape_pair large first second rest) read

/-- A text is read from any of its spellings, up to the quotation mark that closes it. -/
theorem stringBytes_spells {chars : List Char} {bytes : Bytes} (h : Spells chars bytes) (read : Array UInt8)
    (rest : Bytes) :
    stringBytes .kept read (bytes ++ 0x22 :: rest) = .ok (read ++ chars.flatMap String.utf8EncodeChar, rest) := by
  induction h generalizing read with
  | nil =>
    rw [List.nil_append, stringBytes_quote, List.flatMap_nil]
    simp
  | @cons c chars bytes later first others ih =>
    have hrow : read ++ String.utf8EncodeChar c ++ chars.flatMap String.utf8EncodeChar =
        read ++ (String.utf8EncodeChar c ++ chars.flatMap String.utf8EncodeChar) := by
      apply Array.ext'
      simp
    rw [List.append_assoc, stringBytes_spellsChar first, ih, List.flatMap_cons, hrow]

/-- A string is read from any of its spellings. -/
theorem stringRest_spells {text : String} {body : Bytes} (h : Spells text.toList body) (rest : Bytes) :
    stringRest (body ++ 0x22 :: rest) = .ok (text, rest) := by
  have htext := toText?_ofText text
  rw [ofText_eq, toText?] at htext
  have hread : (#[] : Array UInt8) ++ text.toList.flatMap String.utf8EncodeChar =
      (text.toList.flatMap String.utf8EncodeChar).toArray := by
    apply Array.ext'
    simp
  rw [stringRest, bind_of_ok (stringBytes_spells h #[] rest), hread, htext]
  rfl

/-- Bytes that stand for themselves may stand in front of what may stand in a string. -/
theorem StringBody.append {bytes later : Bytes} (h : ∀ b ∈ bytes, IsPlain b) (others : StringBody later) :
    StringBody (bytes ++ later) := by
  induction bytes with
  | nil => exact others
  | cons b rest ih =>
    obtain ⟨hb, hrest⟩ := List.forall_mem_cons.mp h
    exact .plain hb (ih hrest)

/-- What spells a text may stand in a string. -/
theorem Spells.stringBody {chars : List Char} {bytes : Bytes} (h : Spells chars bytes) : StringBody bytes := by
  induction h with
  | nil => exact .nil
  | cons first _ ih =>
    cases first with
    | plain quote backslash control => exact .append (fun b hb => isPlain_of_mem quote backslash control hb) ih
    | short h => exact .short h ih
    | unit h => exact .unit h ih
    | pair _ first second =>
      rw [List.cons_append, List.cons_append, List.append_assoc]
      exact .unit first (.unit second ih)

/-- What may stand in a string that is skipped is passed, up to the quotation mark that closes it. -/
theorem stringBytes_body {body : Bytes} (h : StringBody body) (read : Array UInt8) (rest : Bytes) :
    ∃ read', stringBytes .skipped read (body ++ 0x22 :: rest) = .ok (read', rest) := by
  induction h generalizing read with
  | nil => exact ⟨read, stringBytes_quote read rest⟩
  | @plain b later h _ ih =>
    obtain ⟨read', hread⟩ := ih (read ++ [b])
    exact ⟨read', (stringBytes_plain (List.forall_mem_singleton.mpr h) read _).trans hread⟩
  | short h _ ih =>
    obtain ⟨read', hread⟩ := ih _
    exact ⟨read', (stringBytes_escape (escape_short h _) read).trans hread⟩
  | @unit n digits later h _ ih =>
    have hescape : escape .skipped (0x75 :: (digits ++ (later ++ 0x22 :: rest))) = .ok ([], later ++ 0x22 :: rest) := by
      rw [escape_number]
      dsimp only
      rw [bind_of_ok (hex4_append h _)]
      rfl
    obtain ⟨read', hread⟩ := ih (read ++ ([] : Bytes))
    rw [List.cons_append, List.cons_append, List.append_assoc]
    exact ⟨read', (stringBytes_escape hescape read).trans hread⟩

/-- A string that is skipped is left behind its closing quotation mark. -/
theorem skipStringRest_body {body : Bytes} (h : StringBody body) (rest : Bytes) :
    skipStringRest (body ++ 0x22 :: rest) = .ok ((), rest) := by
  obtain ⟨read, hread⟩ := stringBytes_body h #[] rest
  rw [skipStringRest, bind_of_ok hread]
  rfl

/-! ## Numbers -/

/-- What follows a value: nothing, a space, a separator or a closing bracket. -/
def Ends (rest : Bytes) : Prop := ∀ b ∈ rest.head?, isSpace b = true ∨ b ∈ [0x2c, 0x5d, 0x7d]

/-- What follows a value does not go on with a number. -/
theorem Ends.ne (h : Ends rest) {b : UInt8} (hb : rest.head? = some b) :
    isDigit b = false ∧ b ≠ 0x2e ∧ b ≠ 0x65 ∧ b ≠ 0x45 := by
  have hbytes : b ∈ [0x20, 0x09, 0x0a, 0x0d, 0x2c, 0x5d, 0x7d] := by
    have hends := h b hb
    simp only [isSpace, Bool.or_eq_true, beq_iff_eq, List.mem_cons, or_assoc] at hends ⊢
    exact hends
  exact (by decide +kernel : ∀ b ∈ ([0x20, 0x09, 0x0a, 0x0d, 0x2c, 0x5d, 0x7d] : Bytes),
    isDigit b = false ∧ b ≠ 0x2e ∧ b ≠ 0x65 ∧ b ≠ 0x45) b hbytes

/-- Nothing ends a value. -/
theorem Ends.nil : Ends [] := fun _ h => absurd h (by simp)

/-- A separator and a closing bracket end a value. -/
theorem Ends.cons {b : UInt8} (h : b ∈ [0x2c, 0x5d, 0x7d]) (rest : Bytes) : Ends (b :: rest) := by
  intro c hc
  obtain rfl : b = c := by simpa using hc
  exact .inr h

/-- A blank ends a value as what follows it does. -/
theorem Ends.append {blank : Bytes} (hblank : Blank blank) (h : Ends rest) : Ends (blank ++ rest) := by
  cases blank with
  | nil => exact h
  | cons b later =>
    intro c hc
    obtain rfl : b = c := by simpa using hc
    exact .inl (isSpace_of_mem (hblank b List.mem_cons_self))

/-- What follows digits is no digit. -/
def EndsDigits (rest : Bytes) : Prop := ∀ b ∈ rest.head?, isDigit b = false

/-- What ends a value ends its digits. -/
theorem Ends.digits (h : Ends rest) : EndsDigits rest := fun _ hb => (h.ne hb).1

/-- Digits are read up to what follows them. -/
theorem someDigits_append {found : Bytes} (h : Digits found) (hends : EndsDigits rest) :
    someDigits use (found ++ rest) = .ok (found, rest) := by
  have htake : (found ++ rest).takeWhile isDigit = found := by
    rw [List.takeWhile_append_of_pos h.2]
    cases rest with
    | nil => rw [List.takeWhile_nil, List.append_nil]
    | cons b later => rw [List.takeWhile_cons_of_neg (by simp [hends b rfl]), List.append_nil]
  have hdrop : (found ++ rest).dropWhile isDigit = rest := by
    rw [List.dropWhile_append_of_pos h.2]
    cases rest with
    | nil => rfl
    | cons b later => rw [List.dropWhile_cons_of_neg (by simp [hends b rfl])]
  have hdigits : digits (found ++ rest) = .ok (found, rest) := by rw [digits, htake, hdrop]
  rw [someDigits, bind_of_ok (peek_eq _), bind_of_ok hdigits, if_neg h.1]
  rfl

/-- The digits in front of the point are read up to what follows them. -/
theorem wholeDigits_append {found : Bytes} (h : WholeDigits found) (hends : EndsDigits rest) :
    wholeDigits use (found ++ rest) = .ok (found, rest) := by
  have hzero : ¬ (found.head? = some 0x30 ∧ found.length ≠ 1) := fun hzero => hzero.2 (h.2 hzero.1)
  rw [wholeDigits, bind_of_ok (someDigits_append h.1 hends), if_neg hzero]
  rfl

/-- A fraction is read up to what follows it, if that is neither a digit nor a point. -/
theorem fractionDigits_append {fraction : Option Bytes} {text : Bytes} (h : FractionText fraction text)
    (hends : EndsDigits rest) (hpoint : rest.head? ≠ some 0x2e) :
    fractionDigits use (text ++ rest) = .ok (fraction, rest) := by
  cases h with
  | none =>
    rw [List.nil_append, fractionDigits, bind_of_ok (peek_eq rest), if_neg hpoint]
    rfl
  | @some found h =>
    rw [List.cons_append, fractionDigits, bind_of_ok (peek_eq _), List.head?_cons, if_pos rfl,
      bind_of_ok (next_cons _ _), bind_of_ok (someDigits_append h hends)]
    rfl

/-- No digit is a sign. -/
theorem not_sign_of_isDigit {b : UInt8} (h : isDigit b = true) : b ≠ 0x2d ∧ b ≠ 0x2b := by
  constructor <;> (rintro rfl; exact absurd h (by decide))

/-- Digits start with one. -/
theorem Digits.exists_cons {found : Bytes} (h : Digits found) : ∃ b later, found = b :: later ∧ isDigit b = true := by
  obtain ⟨b, later, rfl⟩ := List.exists_cons_of_ne_nil h.1
  exact ⟨b, later, rfl, h.2 b List.mem_cons_self⟩

/-- Digits have no sign. -/
theorem exponentSign_digits {found : Bytes} (h : Digits found) (rest : Bytes) :
    exponentSign (found ++ rest) = .ok (false, found ++ rest) := by
  obtain ⟨b, later, rfl, hdigit⟩ := h.exists_cons
  obtain ⟨hminus, hplus⟩ := not_sign_of_isDigit hdigit
  rw [exponentSign, bind_of_ok (peek_eq _), List.cons_append, List.head?_cons, if_neg (by simpa using hminus),
    if_neg (by simpa using hplus)]
  rfl

/-- An exponent mark announces a sign and digits. -/
theorem exponentDigits_mark {mark : UInt8} (hmark : mark ∈ [0x65, 0x45]) (sign : Bytes) {found : Bytes}
    {negative : Bool} (hsign : exponentSign (sign ++ (found ++ rest)) = .ok (negative, found ++ rest))
    (h : Digits found) (hends : EndsDigits rest) :
    exponentDigits use (mark :: (sign ++ (found ++ rest))) = .ok (some (negative, found), rest) := by
  have hhead : some mark = some 0x65 ∨ some mark = some 0x45 := by simpa using hmark
  rw [exponentDigits, bind_of_ok (peek_eq _), List.head?_cons, if_pos hhead, bind_of_ok (next_cons _ _),
    bind_of_ok hsign, bind_of_ok (someDigits_append h hends)]
  rfl

/-- An exponent is read up to the end of the value. -/
theorem exponentDigits_append {exponent : Option (Bool × Bytes)} {text : Bytes} (h : ExponentText exponent text)
    (hends : Ends rest) : exponentDigits use (text ++ rest) = .ok (exponent, rest) := by
  cases h with
  | none =>
    have hmark : ¬ (rest.head? = some 0x65 ∨ rest.head? = some 0x45) := by
      rintro (hhead | hhead)
      · exact (hends.ne hhead).2.2.1 rfl
      · exact (hends.ne hhead).2.2.2 rfl
    rw [List.nil_append, exponentDigits, bind_of_ok (peek_eq rest), if_neg hmark]
    rfl
  | unsigned hmark h => exact exponentDigits_mark hmark [] (exponentSign_digits h rest) h hends.digits
  | positive hmark h => exact exponentDigits_mark hmark [0x2b] rfl h hends.digits
  | negative hmark h => exact exponentDigits_mark hmark [0x2d] rfl h hends.digits

/-- An exponent, and what ends a value behind it, end the digits and the fraction in front of them. -/
theorem ExponentText.head_append {exponent : Option (Bool × Bytes)} {text : Bytes} (h : ExponentText exponent text)
    (hends : Ends rest) : ∀ b ∈ (text ++ rest).head?, isDigit b = false ∧ b ≠ 0x2e := by
  have hmarks : ∀ mark ∈ ([0x65, 0x45] : Bytes), isDigit mark = false ∧ mark ≠ 0x2e := by decide +kernel
  intro b hb
  cases h with
  | none => exact ⟨(hends.ne hb).1, (hends.ne hb).2.1⟩
  | unsigned hmark _ => exact Option.some.inj hb ▸ hmarks _ hmark
  | positive hmark _ => exact Option.some.inj hb ▸ hmarks _ hmark
  | negative hmark _ => exact Option.some.inj hb ▸ hmarks _ hmark

/-- A number behind its sign is read with all of its parts. -/
theorem unsignedNumber_append {whole fractionText exponentText : Bytes} {fraction : Option Bytes}
    {exponent : Option (Bool × Bytes)} (hwhole : WholeDigits whole) (hfraction : FractionText fraction fractionText)
    (hexponent : ExponentText exponent exponentText) (hends : Ends rest) (negative : Bool) :
    unsignedNumber use negative (whole ++ (fractionText ++ exponentText) ++ rest) =
      .ok (⟨negative, whole, fraction, exponent⟩, rest) := by
  have hhead := hexponent.head_append hends
  have hdigits : EndsDigits (exponentText ++ rest) := fun b hb => (hhead b hb).1
  have hpoint : (exponentText ++ rest).head? ≠ some 0x2e := fun hb => (hhead _ hb).2 rfl
  have hfollows : EndsDigits (fractionText ++ (exponentText ++ rest)) := by
    cases hfraction with
    | none => exact hdigits
    | some _ => exact fun b hb => Option.some.inj hb ▸ by decide
  rw [List.append_assoc, List.append_assoc, unsignedNumber, bind_of_ok (wholeDigits_append hwhole hfollows),
    bind_of_ok (fractionDigits_append hfraction hdigits hpoint), bind_of_ok (exponentDigits_append hexponent hends)]
  rfl

/-- A number is read with all of its parts. -/
theorem numberText_append {parts : NumberText} {text : Bytes} (h : NumberForm parts text) (hends : Ends rest) :
    numberText use (text ++ rest) = .ok (parts, rest) := by
  cases h with
  | @unsigned whole _ _ _ _ hwhole hfraction hexponent =>
    obtain ⟨b, later, hdigits, hdigit⟩ := hwhole.1.exists_cons
    have hsign : ∀ behind : Bytes, ¬ (whole ++ behind ++ rest).head? = some 0x2d := by
      rw [hdigits]
      exact fun _ hb => (not_sign_of_isDigit hdigit).1 (Option.some.inj hb)
    rw [numberText, bind_of_ok (peek_eq _), if_neg (hsign _)]
    exact unsignedNumber_append hwhole hfraction hexponent hends false
  | negative hwhole hfraction hexponent =>
    rw [numberText, bind_of_ok (peek_eq _), List.cons_append, List.head?_cons, if_pos rfl, bind_of_ok (next_cons _ _)]
    exact unsignedNumber_append hwhole hfraction hexponent hends true

/-- A number starts with a sign or a digit. -/
theorem NumberForm.exists_cons {parts : NumberText} {text : Bytes} (h : NumberForm parts text) :
    ∃ b later, text = b :: later ∧ (b = 0x2d ∨ isDigit b = true) := by
  cases h with
  | unsigned hwhole _ _ =>
    obtain ⟨b, later, rfl, hdigit⟩ := hwhole.1.exists_cons
    exact ⟨b, _, rfl, .inr hdigit⟩
  | negative _ _ _ => exact ⟨_, _, rfl, .inl rfl⟩

/-! ## Decimal digits -/

/-- A decimal digit is a character of ASCII. -/
theorem lt_of_isDigit {c : Char} (h : c.isDigit = true) : c.toNat < 128 := by
  have hle : c.val ≤ '9'.val := by simpa [Char.isDigit] using (Bool.and_eq_true_iff.mp h).2
  exact Nat.lt_of_le_of_lt (UInt32.le_iff_toNat_le.mp hle) (by decide)

/-- A decimal digit is written in one byte, which is a digit of the same value. -/
theorem digit_byte {c : Char} (h : c.isDigit = true) :
    String.utf8EncodeChar c = [UInt8.ofNat c.toNat] ∧ isDigit (UInt8.ofNat c.toNat) = true ∧
      (UInt8.ofNat c.toNat).toNat - 0x30 = c.toNat - '0'.toNat :=
  ⟨utf8EncodeChar_of_lt (lt_of_isDigit h), forall_char (p := fun c => c.isDigit = true →
    isDigit (UInt8.ofNat c.toNat) = true ∧ (UInt8.ofNat c.toNat).toNat - 0x30 = c.toNat - '0'.toNat)
    (by decide) (lt_of_isDigit h) h⟩

/-- The digits of a number are the bytes of its decimal digits. -/
theorem digitsOf_eq (n : Nat) : digitsOf n = (Nat.toDigits 10 n).map fun c => UInt8.ofNat c.toNat := by
  have htext : (toString n).toList = Nat.toDigits 10 n := Nat.toList_repr
  have hbytes : ∀ chars : List Char, (∀ c ∈ chars, c.isDigit = true) →
      chars.flatMap String.utf8EncodeChar = chars.map fun c => UInt8.ofNat c.toNat := by
    intro chars hdigits
    induction chars with
    | nil => rfl
    | cons c later ih =>
      obtain ⟨hc, hlater⟩ := List.forall_mem_cons.mp hdigits
      rw [List.flatMap_cons, (digit_byte hc).1, ih hlater]
      rfl
  rw [digitsOf, ofText_eq, htext]
  exact hbytes _ fun c hc => Number.isDigit_of_mem_toDigits hc

/-- A number is written in digits without a leading zero. -/
theorem wholeDigits_digitsOf (n : Nat) : WholeDigits (digitsOf n) := by
  refine ⟨⟨?_, fun b hb => ?_⟩, fun hhead => ?_⟩
  · rw [digitsOf_eq, Ne, List.map_eq_nil_iff]
    exact Nat.toDigits_ne_nil
  · rw [digitsOf_eq] at hb
    obtain ⟨c, hc, rfl⟩ := List.mem_map.mp hb
    exact (digit_byte (Number.isDigit_of_mem_toDigits hc)).2.1
  · by_cases hn : n = 0
    · subst hn
      decide
    · rw [digitsOf_eq, List.head?_map] at hhead
      obtain ⟨c, hc, hbyte⟩ := Option.map_eq_some_iff.mp hhead
      have hchar := charOfNat_ofNat (lt_of_isDigit
        (Number.isDigit_of_mem_toDigits (List.mem_of_head? hc)))
      rw [hbyte] at hchar
      exact absurd (hc.trans (congrArg some hchar.symm)) (Number.head?_toDigits_ne hn)

/-- The digits of a number write it. -/
theorem natOfDigits_digitsOf (n : Nat) : natOfDigits (digitsOf n) = n := by
  have hchars : ∀ chars : List Char, (∀ c ∈ chars, c.isDigit = true) → ∀ read,
      (chars.map fun c => UInt8.ofNat c.toNat).foldl (fun n d => n * 10 + (d.toNat - 0x30)) read =
        Nat.ofDigitChars 10 chars read := by
    intro chars hdigits
    induction chars with
    | nil => exact fun _ => rfl
    | cons c later ih =>
      intro read
      obtain ⟨hc, hlater⟩ := List.forall_mem_cons.mp hdigits
      rw [List.map_cons, List.foldl_cons, ih hlater, (digit_byte hc).2.2, Nat.ofDigitChars_cons, Nat.mul_comm]
  rw [natOfDigits, digitsOf_eq,
    hchars _ (fun c hc => Number.isDigit_of_mem_toDigits hc), Nat.ofDigitChars_ten_toDigits]

/-- A number is written in digits alone. -/
theorem numberForm_digitsOf (n : Nat) : NumberForm ⟨false, digitsOf n, none, none⟩ (digitsOf n) := by
  have hform := NumberForm.unsigned (wholeDigits_digitsOf n) .none .none
  rwa [List.append_nil, List.append_nil] at hform

end Reassembly.Json
