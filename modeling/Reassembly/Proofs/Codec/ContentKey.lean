import Reassembly.Codec.ContentKey
import Reassembly.Proofs.Codec.Aes
import Reassembly.Proofs.Codec.Base64
import Reassembly.Proofs.Bytes

/-!
# Wrapped content keys

A content key is recovered from its wrapped form under the same secret. The padding that wrapping puts
behind the quoted key is not printable, so it is dropped with everything else that is not. Any other text
that is wrapped gives the key that its printable characters quote, if they do.
-/

namespace Reassembly.ContentKey

variable {key secret decoded : Bytes}

/-- The text that is wrapped for a key. -/
def quoted (key : Bytes) : Bytes := quote :: Base64.encode key ++ [quote]

/-- The bytes of a quoted key are printable. -/
theorem printable_of_mem_quoted {b : UInt8} (h : b ∈ quoted key) : 0x20 ≤ b.toNat ∧ b.toNat ≤ 0x7e := by
  have hquote : 0x20 ≤ quote.toNat ∧ quote.toNat ≤ 0x7e := by decide
  simp only [quoted, List.cons_append, List.mem_cons, List.mem_append, List.not_mem_nil, or_false] at h
  rcases h with rfl | h | rfl
  · exact hquote
  · exact Base64.printable_of_mem_encode h
  · exact hquote

/-- A wrapped text is a whole number of encrypted blocks, one at least. -/
theorem wrapText_eq (text : Bytes) (hsecret : Base64.decode secret = .ok decoded) :
    wrapText text secret = .ok (Base64.encode
      (Aes.unblocks ((Aes.blocks (text ++ Aes.padding text.length)).map (cipher decoded).encrypt))) := by
  rw [wrapText, hsecret]
  rfl

/-- Wrapping succeeds under every secret that is Base64, and gives a text of symbols. -/
theorem exists_wrap (key : Bytes) (hsecret : Base64.decode secret = .ok decoded) :
    ∃ wrapped, wrap key secret = .ok wrapped ∧ ∀ b ∈ wrapped, b.toNat < 128 := by
  refine ⟨_, wrapText_eq _ hsecret, fun b hb => ?_⟩
  have hprintable := Base64.printable_of_mem_encode hb
  omega

/-- The blocks of a wrapped text decrypt to the text and its padding. -/
theorem decrypt_blocks (text : Bytes) :
    Aes.unblocks ((Aes.blocks (Aes.unblocks ((Aes.blocks (text ++ Aes.padding text.length)).map
      (cipher decoded).encrypt))).map (cipher decoded).decrypt) = text ++ Aes.padding text.length := by
  rw [Aes.blocks_unblocks, List.map_map]
  have hcancel : (cipher decoded).decrypt ∘ (cipher decoded).encrypt = id :=
    funext fun v => Aes.Key.decrypt_encrypt _ v
  rw [hcancel, List.map_id, Aes.unblocks_blocks (Aes.length_padded text)]

/-- Padding is not printable. -/
theorem isPrintable_padding {length : Nat} {b : UInt8} (h : b ∈ Aes.padding length) :
    b.toNat < 128 ∧ isPrintable (Char.ofNat b.toNat) = false := by
  obtain ⟨n, -, hn, hpadding⟩ := Aes.padding_eq length
  rw [hpadding] at h
  obtain rfl := List.eq_of_mem_replicate h
  have hall : ∀ i : Fin 17, (UInt8.ofNat i).toNat < 128 ∧
      isPrintable (Char.ofNat (UInt8.ofNat i).toNat) = false := by decide
  exact hall ⟨n, Nat.lt_succ_of_le hn⟩

/-- Printable bytes are printable characters. -/
theorem isPrintable_of_printable {b : UInt8} (h : 0x20 ≤ b.toNat ∧ b.toNat ≤ 0x7e) :
    isPrintable (Char.ofNat b.toNat) = true := by
  have hall : ∀ i : Fin 128, 0x20 ≤ i.val → i.val ≤ 0x7e → isPrintable (Char.ofNat i) = true := by decide
  exact hall ⟨b.toNat, by omega⟩ h.1 h.2

/-- The characters of a text that unwrapping keeps. -/
def printableOf (text : String) : List Char := text.toList.filter isPrintable

/-- Printable bytes keep all of their characters. -/
theorem printableOf_asciiText {bytes : Bytes} (h : ∀ b ∈ bytes, 0x20 ≤ b.toNat ∧ b.toNat ≤ 0x7e) :
    printableOf (Bytes.asciiText bytes) = (Bytes.asciiText bytes).toList := by
  rw [printableOf, List.filter_eq_self, Bytes.asciiText, String.toList_ofList]
  intro c hc
  obtain ⟨b, hb, rfl⟩ := List.mem_map.mp hc
  exact isPrintable_of_printable (h b hb)

/-- Padding behind a text does not change the characters that are kept. -/
theorem printableOf_append_padding (text : String) (length : Nat) :
    printableOf (text ++ Bytes.asciiText (Aes.padding length)) = printableOf text := by
  rw [printableOf, String.toList_append, List.filter_append, printableOf, List.append_right_eq_self,
    List.filter_eq_nil_iff, Bytes.asciiText, String.toList_ofList]
  intro c hc
  obtain ⟨b, hb, rfl⟩ := List.mem_map.mp hc
  rw [(isPrintable_padding hb).2]
  exact Bool.false_ne_true

/-- The key of a text depends only on the characters that are kept. -/
theorem ofText_congr {text other : String} (h : printableOf text = printableOf other) : ofText text = ofText other := by
  rw [printableOf, printableOf] at h
  rw [ofText, ofText, h]

/-- A text quotes a key: what is kept of it is the canonical text of the key between two more characters. -/
def Quotes (text : String) (key : Bytes) : Prop :=
  ∃ first last, printableOf text = first :: (Bytes.asciiText (Base64.encode key)).toList ++ [last]

/-- At least two characters are two with what stands between them. -/
theorem exists_between {chars : List Char} (h : ¬ chars.length < 2) :
    ∃ first last, chars = first :: (chars.drop 1).dropLast ++ [last] := by
  match chars, h with
  | [], h | [_], h => simp at h
  | first :: second :: rest, _ =>
    refine ⟨first, (second :: rest).getLast (List.cons_ne_nil _ _), ?_⟩
    rw [List.drop_succ_cons, List.drop_zero, List.cons_append, List.dropLast_append_getLast]

/-- The canonical text of a key is that of its bytes. -/
theorem eq_asciiText_iff {text : String} : Bytes.ofText text = Base64.encode key ↔
    text = Bytes.asciiText (Base64.encode key) := by
  have hascii : Bytes.ofText (Bytes.asciiText (Base64.encode key)) = Base64.encode key :=
    Bytes.ofText_asciiText fun b hb => by
      have hb := Base64.printable_of_mem_encode hb
      omega
  constructor
  · intro h
    have hread := Bytes.toText?_ofText text
    rw [h, ← hascii, Bytes.toText?_ofText] at hread
    exact (Option.some.inj hread).symm
  · rintro rfl
    exact hascii

/-- The key of a text is the one that it quotes, which is not empty. -/
theorem ofText_eq_ok_iff {text : String} : ofText text = .ok key ↔ key ≠ [] ∧ Quotes text key := by
  rw [ofText, Quotes, printableOf]
  simp only
  constructor
  · intro h
    split at h
    · simp at h
    · next henough =>
      split at h
      · simp at h
      · next found hfound =>
        split at h
        · simp at h
        · next hsome =>
          obtain rfl := Except.ok.inj h
          obtain ⟨first, last, hchars⟩ := exists_between henough
          have hinner := eq_asciiText_iff.mp (Base64.decode_eq_ok_iff.mp hfound)
          refine ⟨hsome, first, last, ?_⟩
          rw [← hinner, String.toList_ofList]
          exact hchars
  · rintro ⟨hsome, first, last, hchars⟩
    have hinner : (((text.toList.filter isPrintable).drop 1).dropLast) =
        (Bytes.asciiText (Base64.encode key)).toList := by
      rw [hchars, List.cons_append, List.drop_succ_cons, List.drop_zero, List.dropLast_concat]
    rw [if_neg (by rw [hchars]; simp), hinner, String.ofList_toList, eq_asciiText_iff.mpr rfl, Base64.decode_encode]
    exact if_neg hsome

/-- The ciphertext of a text is as long as the text with its padding. -/
theorem length_ciphertext (text : Bytes) (key : Aes.Key) :
    (Aes.unblocks ((Aes.blocks (text ++ Aes.padding text.length)).map key.encrypt)).length =
      (text ++ Aes.padding text.length).length := by
  conv_rhs => rw [← Aes.unblocks_blocks (Aes.length_padded text)]
  rw [Aes.length_unblocks, Aes.length_unblocks, List.length_map]

/-- Unwrapping what a text is wrapped as gives the key of the text. -/
theorem unwrap_wrapText {text : String} {wrapped : Bytes} (h : wrapText (Bytes.ofText text) secret = .ok wrapped) :
    unwrap wrapped secret = ofText text := by
  obtain ⟨decoded, hsecret, -⟩ := Result.bind_eq_ok_iff.mp h
  obtain rfl := Except.ok.inj ((wrapText_eq _ hsecret).symm.trans h)
  have hascii : ∀ b ∈ Aes.padding (Bytes.ofText text).length, b.toNat < 128 := fun b hb => (isPrintable_padding hb).1
  have hplain : Bytes.ofText text ++ Aes.padding (Bytes.ofText text).length =
      Bytes.ofText (text ++ Bytes.asciiText (Aes.padding (Bytes.ofText text).length)) := by
    rw [Bytes.ofText_append, Bytes.ofText_asciiText hascii]
  have hwhole : Aes.blockSize ∣ (Bytes.ofText text ++ Aes.padding (Bytes.ofText text).length).length :=
    Aes.length_padded _
  rw [unwrap, hsecret]
  simp only [Base64.decode_encode]
  rw [if_neg, decrypt_blocks, hplain, Bytes.toText?_ofText]
  · exact ofText_congr (printableOf_append_padding text _)
  · rw [← List.length_eq_zero_iff, length_ciphertext, not_or, not_ne_iff]
    refine ⟨?_, Nat.mod_eq_zero_of_dvd hwhole⟩
    obtain ⟨n, hpos, -, hpadding⟩ := Aes.padding_eq (Bytes.ofText text).length
    rw [List.length_append, hpadding, List.length_replicate]
    omega

/-- The text that is wrapped for a key quotes the key. -/
theorem quotes_quoted (key : Bytes) : Quotes (Bytes.asciiText (quoted key)) key := by
  refine ⟨'"', '"', ?_⟩
  rw [printableOf_asciiText fun _ => printable_of_mem_quoted, quoted, Bytes.asciiText, Bytes.asciiText,
    String.toList_ofList, String.toList_ofList, List.map_append]
  rfl

/-- Wrapping a key is wrapping its quoted text. -/
theorem wrap_eq (key secret : Bytes) :
    wrap key secret = wrapText (Bytes.ofText (Bytes.asciiText (quoted key))) secret := by
  rw [Bytes.ofText_asciiText fun b hb => by
    have hb := printable_of_mem_quoted hb
    omega]
  rfl

/-- A wrapped content key is recovered under the secret. -/
theorem unwrap_of_wrap {wrapped : Bytes} (hkey : key ≠ []) (h : wrap key secret = .ok wrapped) :
    unwrap wrapped secret = .ok key := by
  rw [wrap_eq] at h
  rw [unwrap_wrapText h, ofText_eq_ok_iff]
  exact ⟨hkey, quotes_quoted key⟩

/-- Nothing is not the wrapped form of a key. -/
theorem wrapped_ne_nil {wrapped : Bytes} (h : unwrap wrapped secret = .ok key) : wrapped ≠ [] := by
  rintro rfl
  have hempty : Base64.decode [] = .ok [] := rfl
  cases hsecret : Base64.decode secret with
  | error fault => simp [unwrap, hsecret] at h
  | ok decoded => simp [unwrap, hsecret, hempty] at h

end Reassembly.ContentKey
