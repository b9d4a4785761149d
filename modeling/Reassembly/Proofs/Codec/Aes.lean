import Reassembly.Codec.SealedBlock
import Reassembly.Proofs.Bytes

/-!
# Decryption undoes encryption

Each step of a round is undone by its inverse. The substitution of bytes is checked on all of them, with
the multiplication of GF(2⁸) carried over to natural numbers; mixing a column is linear, so it is checked
on columns with a single byte. Rounds, blocks and chains follow by recursion, for any round keys.
-/

namespace Reassembly.Aes

section Substitution

/-- Multiplication in GF(2⁸), on natural numbers. -/
def timesBits : (bits : Nat) → (a b : Nat) → Nat
  | 0, _, _ => 0
  | bits + 1, a, b => (b % 2 * a) ^^^ timesBits bits (2 * a ^^^ (a / 128 * 283)) (b / 2)

/-- Doubling a byte doubles its number and takes the overflow away. -/
theorem toNat_double (b : UInt8) : (double b).toNat = 2 * b.toNat ^^^ (b.toNat / 128 * 283) := by
  revert b
  exact Bytes.forall_byte (by decide +kernel)

/-- Multiplication of bytes is multiplication of their numbers. -/
theorem toNat_mulBits (bits : Nat) (a b : UInt8) :
    (mulBits bits a b).toNat = timesBits bits a.toNat b.toNat := by
  induction bits generalizing a b with
  | zero => rfl
  | succ bits ih =>
    have hbit : (b &&& 1).toNat = b.toNat % 2 := by
      rw [UInt8.toNat_and]
      exact Nat.and_one_is_mod _
    have hshift : (b >>> 1).toNat = b.toNat / 2 := by
      rw [UInt8.toNat_shiftRight]
      exact Nat.shiftRight_eq_div_pow _ 1
    rw [mulBits, timesBits, UInt8.toNat_xor, ih, toNat_double, hshift]
    congr 1
    by_cases hzero : b &&& 1 = 0
    · rw [hzero] at hbit
      rw [if_pos hzero, ← hbit]
      simp
    · have hone : b.toNat % 2 = 1 := by
        refine (Nat.mod_two_eq_zero_or_one _).resolve_left fun heven => hzero ?_
        rw [← UInt8.toNat_inj, hbit, heven]
        rfl
      rw [if_neg hzero, hone, Nat.one_mul]

/-- The inverse in GF(2⁸), on natural numbers. -/
def reciprocal (b : Nat) : Nat :=
  let b2 := timesBits 8 b b
  let b3 := timesBits 8 b2 b
  let b6 := timesBits 8 b3 b3
  let b12 := timesBits 8 b6 b6
  let b15 := timesBits 8 b12 b3
  let b30 := timesBits 8 b15 b15
  let b60 := timesBits 8 b30 b30
  let b120 := timesBits 8 b60 b60
  let b126 := timesBits 8 b120 b6
  let b127 := timesBits 8 b126 b
  timesBits 8 b127 b127

/-- The inverse of a byte is the inverse of its number. -/
theorem toNat_inverse (b : UInt8) : (inverse b).toNat = reciprocal b.toNat := by
  simp only [inverse, reciprocal, mul, toNat_mulBits]

/-- Inverting twice gives the byte back. -/
theorem inverse_inverse (b : UInt8) : inverse (inverse b) = b := by
  have hall : ∀ i : Fin 256, reciprocal (reciprocal i) = i := by decide +kernel
  rw [← UInt8.toNat_inj, toNat_inverse, toNat_inverse]
  exact hall ⟨b.toNat, b.toNat_lt⟩

/-- The affine map of the substitution is undone. -/
theorem affine_undone (b : UInt8) :
    let s := b ^^^ rotate b 1 ^^^ rotate b 2 ^^^ rotate b 3 ^^^ rotate b 4 ^^^ 0x63
    rotate s 1 ^^^ rotate s 3 ^^^ rotate s 6 ^^^ 0x05 = b := by
  revert b
  exact Bytes.forall_byte (by decide +kernel)

/-- The substitution of a byte is undone. -/
theorem unsubstitute_substitute (b : UInt8) : unsubstitute (substitute b) = b := by
  rw [unsubstitute, substitute, substitutionTable, substitutionInverseTable, lookup_tabulate, lookup_tabulate,
    substitutionInverse, substitution, affine_undone, inverse_inverse]

end Substitution

section Mixing

/-- Doubling is linear. -/
theorem double_xor (a b : UInt8) : double (a ^^^ b) = double a ^^^ double b := by
  have hhigh : ∀ c : UInt8, c < 0x80 ↔ c.toBitVec.msb = false := by
    intro c
    rw [BitVec.msb_eq_false_iff_two_mul_lt, UInt8.lt_iff_toNat_lt]
    show c.toNat < 128 ↔ 2 * c.toNat < 256
    omega
  have hcancel : ∀ c d e : UInt8, c ^^^ e ^^^ (d ^^^ e) = c ^^^ d := by
    intro c d e
    rw [UInt8.xor_comm d, UInt8.xor_assoc, ← UInt8.xor_assoc e, UInt8.xor_self, UInt8.zero_xor]
  simp only [double, UInt8.shiftLeft_xor, hhigh, UInt8.toBitVec_xor, BitVec.msb_xor]
  cases a.toBitVec.msb <;> cases b.toBitVec.msb
  all_goals
    simp only [Bool.bne_true, Bool.bne_false, Bool.not_true, Bool.not_false, if_true, if_false, UInt8.xor_zero,
      reduceCtorEq]
  case true.true => exact (hcancel _ _ _).symm
  all_goals ac_rfl

/-- What holds of the bytes with a single bit, and of the sums of bytes of which it holds, holds of all
bytes. -/
theorem byte_of_bits {p : UInt8 → Prop} (hxor : ∀ b c, p b → p c → p (b ^^^ c))
    (hbit : ∀ i : Fin 8, p (UInt8.ofNat (Nat.pow 2 i.val))) (b : UInt8) : p b := by
  have hzero : p 0 := UInt8.xor_self ▸ hxor _ _ (hbit 0) (hbit 0)
  have hmask : ∀ (i : Fin 8) (b : UInt8),
      b &&& UInt8.ofNat (Nat.pow 2 i.val) = 0 ∨ b &&& UInt8.ofNat (Nat.pow 2 i.val) = UInt8.ofNat (Nat.pow 2 i.val) :=
    fun i => Bytes.forall_byte (by revert i; decide +kernel)
  have hpart : ∀ i : Fin 8, p (b &&& UInt8.ofNat (Nat.pow 2 i.val)) := by
    intro i
    rcases hmask i b with hnone | hsome
    · rw [hnone]
      exact hzero
    · rw [hsome]
      exact hbit i
  have hsum : ∀ c : UInt8, c = (((c &&& 1) ^^^ (c &&& 2)) ^^^ ((c &&& 4) ^^^ (c &&& 8))) ^^^
      (((c &&& 16) ^^^ (c &&& 32)) ^^^ ((c &&& 64) ^^^ (c &&& 128))) := Bytes.forall_byte (by decide +kernel)
  rw [hsum b]
  exact hxor _ _ (hxor _ _ (hxor _ _ (hpart 0) (hpart 1)) (hxor _ _ (hpart 2) (hpart 3)))
    (hxor _ _ (hxor _ _ (hpart 4) (hpart 5)) (hxor _ _ (hpart 6) (hpart 7)))

/-- Multiplication by a fixed byte is linear. -/
theorem mulBits_xor (bits : Nat) (a b c : UInt8) :
    mulBits bits (a ^^^ b) c = mulBits bits a c ^^^ mulBits bits b c := by
  induction bits generalizing a b c with
  | zero => simp [mulBits]
  | succ bits ih =>
    simp only [mulBits, double_xor, ih]
    split
    · simp
    · ac_rfl

namespace Column

/-- The product of a row with a column is linear in the column. -/
theorem dot_add (p q r s : UInt8) (v w : Column) : dot p q r s (v.add w) = dot p q r s v ^^^ dot p q r s w := by
  simp only [dot, add, mulBits_xor]
  ac_rfl

/-- Mixing is linear. -/
theorem mix_add (v w : Column) : (v.add w).mix = v.mix.add w.mix := by
  simp only [mix, dot_add]
  rfl

/-- Mixing back is linear. -/
theorem unmix_add (v w : Column) : (v.add w).unmix = v.unmix.add w.unmix := by
  simp only [unmix, dot_add]
  rfl

/-- What holds of sums when it holds of their parts, and of columns with a single bit in some place, holds
of all columns with a single byte there. -/
theorem of_bits {p : Column → Prop} (hadd : ∀ v w, p v → p w → p (v.add w)) (place : UInt8 → Column)
    (hplace : ∀ b c, place (b ^^^ c) = (place b).add (place c))
    (hbit : ∀ i : Fin 8, p (place (UInt8.ofNat (Nat.pow 2 i.val)))) (b : UInt8) : p (place b) := by
  refine byte_of_bits (p := fun b => p (place b)) (fun b c hb hc => ?_) hbit b
  rw [hplace]
  exact hadd _ _ hb hc

/-- Mixing a column is undone. -/
theorem unmix_mix (v : Column) : v.mix.unmix = v := by
  have hadd : ∀ v w : Column, v.mix.unmix = v → w.mix.unmix = w → (v.add w).mix.unmix = v.add w := by
    intro v w hv hw
    rw [mix_add, unmix_add, hv, hw]
  have hsplit : v = ((⟨v.a, 0, 0, 0⟩ : Column).add ⟨0, v.b, 0, 0⟩).add
      ((⟨0, 0, v.c, 0⟩ : Column).add ⟨0, 0, 0, v.d⟩) := by
    simp [add]
  rw [hsplit]
  refine hadd _ _ (hadd _ _ ?_ ?_) (hadd _ _ ?_ ?_)
  · exact of_bits hadd (⟨·, 0, 0, 0⟩) (by simp [add]) (by decide +kernel) v.a
  · exact of_bits hadd (⟨0, ·, 0, 0⟩) (by simp [add]) (by decide +kernel) v.b
  · exact of_bits hadd (⟨0, 0, ·, 0⟩) (by simp [add]) (by decide +kernel) v.c
  · exact of_bits hadd (⟨0, 0, 0, ·⟩) (by simp [add]) (by decide +kernel) v.d

/-- Adding a column twice changes nothing. -/
theorem add_add_cancel (v w : Column) : (v.add w).add w = v := by
  simp only [add, UInt8.xor_assoc, UInt8.xor_self, UInt8.xor_zero]

/-- Changing every byte and back changes nothing. -/
theorem map_map_cancel {f g : UInt8 → UInt8} (h : ∀ b, g (f b) = b) (v : Column) : (v.map f).map g = v := by
  simp [map, h]

end Column

end Mixing

namespace State

/-- Adding a state twice changes nothing. -/
theorem add_add_cancel (v w : State) : (v.add w).add w = v := by
  simp only [add, Column.add_add_cancel]

/-- The substitution of a state is undone. -/
theorem map_unsubstitute_substitute (v : State) : (v.map substitute).map unsubstitute = v := by
  simp only [map, Column.map_map_cancel unsubstitute_substitute]

/-- Shifting the rows is undone. -/
theorem unshiftRows_shiftRows (v : State) : v.shiftRows.unshiftRows = v := rfl

/-- Mixing the columns is undone. -/
theorem unmixColumns_mixColumns (v : State) : v.mixColumns.unmixColumns = v := by
  simp only [mixColumns, unmixColumns, Column.unmix_mix]

end State

section Rounds

/-- A round that is not the last. -/
theorem encryptRounds_cons (k next : State) (rest : List State) (v : State) :
    encryptRounds (k :: next :: rest) v =
      encryptRounds (next :: rest) ((v.map substitute).shiftRows.mixColumns.add k) := rfl

/-- Undoing a round that is not the last. -/
theorem decryptRounds_cons (k next : State) (rest : List State) (v : State) :
    decryptRounds (k :: next :: rest) v =
      ((decryptRounds (next :: rest) v).add k).unmixColumns.unshiftRows.map unsubstitute := rfl

/-- The rounds of an encryption are undone. -/
theorem decryptRounds_encryptRounds (keys : List State) (v : State) :
    decryptRounds keys (encryptRounds keys v) = v := by
  induction keys generalizing v with
  | nil => rfl
  | cons k rest ih =>
    cases rest with
    | nil =>
      show (((v.map substitute).shiftRows.add k).add k).unshiftRows.map unsubstitute = v
      rw [State.add_add_cancel, State.unshiftRows_shiftRows, State.map_unsubstitute_substitute]
    | cons next rest =>
      rw [encryptRounds_cons, decryptRounds_cons, ih, State.add_add_cancel, State.unmixColumns_mixColumns,
        State.unshiftRows_shiftRows, State.map_unsubstitute_substitute]

/-- The encryption of a block is undone. -/
theorem Key.decrypt_encrypt (key : Key) (v : State) : key.decrypt (key.encrypt v) = v := by
  rw [decrypt, encrypt]
  cases key.roundKeys with
  | nil => rfl
  | cons k rest =>
    show (decryptRounds rest (encryptRounds rest (v.add k))).add k = v
    rw [decryptRounds_encryptRounds, State.add_add_cancel]

/-- The encryption of a chain of blocks is undone. -/
theorem Key.decryptChained_encryptChained (key : Key) (previous : State) (states : List State) :
    key.decryptChained previous (key.encryptChained previous states) = states := by
  induction states generalizing previous with
  | nil => rfl
  | cons v rest ih =>
    rw [encryptChained, decryptChained, ih, decrypt_encrypt, State.add_add_cancel]

end Rounds

section Blocks

/-- A block in front of bytes is the first of their blocks. -/
theorem blocks_toBytes_append (v : State) (rest : Bytes) : blocks (v.toBytes ++ rest) = v :: blocks rest := rfl

/-- Blocks are read back from their bytes. -/
theorem blocks_unblocks (states : List State) : blocks (unblocks states) = states := by
  induction states with
  | nil => rfl
  | cons v rest ih => rw [unblocks, List.flatMap_cons, blocks_toBytes_append, ← unblocks, ih]

/-- The bytes of blocks are sixteen times as many. -/
theorem length_unblocks (states : List State) : (unblocks states).length = blockSize * states.length := by
  induction states with
  | nil => rfl
  | cons v rest ih =>
    rw [unblocks, List.flatMap_cons, List.length_append, ← unblocks, ih, List.length_cons, Nat.mul_succ]
    exact Nat.add_comm _ _

/-- Sixteen bytes are those of a block. -/
theorem exists_toBytes {bytes : Bytes} (h : bytes.length = blockSize) : ∃ v : State, v.toBytes = bytes := by
  match bytes, h with
  | [a, b, c, d, e, f, g, h, i, j, k, l, m, n, o, p], _ =>
    exact ⟨⟨⟨a, b, c, d⟩, ⟨e, f, g, h⟩, ⟨i, j, k, l⟩, ⟨m, n, o, p⟩⟩, rfl⟩

/-- Whole blocks of bytes are read back from their blocks. -/
theorem unblocks_blocks {bytes : Bytes} (h : blockSize ∣ bytes.length) : unblocks (blocks bytes) = bytes := by
  obtain ⟨n, hn⟩ := h
  induction n generalizing bytes with
  | zero =>
    obtain rfl : bytes = [] := List.eq_nil_of_length_eq_zero hn
    rfl
  | succ n ih =>
    have hfirst : (bytes.take blockSize).length = blockSize := by
      rw [List.length_take, hn, Nat.mul_succ]
      omega
    have hrest : (bytes.drop blockSize).length = blockSize * n := by
      rw [List.length_drop, hn, Nat.mul_succ]
      omega
    obtain ⟨v, hv⟩ := exists_toBytes hfirst
    rw [← List.take_append_drop blockSize bytes, ← hv, blocks_toBytes_append, unblocks, List.flatMap_cons,
      ← unblocks, ih hrest]

/-- Whole blocks of bytes in front of others are the first blocks of all of them. -/
theorem blocks_append {bytes : Bytes} (h : blockSize ∣ bytes.length) (trail : Bytes) :
    blocks (bytes ++ trail) = blocks bytes ++ blocks trail := by
  have hfront : ∀ states, blocks (unblocks states ++ trail) = states ++ blocks trail := by
    intro states
    induction states with
    | nil => rfl
    | cons v rest ih => rw [unblocks, List.flatMap_cons, List.append_assoc, blocks_toBytes_append, ← unblocks, ih,
        List.cons_append]
  rw [← hfront, unblocks_blocks h]

/-- The bytes of the first of some blocks are the first bytes of all of them. -/
theorem unblocks_isPrefix {part whole : List State} (h : part <+: whole) : unblocks part <+: unblocks whole := by
  obtain ⟨rest, rfl⟩ := h
  rw [unblocks, unblocks, List.flatMap_append]
  exact List.prefix_append _ _

/-- Decrypting the first blocks of a chain gives the first blocks of what the chain gives. -/
theorem Key.decryptChained_isPrefix (key : Key) (previous : State) {part whole : List State} (h : part <+: whole) :
    key.decryptChained previous part <+: key.decryptChained previous whole := by
  obtain ⟨rest, rfl⟩ := h
  induction part generalizing previous with
  | nil => exact List.nil_prefix
  | cons c part ih => exact (List.prefix_cons_inj _).mpr (ih c)

/-- A chain is decrypted block by block. -/
theorem Key.length_decryptChained (key : Key) (previous : State) (states : List State) :
    (key.decryptChained previous states).length = states.length := by
  induction states generalizing previous with
  | nil => rfl
  | cons c rest ih => rw [decryptChained, List.length_cons, ih, List.length_cons]

/-- Padding fills the last block. -/
theorem length_padded (payload : Bytes) : blockSize ∣ (payload ++ padding payload.length).length := by
  rw [List.length_append, padding, List.length_replicate, blockSize]
  omega

/-- Padding is between one byte and a block of them, each the number of them. -/
theorem padding_eq (length : Nat) :
    ∃ n, 1 ≤ n ∧ n ≤ blockSize ∧ padding length = List.replicate n (UInt8.ofNat n) := by
  refine ⟨blockSize - length % blockSize, ?_, Nat.sub_le _ _, rfl⟩
  rw [blockSize]
  omega

end Blocks

end Reassembly.Aes
