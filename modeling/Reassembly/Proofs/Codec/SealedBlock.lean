import Reassembly.Proofs.Codec.Aes

/-!
# Sealed blocks

Decrypting a sealed block gives the payload back, with the padding that encrypting put behind it. What can be
decrypted of a block that is cut short is a part of that.
-/

namespace Reassembly.SealedBlock

/-- A block is encrypted under every key of a supported length and every vector of a block's length. -/
theorem exists_encrypt? {payload key vector : Bytes} (hkey : key.length = 16 ∨ key.length = 24 ∨ key.length = 32)
    (hvector : vector.length = Aes.blockSize) : ∃ block, encrypt? payload key vector = some block := by
  rw [encrypt?, Aes.Key.ofBytes?, if_pos hkey]
  exact ⟨_, if_pos hvector⟩

/-- Decrypting takes a block apart into its vector and its ciphertext. -/
theorem decrypt_eq {key vector : Bytes} {expanded : Aes.Key} (hkey : Aes.Key.ofBytes? key = some expanded)
    (hvector : vector.length = Aes.blockSize) (states : List Aes.State) :
    decrypt (tag :: vector ++ Aes.unblocks states) key =
      .ok (Aes.unblocks (expanded.decryptChained (chainStart vector) states)) := by
  have hdrop : (tag :: vector ++ Aes.unblocks states).drop headerLength = Aes.unblocks states := by
    rw [headerLength, Nat.add_comm, List.cons_append, List.drop_succ_cons, ← hvector, List.drop_left]
  have htake : ((tag :: vector ++ Aes.unblocks states).drop 1).take Aes.blockSize = vector := by
    rw [List.cons_append, List.drop_succ_cons, List.drop_zero, ← hvector, List.take_left]
  rw [decrypt, if_neg, hdrop, htake, if_neg, hkey, Aes.blocks_unblocks]
  · rw [Aes.length_unblocks]
    simp
  · rw [List.length_append, List.length_cons, hvector, headerLength]
    omega

/-- Decrypting leaves the padding behind the payload. -/
theorem decrypt_of_encrypt? {payload key vector block : Bytes} (h : encrypt? payload key vector = some block) :
    decrypt block key = .ok (payload ++ Aes.padding payload.length) := by
  rw [encrypt?] at h
  split at h
  · simp at h
  · next expanded hexpanded =>
    split at h
    · next hvector =>
      obtain rfl := Option.some.inj h
      rw [decrypt_eq hexpanded hvector, Aes.Key.decryptChained_encryptChained,
        Aes.unblocks_blocks (Aes.length_padded payload)]
    · simp at h

/-- A block that can be decrypted has a whole header and whole blocks of ciphertext behind it. -/
theorem decrypt_eq_ok {block key opened : Bytes} (h : decrypt block key = .ok opened) :
    ∃ expanded, headerLength ≤ block.length ∧ Aes.blockSize ∣ (block.drop headerLength).length ∧
      Aes.Key.ofBytes? key = some expanded ∧
      opened = Aes.unblocks (expanded.decryptChained (chainStart ((block.drop 1).take Aes.blockSize))
        (Aes.blocks (block.drop headerLength))) := by
  rw [decrypt] at h
  split at h
  · simp at h
  · next hheader =>
    simp only at h
    split at h
    · simp at h
    · next hwhole =>
      split at h
      · simp at h
      · next expanded hexpanded =>
        exact ⟨expanded, Nat.le_of_not_lt hheader, Nat.dvd_of_mod_eq_zero (Decidable.of_not_not hwhole), hexpanded,
          (Except.ok.inj h).symm⟩

/-- A part of a block that can be decrypted gives a part of what the block gives. -/
theorem decrypt_isPrefix {part block key opened plain : Bytes} (hpart : part <+: block)
    (hopened : decrypt part key = .ok opened) (hplain : decrypt block key = .ok plain) : opened <+: plain := by
  obtain ⟨trail, rfl⟩ := hpart
  obtain ⟨expanded, hheader, hwhole, hexpanded, rfl⟩ := decrypt_eq_ok hopened
  obtain ⟨other, -, -, hother, rfl⟩ := decrypt_eq_ok hplain
  obtain rfl : expanded = other := Option.some.inj (hexpanded.symm.trans hother)
  -- Both have the vector of the header, and the ciphertext of the part is followed by more of it.
  have hvector : ((part ++ trail).drop 1).take Aes.blockSize = (part.drop 1).take Aes.blockSize := by
    rw [headerLength] at hheader
    rw [List.drop_append_of_le_length (by omega), List.take_append_of_le_length (by rw [List.length_drop]; omega)]
  rw [hvector, List.drop_append_of_le_length hheader, Aes.blocks_append hwhole]
  exact Aes.unblocks_isPrefix (expanded.decryptChained_isPrefix _ (List.prefix_append _ _))

/-- A block with a whole header and whole blocks of ciphertext behind it is decrypted under every key that there
is. -/
theorem decrypt_of_whole {block key : Bytes} {expanded : Aes.Key} (hheader : headerLength ≤ block.length)
    (hwhole : Aes.blockSize ∣ block.length - headerLength) (hkey : Aes.Key.ofBytes? key = some expanded) :
    decrypt block key = .ok (Aes.unblocks (expanded.decryptChained
      (chainStart ((block.drop 1).take Aes.blockSize)) (Aes.blocks (block.drop headerLength)))) := by
  rw [decrypt, if_neg (Nat.not_lt_of_le hheader)]
  simp only [List.length_drop, Nat.mod_eq_zero_of_dvd hwhole, ne_eq, not_true_eq_false, if_false, hkey]

/-- A decrypted block has as many bytes as its ciphertext. -/
theorem length_of_decrypt {block key opened : Bytes} (h : decrypt block key = .ok opened) :
    opened.length = block.length - headerLength := by
  obtain ⟨expanded, -, hwhole, -, rfl⟩ := decrypt_eq_ok h
  rw [Aes.length_unblocks, Aes.Key.length_decryptChained, ← Aes.length_unblocks, Aes.unblocks_blocks hwhole,
    List.length_drop]

/-- The tag of a block makes no difference. -/
theorem decrypt_cons_congr (first other : UInt8) (rest key : Bytes) :
    decrypt (first :: rest) key = decrypt (other :: rest) key := by
  have hdrop : ∀ tag : UInt8, (tag :: rest).drop headerLength = rest.drop Aes.blockSize := fun tag => by
    rw [headerLength, Nat.add_comm, List.drop_succ_cons]
  simp only [decrypt, List.length_cons, hdrop, List.drop_succ_cons, List.drop_zero]

/-- A block cut off behind some blocks of its ciphertext gives as many blocks of what it gives whole. -/
theorem decrypt_take {block key opened : Bytes} (h : decrypt block key = .ok opened) {count : Nat}
    (hcount : headerLength + Aes.blockSize * count ≤ block.length) :
    decrypt (block.take (headerLength + Aes.blockSize * count)) key = .ok (opened.take (Aes.blockSize * count)) := by
  obtain ⟨expanded, -, -, hkey, -⟩ := decrypt_eq_ok h
  have hlength : (block.take (headerLength + Aes.blockSize * count)).length = headerLength + Aes.blockSize * count :=
    List.length_take_of_le hcount
  have hheader : headerLength ≤ (block.take (headerLength + Aes.blockSize * count)).length := by
    rw [hlength]
    exact Nat.le_add_right _ _
  have hwhole : Aes.blockSize ∣ (block.take (headerLength + Aes.blockSize * count)).length - headerLength := by
    rw [hlength, Nat.add_sub_cancel_left]
    exact Nat.dvd_mul_right _ _
  have hpart := decrypt_of_whole hheader hwhole hkey
  have hprefix := decrypt_isPrefix (List.take_prefix _ _) hpart h
  have hsize := length_of_decrypt hpart
  rw [hlength, Nat.add_sub_cancel_left] at hsize
  rw [hpart, List.prefix_iff_eq_take.mp hprefix, hsize]

/-- Why a block is refused: first for its header, then for its ciphertext, then for the key. -/
inductive Refuses (block key : Bytes) : Fault → Prop
  | header (short : block.length < headerLength) : Refuses block key (.truncatedHeader block.length)
  | ciphertext (whole : headerLength ≤ block.length) (ragged : ¬ Aes.blockSize ∣ block.length - headerLength) :
      Refuses block key (.raggedCiphertext (block.length - headerLength))
  | key (whole : headerLength ≤ block.length) (even : Aes.blockSize ∣ block.length - headerLength)
      (unsupported : ¬ (key.length = 16 ∨ key.length = 24 ∨ key.length = 32)) :
      Refuses block key (.unsupportedKey key.length)

/-- A block is decrypted when nothing is missing: neither the header, nor bytes in its last block, nor the key. -/
theorem exists_decrypt_iff {block key : Bytes} : (∃ opened, decrypt block key = .ok opened) ↔
    headerLength ≤ block.length ∧ Aes.blockSize ∣ block.length - headerLength ∧
      (key.length = 16 ∨ key.length = 24 ∨ key.length = 32) := by
  constructor
  · rintro ⟨opened, hopened⟩
    obtain ⟨expanded, hheader, hwhole, hexpanded, -⟩ := decrypt_eq_ok hopened
    rw [List.length_drop] at hwhole
    refine ⟨hheader, hwhole, Decidable.by_contra fun hkey => ?_⟩
    rw [Aes.Key.ofBytes?, if_neg hkey] at hexpanded
    simp at hexpanded
  · rintro ⟨hheader, hwhole, hkey⟩
    have hexpanded : Aes.Key.ofBytes? key = some ⟨Aes.expandKey key⟩ := if_pos hkey
    exact ⟨_, decrypt_of_whole hheader hwhole hexpanded⟩

/-- What a block is refused for is the error of decrypting it. -/
theorem Refuses.decrypt_eq {block key : Bytes} {fault : Fault} (h : Refuses block key fault) :
    decrypt block key = .error fault := by
  cases h with
  | header short => exact if_pos short
  | ciphertext whole ragged =>
    rw [decrypt, if_neg (Nat.not_lt_of_le whole)]
    simp only [List.length_drop]
    exact if_pos fun hmod => ragged (Nat.dvd_of_mod_eq_zero hmod)
  | key whole even unsupported =>
    have hnone : Aes.Key.ofBytes? key = none := if_neg unsupported
    rw [decrypt, if_neg (Nat.not_lt_of_le whole)]
    simp only [List.length_drop, Nat.mod_eq_zero_of_dvd even, ne_eq, not_true_eq_false, if_false, hnone]

/-- The error of decrypting a block is what the block is refused for. -/
theorem decrypt_eq_error_iff {block key : Bytes} {fault : Fault} :
    decrypt block key = .error fault ↔ Refuses block key fault := by
  refine ⟨fun hfault => ?_, Refuses.decrypt_eq⟩
  have hsame : ∀ {other : Fault}, Refuses block key other → Refuses block key fault := fun hother =>
    Except.error.inj (hother.decrypt_eq.symm.trans hfault) ▸ hother
  by_cases hheader : block.length < headerLength
  · exact hsame (.header hheader)
  have hle : headerLength ≤ block.length := Nat.le_of_not_lt hheader
  by_cases hwhole : Aes.blockSize ∣ block.length - headerLength
  · refine hsame (.key hle hwhole fun hkey => ?_)
    obtain ⟨opened, hopened⟩ := exists_decrypt_iff.mpr ⟨hle, hwhole, hkey⟩
    simp [hopened] at hfault
  · exact hsame (.ciphertext hle hwhole)

end Reassembly.SealedBlock
