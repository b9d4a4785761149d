import Reassembly.Proofs.Codec.SealedBlock
import Reassembly.Retrieval.ResolvedFile

/-!
# Decrypting blocks

Whether a block can be decrypted is settled by three lengths: those of the block, of its ciphertext and of the key.
What it gives is the payload that was encrypted, with the padding behind it; its tag does not count, and a block that
is cut off between two blocks of the cipher gives the first part of it. So truncation is left for others to notice.
-/

namespace Reassembly.SealedBlock

/-- Decrypting inverts encrypting, up to the padding.

A block is decrypted exactly when it has a header of seventeen bytes, whole blocks of sixteen bytes behind it, and a
key of sixteen, twenty-four or thirty-two bytes. It is refused otherwise for the first of the three that is missing,
and where it is the payload of a chunk, with an error of decryption that belongs to the chunk. What is decrypted has
as many bytes as the ciphertext, does not depend on the tag, and is a part of the same when the block is cut off
behind some blocks of its ciphertext. Every payload can be encrypted under every key and vector, and comes back with
between one and sixteen bytes behind it, each of them their number. -/
theorem decrypt_inverts_encrypt (key : Bytes) :
    (∀ block, (∃ opened, decrypt block key = .ok opened) ↔
      17 ≤ block.length ∧ 16 ∣ block.length - 17 ∧ (key.length = 16 ∨ key.length = 24 ∨ key.length = 32)) ∧
    (∀ block fault, decrypt block key = .error fault ↔ Refuses block key fault) ∧
    (∀ block fault, Refuses block key fault → ∀ (file : ResolvedFile) (context : ChunkContext),
      file.layout.encrypted = true → file.contentKey = some key →
        file.openPayload context block = .error (.blockDecrypt context (.blockDecrypt (.found fault)))) ∧
    (∀ first other rest, decrypt (first :: rest) key = decrypt (other :: rest) key) ∧
    (∀ block opened, decrypt block key = .ok opened → opened.length = block.length - 17 ∧
      ∀ count, 17 + 16 * count ≤ block.length →
        decrypt (block.take (17 + 16 * count)) key = .ok (opened.take (16 * count))) ∧
    ∀ payload vector, (key.length = 16 ∨ key.length = 24 ∨ key.length = 32) → vector.length = 16 →
      ∃ block, encrypt? payload key vector = some block ∧
        decrypt block key = .ok (payload ++ List.replicate (16 - payload.length % 16)
          (UInt8.ofNat (16 - payload.length % 16))) := by
  refine ⟨fun block => exists_decrypt_iff, fun block fault => decrypt_eq_error_iff, ?_,
    fun first other rest => decrypt_cons_congr first other rest key, fun block opened hopened =>
      ⟨length_of_decrypt hopened, fun count hcount => decrypt_take hopened hcount⟩, ?_⟩
  · intro block fault hrefuses file context hencrypted hkey
    rw [ResolvedFile.openPayload, if_pos hencrypted, hkey]
    simp only [hrefuses.decrypt_eq]
    rfl
  · intro payload vector hkey hvector
    obtain ⟨block, hblock⟩ : ∃ block, encrypt? payload key vector = some block := exists_encrypt? hkey hvector
    exact ⟨block, hblock, decrypt_of_encrypt? hblock⟩

/-- A block of three bytes under a key of sixteen zeros comes back with thirteen bytes of padding. A header alone is
decrypted to nothing, and one without its last byte is refused. -/
theorem decrypt_inverts_encrypt_sample :
    (∃ block, encrypt? [1, 2, 3] (List.replicate 16 0) (List.replicate 16 0) = some block ∧
      decrypt block (List.replicate 16 0) = .ok ([1, 2, 3] ++ List.replicate 13 13)) ∧
    (∃ opened, decrypt (List.replicate 33 0) (List.replicate 16 0) = .ok opened ∧ opened.length = 16 ∧
      decrypt (List.replicate 17 0) (List.replicate 16 0) = .ok []) ∧
    decrypt (List.replicate 16 0) (List.replicate 16 0) = .error (.truncatedHeader 16) := by
  obtain ⟨haccepts, hrefuses, -, -, hopened, hinverts⟩ := decrypt_inverts_encrypt (List.replicate 16 0)
  refine ⟨hinverts [1, 2, 3] (List.replicate 16 0) (.inl rfl) rfl, ?_, ?_⟩
  · obtain ⟨opened, hopens⟩ := (haccepts (List.replicate 33 0)).mpr ⟨by decide, by decide, .inl rfl⟩
    obtain ⟨hlength, hparts⟩ := hopened _ _ hopens
    exact ⟨opened, hopens, hlength, hparts 0 (by decide)⟩
  · exact (hrefuses _ _).mpr (.header (by decide))

end Reassembly.SealedBlock
