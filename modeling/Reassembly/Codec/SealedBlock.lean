import Reassembly.Codec.Aes

/-!
# Sealed blocks

An encrypted chunk is stored as one format tag, a sixteen-byte initial vector, and AES-CBC
ciphertext of the padded payload under the file's content key. Encrypting writes that form.
Decrypting ignores the tag and leaves the padding in place: whoever reads the payload knows how
much of it counts.
-/

namespace Reassembly.SealedBlock

/-- The format tag that encrypting writes. -/
def tag : UInt8 := 0x01

/-- The number of bytes before the ciphertext: the tag and the initial vector. -/
def headerLength : Nat := 1 + Aes.blockSize

/-- Why a block cannot be decrypted. -/
inductive Fault
  | truncatedHeader (length : Nat)
  | raggedCiphertext (length : Nat)
  | unsupportedKey (length : Nat)
  | missingKey
  deriving Repr, DecidableEq

/-- The wording of a fault. -/
def Fault.message : Fault → String
  | .truncatedHeader length => s!"block of {length} bytes is shorter than the {headerLength} byte header"
  | .raggedCiphertext length => s!"ciphertext length {length} is not a multiple of {Aes.blockSize}"
  | .unsupportedKey length => s!"unsupported content key length {length}"
  | .missingKey => "no content key for encrypted file"

/-- The state that a sixteen-byte vector fills. -/
def chainStart (vector : Bytes) : Aes.State := (Aes.blocks vector).headD .zero

/-- Recover the payload of a block, with its padding. -/
def decrypt (block key : Bytes) : Except Fault Bytes :=
  if block.length < headerLength then .error (.truncatedHeader block.length)
  else
    let vector := (block.drop 1).take Aes.blockSize
    let ciphertext := block.drop headerLength
    if ciphertext.length % Aes.blockSize ≠ 0 then .error (.raggedCiphertext ciphertext.length)
    else
      match Aes.Key.ofBytes? key with
      | none => .error (.unsupportedKey key.length)
      | some key =>
        .ok (Aes.unblocks (key.decryptChained (chainStart vector) (Aes.blocks ciphertext)))

/-- Encrypt a payload. There is no block for a key or vector of the wrong length. -/
def encrypt? (payload key vector : Bytes) : Option Bytes :=
  match Aes.Key.ofBytes? key with
  | none => none
  | some key =>
    if vector.length = Aes.blockSize then
      let padded := payload ++ Aes.padding payload.length
      let ciphertext := key.encryptChained (chainStart vector) (Aes.blocks padded)
      some (tag :: vector ++ Aes.unblocks ciphertext)
    else none

end Reassembly.SealedBlock
