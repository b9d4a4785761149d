import Reassembly.Codec.Aes
import Reassembly.Codec.Base64

/-!
# Wrapped content keys

A file's content key travels wrapped under a secret that only the file's readers hold. The key is
written as a quoted Base64 text, padded and encrypted block by block with AES-256, and the
ciphertext is again written in Base64. The wrapping key is the Base64-decoded secret, cut or
zero-filled to 32 bytes.

Unwrapping does not look at the padding. It keeps the printable characters of the decrypted text,
drops the first and the last of them, which are the quotes, and decodes what is left.
-/

namespace Reassembly.ContentKey

/-- Why a content key cannot be unwrapped. -/
inductive Fault
  | secretNotBase64 (fault : Base64.Fault)
  | wrappedNotBase64 (fault : Base64.Fault)
  | raggedWrapping (length : Nat)
  | notText
  | tooShort
  | keyNotBase64 (fault : Base64.Fault)
  | empty
  deriving Repr, DecidableEq

/-- The wording of a fault. -/
def Fault.message : Fault → String
  | .secretNotBase64 fault => s!"secret is not valid base64: {fault.message}"
  | .wrappedNotBase64 fault => s!"wrapped key is not valid base64: {fault.message}"
  | .raggedWrapping length =>
    s!"wrapped key length {length} is not a positive multiple of {Aes.blockSize}"
  | .notText => "unwrapped key is not valid utf-8"
  | .tooShort => "unwrapped key is too short"
  | .keyNotBase64 fault => s!"unwrapped key is not valid base64: {fault.message}"
  | .empty => "unwrapped key is empty"

/-- The number of bytes of a wrapping key. -/
def wrappingKeyLength : Nat := 32

/-- Cut or zero-fill a secret to the length of a wrapping key. -/
def wrappingKey (secret : Bytes) : Bytes :=
  secret.take wrappingKeyLength ++ List.replicate (wrappingKeyLength - secret.length) 0

/-- The cipher of a secret. -/
def cipher (secret : Bytes) : Aes.Key := ⟨Aes.expandKey (wrappingKey secret)⟩

/-- The characters that survive unwrapping: the space and the graphic characters of ASCII. -/
def isPrintable (c : Char) : Bool := 0x20 ≤ c.toNat && c.toNat ≤ 0x7e

/-- The content key that a decrypted text quotes. -/
def ofText (text : String) : Except Fault Bytes :=
  let printable := text.toList.filter isPrintable
  if printable.length < 2 then .error .tooShort
  else
    let quoted := (printable.drop 1).dropLast
    match Base64.decode (Bytes.ofText (String.ofList quoted)) with
    | .error fault => .error (.keyNotBase64 fault)
    | .ok key => if key = [] then .error .empty else .ok key

/-- Recover a content key from its wrapped form. Both arguments are Base64 texts. -/
def unwrap (wrapped secret : Bytes) : Except Fault Bytes :=
  match Base64.decode secret with
  | .error fault => .error (.secretNotBase64 fault)
  | .ok secret =>
    match Base64.decode wrapped with
    | .error fault => .error (.wrappedNotBase64 fault)
    | .ok ciphertext =>
      if ciphertext = [] ∨ ciphertext.length % Aes.blockSize ≠ 0 then
        .error (.raggedWrapping ciphertext.length)
      else
        let plain := Aes.unblocks ((Aes.blocks ciphertext).map (cipher secret).decrypt)
        match Bytes.toText? plain with
        | none => .error .notText
        | some text => ofText text

/-- Wrap any text under a Base64 secret. -/
def wrapText (text secret : Bytes) : Except Base64.Fault Bytes := do
  let secret ← Base64.decode secret
  let padded := text ++ Aes.padding text.length
  return Base64.encode (Aes.unblocks ((Aes.blocks padded).map (cipher secret).encrypt))

/-- The quotation mark that encloses a wrapped key. -/
def quote : UInt8 := 0x22

/-- Wrap a content key under a Base64 secret. -/
def wrap (key secret : Bytes) : Except Base64.Fault Bytes :=
  wrapText (quote :: Base64.encode key ++ [quote]) secret

end Reassembly.ContentKey
