import Reassembly.Proofs.Codec.Gzip
import Reassembly.Proofs.Codec.SealedBlock
import Reassembly.Proofs.Codec.Snappy.Frames
import Reassembly.Retrieval.ResolvedFile
import Reassembly.Service.Upload

/-!
# Payloads are decoded

Decrypting leaves the padding of the cipher behind the compressed data of a chunk. A container of frames and
a gzip member end where they end, and from a chunk that is not compressed the padding is cut off, so that
all of these give the data of the chunk. A raw block takes the padding for more of itself and is refused.
-/

namespace Reassembly

namespace Encoding

/-- Data of the length is small enough for its compression, whose blocks and frames have lengths of 32
bits. -/
def Accepts (encoding : Encoding) (length : Nat) : Prop :=
  encoding.compression = .snappy →
    Snappy.longestBlock (if encoding.framed then min length (max encoding.frameSize 1) else length) ≤
      Snappy.maxLength

/-- The chunks are raw blocks with the padding of a cipher behind them. -/
def PadsRawBlocks (encoding : Encoding) : Prop :=
  encoding.compression = .snappy ∧ encoding.framed = false ∧ encoding.secret.isSome = true

/-- What decrypting leaves behind a payload. -/
def residue (key : Option Bytes) (payload : Bytes) : Bytes :=
  match key with
  | none => []
  | some _ => Aes.padding payload.length

variable {encoding : Encoding} {key : Option Bytes} {data payload : Bytes}

/-- What is left behind a payload is no frame. -/
theorem framesOf_residue (key : Option Bytes) (payload : Bytes) : Snappy.framesOf (residue key payload) = [] := by
  cases key with
  | none => exact Snappy.framesOf_of_length_lt (Nat.succ_pos 3)
  | some key => exact Snappy.framesOf_padding _

/-- What is left behind a payload is at most a block of the cipher. -/
theorem length_residue_le (key : Option Bytes) (payload : Bytes) : (residue key payload).length ≤ Aes.blockSize := by
  cases key with
  | none => exact Nat.zero_le _
  | some key =>
    obtain ⟨n, -, hn, hpadding⟩ := Aes.padding_eq payload.length
    rw [residue, hpadding, List.length_replicate]
    exact hn

/-- Something is left behind a payload that was encrypted. -/
theorem residue_ne_nil (hkey : key.isSome = true) : residue key payload ≠ [] := by
  obtain ⟨key, rfl⟩ := Option.isSome_iff_exists.mp hkey
  obtain ⟨n, hn, -, hpadding⟩ := Aes.padding_eq payload.length
  rw [residue, hpadding, Ne, List.replicate_eq_nil_iff]
  omega

/-- Framed Snappy data is a container. -/
theorem compress_container (hcompression : encoding.compression = .snappy) (hframed : encoding.framed = true) :
    encoding.compress data = Snappy.encodeContainer data encoding.frameSize := by
  rw [compress, hcompression, hframed]
  rfl

/-- Snappy data without frames is a raw block. -/
theorem compress_rawBlock (hcompression : encoding.compression = .snappy) (hframed : encoding.framed = false) :
    encoding.compress data = Snappy.encode data := by
  rw [compress, hcompression, hframed]
  rfl

/-- Data that a raw block accepts has a length of 32 bits. -/
theorem Accepts.length_le (h : encoding.Accepts data.length) (hcompression : encoding.compression = .snappy)
    (hframed : encoding.framed = false) : data.length ≤ Snappy.maxLength := by
  have hlongest := h hcompression
  rw [hframed, if_neg Bool.false_ne_true] at hlongest
  exact Nat.le_trans (Snappy.length_le_longestBlock _) hlongest

/-- Compressed data gives the data back, whatever decrypting leaves behind it, unless it is a raw block. -/
theorem decompress_compress (hcompressed : encoding.compression.isCompressed = true)
    (haccepts : encoding.Accepts data.length)
    (hreads : ¬ (encoding.compression = .snappy ∧ encoding.framed = false ∧ key.isSome = true)) :
    encoding.compression.decompress (encoding.compress data ++ residue key (encoding.compress data)) = .ok data := by
  cases hcompression : encoding.compression with
  | none => simp [hcompression, Compression.isCompressed] at hcompressed
  | gzip =>
    rw [compress, hcompression, Compression.decompress_gzip, Gzip.decode_encode_append]
    rfl
  | snappy =>
    rw [Compression.decompress_snappy]
    cases hframed : encoding.framed with
    | true =>
      have hframe := haccepts hcompression
      rw [hframed, if_pos rfl] at hframe
      rw [compress_container hcompression hframed, Snappy.decodePayload_encodeContainer hframe (framesOf_residue _ _)]
      rfl
    | false =>
      obtain rfl : key = none := by
        cases key with
        | none => rfl
        | some key => exact absurd ⟨hcompression, hframed, rfl⟩ hreads
      rw [compress_rawBlock hcompression hframed, residue, List.append_nil,
        Snappy.decodePayload_encode (haccepts.length_le hcompression hframed)]
      rfl

/-- A raw block with padding behind it is refused. -/
theorem decompress_rawBlock (hcompression : encoding.compression = .snappy) (hframed : encoding.framed = false)
    (hkey : key.isSome = true) (haccepts : encoding.Accepts data.length) :
    ∃ fault, encoding.compression.decompress
      (encoding.compress data ++ residue key (encoding.compress data)) = .error (.snappy (.block fault)) := by
  have htrail : residue key (Snappy.encode data) ≠ [] := residue_ne_nil hkey
  obtain ⟨fault, hfault⟩ :=
    Snappy.decodePayload_encode_trail (haccepts.length_le hcompression hframed) htrail
  refine ⟨fault, ?_⟩
  rw [compress_rawBlock hcompression hframed, hcompression, Compression.decompress_snappy, hfault]
  rfl

end Encoding

namespace ResolvedFile

/-- A file is compressed as an encoding says, and holds the key under which it is encrypted. -/
structure Stores (file : ResolvedFile) (encoding : Encoding) (key : Option Bytes) : Prop where
  compression : file.layout.compression = encoding.compression
  encrypted : file.layout.encrypted = key.isSome
  contentKey : file.contentKey = key
  secret : encoding.secret.isSome = key.isSome
  keyLength : ∀ bytes, key = some bytes → bytes.length = 16 ∨ bytes.length = 24 ∨ bytes.length = 32

variable {file : ResolvedFile} {encoding : Encoding} {key : Option Bytes} {vector data payload : Bytes}
  {context : ChunkContext} {chunk : Chunk}

/-- Opening a payload that was enclosed gives it back, with what decrypting leaves behind it. -/
theorem Stores.openPayload_enclose (h : file.Stores encoding key) (hvector : vector.length = Aes.blockSize)
    (context : ChunkContext) (payload : Bytes) :
    file.openPayload context (Encoding.enclose key vector payload) =
      .ok (payload ++ Encoding.residue key payload) := by
  rw [openPayload, h.encrypted, h.contentKey]
  cases hkey : key with
  | none => simp [Encoding.enclose, Encoding.residue]
  | some bytes =>
    obtain ⟨block, hblock⟩ : ∃ block, SealedBlock.encrypt? payload bytes vector = some block :=
      SealedBlock.exists_encrypt? (h.keyLength bytes hkey) hvector
    rw [Encoding.enclose, hblock, Option.getD_some, Option.isSome_some, if_pos rfl]
    simp only [SealedBlock.decrypt_of_encrypt? hblock]
    rfl

/-- Of a chunk that is not compressed, what decrypting leaves is cut off. -/
theorem cutPadding_append {trail : Bytes} (htrail : trail.length ≤ Aes.blockSize) (data : Bytes) :
    cutPadding data.length (data ++ trail) = data := by
  have hshort : (data ++ trail).length ≤ data.length + Aes.blockSize := by
    rw [List.length_append]
    exact Nat.add_le_add_left htrail _
  rw [cutPadding, if_pos hshort, List.take_left]

/-- Expanding what opening has given gives the data of the chunk. -/
theorem Stores.expandPayload_compress (h : file.Stores encoding key) (haccepts : encoding.Accepts data.length)
    (hreads : ¬ encoding.PadsRawBlocks) (hlength : context.length = data.length) :
    file.expandPayload context
      (encoding.compress data ++ Encoding.residue key (encoding.compress data)) = .ok data := by
  rw [Encoding.PadsRawBlocks, h.secret] at hreads
  rw [expandPayload_def, h.compression]
  by_cases hcompressed : encoding.compression.isCompressed = true
  · rw [if_pos hcompressed, Encoding.decompress_compress hcompressed haccepts hreads]
    rfl
  · have hnone : encoding.compression = .none := by
      cases hcompression : encoding.compression with
      | none => rfl
      | snappy | gzip => simp [hcompression, Compression.isCompressed] at hcompressed
    have hdata : encoding.compress data = data := by rw [Encoding.compress, hnone]
    rw [if_neg hcompressed, hdata, h.encrypted, hlength]
    cases key with
    | none => simp [Encoding.residue]
    | some bytes => rw [Option.isSome_some, if_pos rfl, cutPadding_append (Encoding.length_residue_le _ _)]

/-- The payload of a chunk is decoded to the data of the chunk. -/
theorem Stores.decode_payload (h : file.Stores encoding key) (haccepts : encoding.Accepts data.length)
    (hreads : ¬ encoding.PadsRawBlocks) (hvector : vector.length = Aes.blockSize)
    (hlength : chunk.length = data.length) : file.decode chunk (encoding.payload key vector data) = .ok data := by
  rw [decode_def, Encoding.payload, h.openPayload_enclose hvector, Result.ok_bind,
    h.expandPayload_compress haccepts hreads hlength, Result.ok_bind, if_pos hlength.symm]
  rfl

/-- The payload of a chunk that is a raw block with padding behind it cannot be decoded. -/
theorem Stores.decode_rawBlock (h : file.Stores encoding key) (haccepts : encoding.Accepts data.length)
    (hpads : encoding.PadsRawBlocks) (hvector : vector.length = Aes.blockSize) :
    ∃ fault, file.decode chunk (encoding.payload key vector data) =
      .error (.decompress (chunk.context file.layout.fileId)
        (.decompress (.found (.snappy (.block fault))))) := by
  obtain ⟨hcompression, hframed, hsecret⟩ := hpads
  obtain ⟨fault, hfault⟩ := Encoding.decompress_rawBlock hcompression hframed (h.secret.symm.trans hsecret) haccepts
  have hcompressed : encoding.compression.isCompressed = true := by rw [hcompression]; rfl
  refine ⟨fault, ?_⟩
  rw [decode_def, Encoding.payload, h.openPayload_enclose hvector, Result.ok_bind, expandPayload_def, h.compression,
    if_pos hcompressed, hfault]
  rfl

end ResolvedFile

end Reassembly
