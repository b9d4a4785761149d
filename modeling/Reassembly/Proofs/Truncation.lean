import Reassembly.Proofs.Codec.Compression
import Reassembly.Proofs.Retrieval.Content
import Reassembly.Proofs.Upload.Payload

/-!
# Truncated payloads

A payload that is cut short is refused, or it gives the data of the chunk. Cutting into the ciphertext leaves
whole blocks of it or none that can be decrypted, and what these give is a part of what was encrypted; what is
decompressed from that part is a part of the data, and the check of its length lets only all of it through.
-/

namespace Reassembly

namespace ResolvedFile

variable {file : ResolvedFile} {chunk : Chunk} {context : ChunkContext}
  {data written payload part opened plain found : Bytes}

/-- Compressed data as a file stores it: as it is, or encrypted under the content key of the file with some
initial vector. -/
inductive Encloses (file : ResolvedFile) : Bytes → Bytes → Prop
  | plain (written : Bytes) (hplain : file.layout.encrypted = false) : Encloses file written written
  | sealed {written payload key vector : Bytes} (hencrypted : file.layout.encrypted = true)
      (hkey : file.contentKey = some key) (hsealed : SealedBlock.encrypt? written key vector = some payload) :
      Encloses file written payload

/-- Data as a file stores it in a chunk. -/
def Encodes (file : ResolvedFile) (data payload : Bytes) : Prop :=
  ∃ written, file.layout.compression.Writes data written ∧ file.Encloses written payload

/-- Opening what was enclosed gives it back, with something behind it. -/
theorem Encloses.exists_openPayload (h : file.Encloses written payload) (context : ChunkContext) :
    ∃ trail, file.openPayload context payload = .ok (written ++ trail) := by
  cases h with
  | plain hplain => exact ⟨[], by rw [openPayload, hplain, List.append_nil]; rfl⟩
  | sealed hencrypted hkey hsealed =>
    refine ⟨Aes.padding written.length, ?_⟩
    rw [openPayload, hencrypted, hkey, if_pos rfl]
    simp only [SealedBlock.decrypt_of_encrypt? hsealed]
    rfl

/-- A part of a payload that can be opened gives a part of what the payload gives. -/
theorem openPayload_isPrefix (hpart : part <+: payload) (hopened : file.openPayload context part = .ok opened)
    (hplain : file.openPayload context payload = .ok plain) : opened <+: plain := by
  rw [openPayload] at hopened hplain
  split at hopened
  · next hencrypted =>
    rw [if_pos hencrypted] at hplain
    split at hopened
    · simp at hopened
    · next key hkey =>
      rw [hkey] at hplain
      simp only [Result.mapError_eq_ok_iff] at hopened hplain
      exact SealedBlock.decrypt_isPrefix hpart hopened hplain
  · next hencrypted =>
    rw [if_neg hencrypted] at hplain
    obtain rfl := Except.ok.inj hopened
    obtain rfl := Except.ok.inj hplain
    exact hpart

/-- Cutting off padding leaves a part. -/
theorem cutPadding_isPrefix (length : Nat) (data : Bytes) : cutPadding length data <+: data := by
  rw [cutPadding]
  split
  · exact List.take_prefix _ _
  · exact List.prefix_rfl

/-- What has been written, cut short or with something behind it, is expanded to nothing else of the length of
the data. -/
theorem expandPayload_eq {trail : Bytes} (hwritten : file.layout.compression.Writes data written)
    (hpart : opened <+: written ++ trail) (hfound : file.expandPayload context opened = .ok found)
    (hlength : found.length = data.length) : found = data := by
  rw [expandPayload_def] at hfound
  split at hfound
  · rw [Result.mapError_eq_ok_iff] at hfound
    exact hwritten.decompress_eq hpart hfound hlength
  · next hcompressed =>
    generalize file.layout.compression = compression at hwritten hcompressed
    cases hwritten with
    | plain =>
      have hcut : found <+: opened := by
        obtain rfl := Except.ok.inj hfound
        split
        · exact cutPadding_isPrefix _ _
        · exact List.prefix_rfl
      exact (List.prefix_of_prefix_length_le (hcut.trans hpart) (List.prefix_append data trail)
        (Nat.le_of_eq hlength)).eq_of_length hlength
    | member | block | container => exact absurd rfl hcompressed

/-- Opening and expanding never refuse a payload for its length. -/
theorem expand_ne_wrongLength (place : ChunkContext) (actual : Nat) :
    (file.openPayload context payload >>= file.expandPayload context) ≠ .error (.wrongLength place actual) := by
  rw [Ne, Result.bind_eq_error_iff]
  rintro (hopen | ⟨opened, -, hexpand⟩)
  · rw [openPayload] at hopen
    split at hopen
    · split at hopen
      · simp at hopen
      · obtain ⟨_, _, hequal⟩ := Result.mapError_eq_error_iff.mp hopen
        simp at hequal
    · simp at hopen
  · rw [expandPayload_def] at hexpand
    split at hexpand
    · obtain ⟨_, _, hequal⟩ := Result.mapError_eq_error_iff.mp hexpand
      simp at hequal
    · simp at hexpand

/-- Decoding refuses a payload for its length when what it expands to has another than the chunk. -/
theorem decode_eq_wrongLength_iff {place : ChunkContext} {actual : Nat} :
    file.decode chunk payload = .error (.wrongLength place actual) ↔
      place = chunk.context file.layout.fileId ∧
        ∃ data, (file.openPayload (chunk.context file.layout.fileId) payload >>=
          file.expandPayload (chunk.context file.layout.fileId)) = .ok data ∧
            data.length = actual ∧ actual ≠ chunk.length := by
  have hsteps : file.decode chunk payload =
      ((file.openPayload (chunk.context file.layout.fileId) payload >>=
        file.expandPayload (chunk.context file.layout.fileId)) >>= fun data =>
          if data.length = chunk.length then pure data
          else throw (.wrongLength (chunk.context file.layout.fileId) data.length)) := by
    rw [decode_def]
    cases file.openPayload (chunk.context file.layout.fileId) payload <;> rfl
  rw [hsteps, Result.bind_eq_error_iff, or_iff_right (expand_ne_wrongLength _ _)]
  constructor
  · rintro ⟨data, hdata, hchecked⟩
    split at hchecked
    · simp at hchecked
    · next hlength =>
      obtain ⟨rfl, rfl⟩ : chunk.context file.layout.fileId = place ∧ data.length = actual := by
        simpa using hchecked
      exact ⟨rfl, data, hdata, rfl, hlength⟩
  · rintro ⟨rfl, data, hdata, rfl, hlength⟩
    exact ⟨data, hdata, if_neg hlength⟩

/-- A part of a payload gives nothing but the data of the chunk. -/
theorem Encodes.decode_eq (h : file.Encodes data payload) (hlength : data.length = chunk.length)
    (hpart : part <+: payload) (hfound : file.decode chunk part = .ok found) : found = data := by
  obtain ⟨written, hwritten, hencloses⟩ := h
  obtain ⟨hexpanded, hchecked⟩ := decode_eq_ok_iff.mp hfound
  obtain ⟨opened, hopened, hexpand⟩ := Result.bind_eq_ok_iff.mp hexpanded
  obtain ⟨trail, hwhole⟩ := hencloses.exists_openPayload (chunk.context file.layout.fileId)
  exact expandPayload_eq hwritten (openPayload_isPrefix hpart hopened hwhole) hexpand
    (hchecked.trans hlength.symm)

end ResolvedFile

namespace Encoding

variable {encoding : Encoding} {file : ResolvedFile} {key : Option Bytes} {vector data : Bytes}

/-- Data that is accepted is compressed into a well-formed payload. -/
theorem Accepts.writes_compress (h : encoding.Accepts data.length) :
    encoding.compression.Writes data (encoding.compress data) := by
  cases hcompression : encoding.compression with
  | none =>
    rw [compress, hcompression]
    exact .plain data
  | gzip =>
    rw [compress, hcompression]
    exact .member (Gzip.decode_encode data)
  | snappy =>
    cases hframed : encoding.framed with
    | true =>
      have hsmall := h hcompression
      rw [hframed, if_pos rfl] at hsmall
      rw [compress_container hcompression hframed, Snappy.encodeContainer_eq]
      have hversion : (Bytes.ofNatBigEndian 4 1 ++ Bytes.ofNatBigEndian 4 1).length = 8 := rfl
      have hwrites := Compression.Writes.container hversion
        (fun _ hblock => Snappy.length_block_lt hsmall hblock) (Snappy.decode_blocks hsmall)
      rw [Snappy.flatten_split (Nat.le_max_right _ _)] at hwrites
      exact hwrites
    | false =>
      rw [compress_rawBlock hcompression hframed]
      exact .block (Snappy.decode_encode (h.length_le hcompression hframed))

/-- What an encoding makes of a chunk is the data as the file stores it. -/
theorem encodes_payload (hstores : file.Stores encoding key) (hvector : vector.length = Aes.blockSize)
    (haccepts : encoding.Accepts data.length) : file.Encodes data (encoding.payload key vector data) := by
  refine ⟨encoding.compress data, hstores.compression ▸ haccepts.writes_compress, ?_⟩
  cases key with
  | none => exact .plain _ hstores.encrypted
  | some key =>
    obtain ⟨block, hblock⟩ : ∃ block, SealedBlock.encrypt? (encoding.compress data) key vector = some block :=
      SealedBlock.exists_encrypt? (hstores.keyLength key rfl) hvector
    rw [payload, enclose, hblock, Option.getD_some]
    exact .sealed hstores.encrypted hstores.contentKey hblock

end Encoding

/-- A truncated payload never gives wrong data.

Whatever data a chunk has, however it is compressed and framed, and under whatever key and vector it is
encrypted: any part of its payload, from nothing to all of it, is decoded to the data or refused. No payload
at all is decoded to data of another length than the chunk has, and one is refused for its length just when
it expands to data of another length, which the error names. -/
theorem decode_truncated (file : ResolvedFile) (chunk : Chunk) :
    (∀ data payload part, file.Encodes data payload → data.length = chunk.length → part <+: payload →
      file.decode chunk part = .ok data ∨ ∃ error, file.decode chunk part = .error error) ∧
    (∀ encoding key vector data, file.Stores encoding key → vector.length = Aes.blockSize →
      encoding.Accepts data.length → file.Encodes data (encoding.payload key vector data)) ∧
    (∀ payload data, file.decode chunk payload = .ok data → data.length = chunk.length) ∧
    ∀ payload place actual, file.decode chunk payload = .error (.wrongLength place actual) ↔
      place = chunk.context file.layout.fileId ∧
        ∃ data, (file.openPayload (chunk.context file.layout.fileId) payload >>=
          file.expandPayload (chunk.context file.layout.fileId)) = .ok data ∧
            data.length = actual ∧ actual ≠ chunk.length := by
  refine ⟨fun data payload part hencodes hlength hpart => ?_, fun _ _ _ _ hstores hvector haccepts =>
    Encoding.encodes_payload hstores hvector haccepts, fun _ _ hdecode =>
    (ResolvedFile.decode_eq_ok_iff.mp hdecode).2, fun _ _ _ => ResolvedFile.decode_eq_wrongLength_iff⟩
  cases hdecode : file.decode chunk part with
  | ok found =>
    obtain rfl := hencodes.decode_eq hlength hpart hdecode
    exact .inl rfl
  | error error => exact .inr ⟨error, rfl⟩

/-- A file in Snappy frames that is not encrypted. -/
def ResolvedFile.framedSample : ResolvedFile := ⟨⟨"f", none, .snappy, [], 3⟩, none⟩

/-- Three bytes in a container of two frames. -/
def Bytes.framedSample : Bytes := Snappy.container (List.replicate 8 0) [[2, 4, 1, 2], [1, 0, 3]]

/-- The frames of the sample hold the three bytes. -/
theorem ResolvedFile.encodes_framedSample : framedSample.Encodes [1, 2, 3] Bytes.framedSample :=
  have hreads : List.Forall₂ (fun block piece => Snappy.decode block = .ok piece)
      [[2, 4, 1, 2], [1, 0, 3]] [[1, 2], [3]] :=
    .cons (by decide +kernel) (.cons (by decide +kernel) .nil)
  ⟨Bytes.framedSample, .container rfl (by decide) hreads, .plain _ rfl⟩

/-- A file in gzip members that is encrypted under a key of sixteen zeros. -/
def ResolvedFile.sealedSample : ResolvedFile := ⟨⟨"f", some "", .gzip, [], 3⟩, some (List.replicate 16 0)⟩

/-- The encoding of that file stores it. -/
theorem ResolvedFile.stores_sealedSample :
    sealedSample.Stores { compression := .gzip, secret := some "" } (some (List.replicate 16 0)) where
  compression := rfl
  encrypted := rfl
  contentKey := rfl
  secret := rfl
  keyLength := by
    intro bytes hbytes
    obtain rfl := Option.some.inj hbytes
    exact .inl rfl

/-- An encrypted payload of three bytes gives them or nothing, wherever it is cut. A container without its last
byte gives two of them, and is refused. -/
theorem decode_truncated_sample :
    (∀ length, ResolvedFile.sealedSample.decode ⟨1, 0, 3, ""⟩
          ((Encoding.payload { compression := .gzip, secret := some "" } (some (List.replicate 16 0))
            (List.replicate 16 0) [1, 2, 3]).take length) = .ok [1, 2, 3] ∨
        ∃ error, ResolvedFile.sealedSample.decode ⟨1, 0, 3, ""⟩
          ((Encoding.payload { compression := .gzip, secret := some "" } (some (List.replicate 16 0))
            (List.replicate 16 0) [1, 2, 3]).take length) = .error error) ∧
      (ResolvedFile.framedSample.decode ⟨1, 0, 3, ""⟩ Bytes.framedSample = .ok [1, 2, 3] ∨
        ∃ error, ResolvedFile.framedSample.decode ⟨1, 0, 3, ""⟩ Bytes.framedSample = .error error) ∧
      ResolvedFile.framedSample.decode ⟨1, 0, 3, ""⟩ (Bytes.framedSample.take 30) =
        .error (.wrongLength ⟨"f", 1, 0, 3⟩ 2) := by
  obtain ⟨hsealed, hencodes, -, -⟩ := decode_truncated .sealedSample ⟨1, 0, 3, ""⟩
  obtain ⟨hframed, -, -, hwrong⟩ := decode_truncated .framedSample ⟨1, 0, 3, ""⟩
  refine ⟨fun length => ?_, ?_, ?_⟩
  · exact hsealed _ _ _ (hencodes _ _ _ _ ResolvedFile.stores_sealedSample rfl fun hsnappy => nomatch hsnappy) rfl
      (List.take_prefix _ _)
  · exact hframed _ _ _ ResolvedFile.encodes_framedSample rfl List.prefix_rfl
  · exact (hwrong _ _ _).mpr ⟨rfl, [1, 2], by decide +kernel, rfl, by decide⟩

end Reassembly
