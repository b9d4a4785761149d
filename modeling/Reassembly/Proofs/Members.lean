import Reassembly.Proofs.Truncation

/-!
# What stands behind a member

A gzip member ends where it ends: it gives its data whatever stands behind it, and is refused for what is wrong in it
whatever stands behind it. Only a source that ends before its member does can tell. So the padding that decrypting
leaves behind the member of an encrypted chunk changes nothing: the chunk is decoded as if it had been stored without
encryption.

None of this depends on which codes a decoder makes of the lengths that a block gives. What a block of codes takes
from the stream is settled bit by bit once its codes are made, so a dialect that lets more codes through reads more
members, each of which still ends where it ends.
-/

namespace Reassembly

namespace Gzip

variable {dialect : Deflate.Dialect} {source : Bytes}

/-- A source ends before the member at its start does, as far as can be told from it. -/
def EndsEarly (dialect : Deflate.Dialect) (source : Bytes) : Prop :=
  ∃ fault, decodeIn dialect source = .error fault ∧ fault.IsShort

/-- A source that gives data has a whole member. -/
theorem not_endsEarly_of_decodeIn {data : Bytes} (h : decodeIn dialect source = .ok data) :
    ¬ EndsEarly dialect source := by
  rintro ⟨fault, hfault, -⟩
  simp [h] at hfault

/-- A source that does not end early comes to the same whatever stands behind it. -/
theorem decodeIn_append_eq (h : ¬ EndsEarly dialect source) (trail : Bytes) :
    decodeIn dialect (source ++ trail) = decodeIn dialect source := by
  rw [settles_decodeIn source trail dialect fun fault hfault hshort => h ⟨fault, hfault, hshort⟩]
  cases decodeIn dialect source <;> rfl

end Gzip

namespace ResolvedFile

variable {dialect : Deflate.Dialect} {file : ResolvedFile} {chunk : Chunk}
  {key payload written trail opened data : Bytes}

/-- The same file, stored without encryption. -/
def unsealed (file : ResolvedFile) : ResolvedFile := ⟨{ file.layout with wrappedKey := none }, none⟩

/-- What an opened payload of a chunk comes to when it is a member. -/
def ofMember (dialect : Deflate.Dialect) (file : ResolvedFile) (chunk : Chunk) (opened : Bytes) :
    Except RetrievalError Bytes := do
  let context := chunk.context file.layout.fileId
  let data ← (Gzip.decodeIn dialect opened).mapError fun fault =>
    .decompress context (.decompress (.found (.gzip fault)))
  if data.length = chunk.length then return data else throw (.wrongLength context data.length)

/-- A chunk of a file of members is decoded from its opened payload. -/
theorem decodeIn_of_openPayload (hgzip : file.layout.compression = .gzip)
    (hopened : file.openPayload (chunk.context file.layout.fileId) payload = .ok opened) :
    file.decodeIn dialect chunk payload = file.ofMember dialect chunk opened := by
  have hexpand : file.expandPayloadIn dialect (chunk.context file.layout.fileId) opened =
      (Gzip.decodeIn dialect opened).mapError fun fault =>
        .decompress (chunk.context file.layout.fileId) (.decompress (.found (.gzip fault))) := by
    rw [expandPayloadIn, hgzip, if_pos (show Compression.gzip.isCompressed = true from rfl), Compression.decompressIn]
    cases Gzip.decodeIn dialect opened <;> rfl
  rw [decodeIn, hopened, Result.ok_bind, hexpand, ofMember]

/-- A chunk that is stored without encryption is decoded from its payload. -/
theorem decodeIn_unsealed (hgzip : file.layout.compression = .gzip) (written : Bytes) :
    file.unsealed.decodeIn dialect chunk written = file.ofMember dialect chunk written := by
  have hopened : file.unsealed.openPayload (chunk.context file.layout.fileId) written = .ok written := rfl
  exact decodeIn_of_openPayload hgzip hopened

/-- What is left behind a member by decrypting it does not change what its chunk is decoded to. -/
theorem decodeIn_of_decrypt (hgzip : file.layout.compression = .gzip) (hencrypted : file.layout.encrypted = true)
    (hkey : file.contentKey = some key) (hopened : SealedBlock.decrypt payload key = .ok (written ++ trail))
    (hwhole : ¬ Gzip.EndsEarly dialect written) :
    file.decodeIn dialect chunk payload = file.unsealed.decodeIn dialect chunk written := by
  have hpayload : file.openPayload (chunk.context file.layout.fileId) payload = .ok (written ++ trail) := by
    rw [openPayload, if_pos hencrypted, hkey]
    simp only [hopened]
    rfl
  rw [decodeIn_of_openPayload hgzip hpayload, decodeIn_unsealed hgzip, ofMember, ofMember,
    Gzip.decodeIn_append_eq hwhole]

/-- A whole member is decoded to its data, which must have the length of the chunk. -/
theorem ofMember_of_decodeIn (h : Gzip.decodeIn dialect written = .ok data) :
    file.ofMember dialect chunk written = if data.length = chunk.length then .ok data
      else .error (.wrongLength (chunk.context file.layout.fileId) data.length) := by
  rw [ofMember, h]
  rfl

end ResolvedFile

/-- A member ends where it ends.

Whatever codes a decoder lets through, and whatever blocks and fields the member has, a member that gives data gives
the same data whatever stands behind it, and a source that does not end before its member comes to the same whatever
stands behind it, its refusals included. So every encrypted chunk of members, of whatever file and under whatever key,
is decoded as if the padding that decrypting leaves behind the member were not there, nor the encryption. Every member
can be encrypted under every key and vector, and comes back as its data, or is refused for the length of it.
`Gzip.decode` and `ResolvedFile.decode` are the case of the standard dialect. -/
theorem member_ends_where_it_ends (dialect : Deflate.Dialect) :
    (∀ source data, Gzip.decodeIn dialect source = .ok data →
      ∀ trail, Gzip.decodeIn dialect (source ++ trail) = .ok data) ∧
    (∀ source, ¬ Gzip.EndsEarly dialect source →
      ∀ trail, Gzip.decodeIn dialect (source ++ trail) = Gzip.decodeIn dialect source) ∧
    ∀ (file : ResolvedFile) (chunk : Chunk) (key : Bytes), file.layout.compression = .gzip →
      file.layout.encrypted = true → file.contentKey = some key →
      (∀ payload written trail, SealedBlock.decrypt payload key = .ok (written ++ trail) →
        ¬ Gzip.EndsEarly dialect written →
        file.decodeIn dialect chunk payload = file.unsealed.decodeIn dialect chunk written) ∧
      ∀ written vector data, (key.length = 16 ∨ key.length = 24 ∨ key.length = 32) → vector.length = 16 →
        Gzip.decodeIn dialect written = .ok data →
        ∃ payload, SealedBlock.encrypt? written key vector = some payload ∧
          file.decodeIn dialect chunk payload = file.unsealed.decodeIn dialect chunk written ∧
          file.decodeIn dialect chunk payload = if data.length = chunk.length then .ok data
            else .error (.wrongLength (chunk.context file.layout.fileId) data.length) := by
  refine ⟨fun _ _ hdecode trail => Gzip.decodeIn_append hdecode trail, fun _ hwhole trail =>
    Gzip.decodeIn_append_eq hwhole trail, fun file chunk key hgzip hencrypted hkey =>
    ⟨fun _ _ _ hopened hwhole => ResolvedFile.decodeIn_of_decrypt hgzip hencrypted hkey hopened hwhole, ?_⟩⟩
  intro written vector data hlength hvector hdata
  obtain ⟨payload, hpayload⟩ : ∃ payload, SealedBlock.encrypt? written key vector = some payload :=
    SealedBlock.exists_encrypt? hlength hvector
  have hsame : file.decodeIn dialect chunk payload = file.unsealed.decodeIn dialect chunk written :=
    ResolvedFile.decodeIn_of_decrypt hgzip hencrypted hkey (SealedBlock.decrypt_of_encrypt? hpayload)
      (Gzip.not_endsEarly_of_decodeIn hdata)
  refine ⟨payload, hpayload, hsame, ?_⟩
  rw [hsame, ResolvedFile.decodeIn_unsealed hgzip, ResolvedFile.ofMember_of_decodeIn hdata]

/-- The dialect that lets code space stay unused while no more than one symbol has a code, however long. -/
def Deflate.Dialect.bySymbols : Dialect :=
  ⟨Code.ofCompleteLengths?, fun lengths =>
    if isOversubscribed lengths then none
    else if 1 < lengths.countP (· ≠ 0) ∧ ¬ isComplete lengths then none
    else some (Code.ofLengths lengths)⟩

/-- A member of two bytes in a block with codes, whose only distance code is two bits long. -/
def Gzip.loneCode : Bytes :=
  header ++ [0x05, 0xe0, 0x31, 0x0d, 0x00, 0x00, 0x00, 0x80, 0x20, 0x64, 0xc5, 0xfe, 0x21, 0x54, 0x03, 0x6d, 0x48,
    0x83, 0x9e, 0x02, 0x00, 0x00, 0x00]

/-- A member of three bytes gives them with two bytes behind it, ten bytes that are no header are refused for that with
an eleventh, and the member comes back from under a key of sixteen zeros. A member with a lone code of two bits, which
the standard dialect refuses and another one reads, gives its data with a byte behind it in the one that reads it. -/
theorem member_ends_where_it_ends_sample :
    Gzip.decode (Gzip.encode [1, 2, 3] ++ [9, 9]) = .ok [1, 2, 3] ∧
      Gzip.decode (List.replicate 10 0 ++ [1]) = .error .invalidHeader ∧
      (∃ payload, SealedBlock.encrypt? (Gzip.encode [1, 2, 3]) (List.replicate 16 0) (List.replicate 16 0) =
          some payload ∧
        ResolvedFile.sealedSample.decode ⟨1, 0, 3, ""⟩ payload = .ok [1, 2, 3]) ∧
      Gzip.decode Gzip.loneCode = .error (.deflate .corrupt) ∧
      Gzip.decodeIn .bySymbols Gzip.loneCode = .ok [97, 98] ∧
      Gzip.decodeIn .bySymbols (Gzip.loneCode ++ [9]) = .ok [97, 98] := by
  obtain ⟨hdata, hwhole, hchunks⟩ := member_ends_where_it_ends .standard
  have hnoHeader : ¬ Gzip.EndsEarly .standard (List.replicate 10 0) := by
    rintro ⟨fault, hfault, hshort⟩
    obtain rfl : Gzip.Fault.invalidHeader = fault := Except.error.inj hfault
    exact absurd hshort (by decide)
  obtain ⟨payload, hpayload, -, hdecode⟩ := (hchunks .sealedSample ⟨1, 0, 3, ""⟩ (List.replicate 16 0) rfl rfl rfl).2
    (Gzip.encode [1, 2, 3]) (List.replicate 16 0) [1, 2, 3] (.inl rfl) rfl (Gzip.decode_encode _)
  have hlone : Gzip.decodeIn .bySymbols Gzip.loneCode = .ok [97, 98] := by decide +kernel
  exact ⟨hdata _ _ (Gzip.decode_encode _) _, hwhole _ hnoHeader _, ⟨payload, hpayload, hdecode⟩, by decide +kernel,
    hlone, (member_ends_where_it_ends .bySymbols).1 _ _ hlone _⟩

end Reassembly
