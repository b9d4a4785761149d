import Reassembly.Codec.Gzip
import Reassembly.Proofs.Bytes
import Reassembly.Proofs.Codec.Deflate
import Reassembly.Proofs.Result

/-!
# Gzip members are read back

A member is written with stored blocks, so that reading it takes whole bytes but for the three bits with
which a block starts. What stands behind a member, of whatever blocks, is not looked at: neither the header
with its optional fields nor the trailer is read past its own end, and the stream between them is not either.
A member that is refused for anything but its end is refused for the same, whatever stands behind it.
-/

namespace Reassembly

namespace Deflate

open Reader

section WholeBytes

/-- A number of more bits is read as its low bits and its high bits. -/
theorem bits_add {low high : Nat} {s t u : BitStream} {n m : Nat} (hlow : bits low s = .ok (n, t))
    (hhigh : bits high t = .ok (m, u)) : bits (low + high) s = .ok (n + Nat.pow 2 low * m, u) := by
  induction low generalizing s n with
  | zero =>
    obtain ⟨rfl, rfl⟩ := pure_eq_ok hlow
    simpa using hhigh
  | succ low ih =>
    obtain ⟨b, v, hbit, hrest⟩ := bind_eq_ok hlow
    obtain ⟨k, w, hk, hsum⟩ := bind_eq_ok hrest
    obtain ⟨rfl, rfl⟩ := pure_eq_ok hsum
    rw [Nat.succ_add, bits, bind_of_ok hbit, bind_of_ok (ih hk)]
    have hpow : Nat.pow 2 (low + 1) = 2 * Nat.pow 2 low := Nat.mul_comm _ _
    show Except.ok (b.toNat + 2 * (k + Nat.pow 2 low * m), u) = _
    rw [hpow, Nat.mul_add, Nat.add_assoc, Nat.mul_assoc]

/-- A number of eight bits is read as a byte at its start. -/
theorem bits_byte (b : UInt8) (rest : Bytes) : bits 8 ⟨[], b :: rest⟩ = .ok (b.toNat, ⟨[], rest⟩) := by
  have hvalue : ∀ b : UInt8, (BitStream.bitsOfByte b).foldr (fun c n => c.toNat + 2 * n) 0 = b.toNat :=
    Bytes.forall_byte (by decide +kernel)
  rw [← hvalue b]
  rfl

/-- A number of sixteen bits is read as two bytes, low byte first. -/
theorem bits_two_bytes (a b : UInt8) (rest : Bytes) :
    bits 16 ⟨[], a :: b :: rest⟩ = .ok (Bytes.littleEndian [a, b], ⟨[], rest⟩) := by
  show bits (8 + 8) _ = _
  rw [bits_add (bits_byte a (b :: rest)) (bits_byte b rest)]
  rfl

/-- A number below 65536 is read from its two bytes. -/
theorem bits_ofNat {n : Nat} (h : n < 65536) (rest : Bytes) :
    bits 16 ⟨[], Bytes.ofNatLittleEndian 2 n ++ rest⟩ = .ok (n, ⟨[], rest⟩) := by
  show bits 16 ⟨[], UInt8.ofNat n :: UInt8.ofNat (n / 256) :: rest⟩ = _
  rw [bits_two_bytes]
  show Except.ok (Bytes.littleEndian (Bytes.ofNatLittleEndian 2 n), _) = _
  rw [Bytes.littleEndian_ofNat h]

/-- Whole bytes are taken from a stream that starts with them. -/
theorem bytes_append (data rest : Bytes) : bytes data.length ⟨[], data ++ rest⟩ = .ok (data, ⟨[], rest⟩) := by
  simp only [bytes, List.take_left, List.drop_left, Nat.lt_irrefl, if_false]

end WholeBytes

section StoredBlocks

variable (dialect : Dialect)

/-- Reading a stored block behind the bits of its kind gives its data. -/
theorem readStored_eq {data : Bytes} (hlength : data.length ≤ maxStored) (pending : List Bool)
    (out : Array UInt8) (rest : Bytes) :
    readStored out ⟨pending, Bytes.ofNatLittleEndian 2 data.length ++
      (Bytes.ofNatLittleEndian 2 (maxStored - data.length) ++ (data ++ rest))⟩ =
      .ok (out ++ data, ⟨[], rest⟩) := by
  have hbound : maxStored < 65536 := by decide
  have hcomplement : data.length + (maxStored - data.length) = 0xffff := Nat.add_sub_cancel' hlength
  rw [readStored, bind_of_ok rfl, bind_of_ok (bits_ofNat (by omega) _), bind_of_ok (bits_ofNat (by omega) _),
    if_pos hcomplement, bind_of_ok (bytes_append data rest)]
  rfl

/-- A stored block is read as its data, and as the last block if it is marked so. -/
theorem readBlock_writeStored {data : Bytes} (hlength : data.length ≤ maxStored) (last : Bool)
    (out : Array UInt8) (rest : Bytes) :
    readBlock dialect out ⟨[], writeStored last data ++ rest⟩ = .ok ((last, out ++ data), ⟨[], rest⟩) := by
  have hmark : bit ⟨[], writeStored last data ++ rest⟩ =
      .ok (last, ⟨List.replicate 7 false, Bytes.ofNatLittleEndian 2 data.length ++
        (Bytes.ofNatLittleEndian 2 (maxStored - data.length) ++ (data ++ rest))⟩) := by
    rw [writeStored, List.cons_append, List.append_assoc, List.append_assoc]
    cases last <;> rfl
  rw [readBlock, bind_of_ok hmark, bind_of_ok rfl]
  show (readStored out >>= fun more => pure (last, more)) _ = _
  rw [bind_of_ok (readStored_eq hlength _ out rest)]
  rfl

/-- The blocks that data is stored in are read as the data. -/
theorem readBlocks_store (data : Bytes) (out : Array UInt8) (rest : Bytes) :
    readBlocks dialect out ⟨[], store data ++ rest⟩ = .ok (out ++ data, ⟨[], rest⟩) := by
  fun_induction store data generalizing out with
  | case1 data hshort => exact readBlocks_last (readBlock_writeStored dialect hshort true out rest)
  | case2 data hlong ih =>
    have hpart : (data.take maxStored).length ≤ maxStored := List.length_take_le _ _
    have hwhole : out ++ data.take maxStored ++ data.drop maxStored = out ++ data := by
      apply Array.ext'
      rw [Array.toList_appendList, Array.toList_appendList, Array.toList_appendList, List.append_assoc,
        List.take_append_drop]
    rw [List.append_assoc, readBlocks_more (readBlock_writeStored dialect hpart false out _), ih, hwhole]

/-- Stored data is read back, and what stands behind it is left. -/
theorem inflate_store (data rest : Bytes) : inflate dialect (store data ++ rest) = .ok (data, rest) := by
  rw [inflate, BitStream.ofBytes, readBlocks_store]
  simp

end StoredBlocks

end Deflate

namespace Gzip

/-- The header that is written has no fields. -/
theorem readHeader_header (rest : Bytes) : readHeader (header ++ rest) = .ok rest := by
  rfl

/-- The trailer that is written fits its data. -/
theorem checkTrailer_eq (data rest : Bytes) :
    checkTrailer data (Bytes.ofNatLittleEndian 4 (Crc32.checksum data).toNat ++
      (Bytes.ofNatLittleEndian 4 data.length ++ rest)) = .ok () := by
  have hcheck : Bytes.littleEndian (Bytes.ofNatLittleEndian 4 (Crc32.checksum data).toNat) =
      (Crc32.checksum data).toNat := Bytes.littleEndian_ofNat (Crc32.checksum data).toNat_lt
  have hlength : Bytes.littleEndian (Bytes.ofNatLittleEndian 4 data.length) = data.length % lengthBound := by
    simp only [Bytes.ofNatLittleEndian, Bytes.littleEndian, UInt8.toNat_ofNat', lengthBound]
    omega
  exact if_pos ⟨hcheck, hlength⟩

section Trails

/-- A member is refused because it ends too early. -/
def Fault.IsShort (fault : Fault) : Prop := fault = .truncated ∨ fault = .deflate .incomplete

instance (fault : Fault) : Decidable fault.IsShort := inferInstanceAs (Decidable (_ ∨ _))

variable {α β : Type} {follow : α → α} {result more : Except Fault α}

/-- What comes of a source with more bytes behind it, against what comes of it without them: the same refusal, or the
same value with those bytes behind what is left. When the source ends too early, anything may come of it. -/
def Settles (follow : α → α) (result more : Except Fault α) : Prop :=
  (∀ fault, result = .error fault → ¬ fault.IsShort) → more = result.map follow

/-- A source that ends too early settles nothing. -/
theorem Settles.of_isShort {fault : Fault} (h : fault.IsShort) : Settles follow (.error fault) more :=
  fun hlong => absurd h (hlong fault rfl)

/-- Reading on behind what is settled is settled. -/
theorem Settles.bind {next : β → β} {f g : α → Except Fault β} (h : Settles follow result more)
    (hnext : ∀ a, Settles next (f a) (g (follow a))) : Settles next (result >>= f) (more >>= g) := by
  intro hlong
  cases result with
  | error fault =>
    rw [Result.error_bind] at hlong ⊢
    have hmore : more = .error fault := h fun _ hfault => hlong _ (congrArg _ (Except.error.inj hfault))
    rw [hmore]
    rfl
  | ok a =>
    have hmore : more = .ok (follow a) := h fun _ hfault => nomatch hfault
    rw [Result.ok_bind] at hlong ⊢
    rw [hmore, Result.ok_bind]
    exact hnext a hlong

variable (source trail : Bytes)

/-- The fixed part of a header is settled. -/
theorem settles_readFixed :
    Settles (fun read => (read.1, read.2 ++ trail)) (readFixed source) (readFixed (source ++ trail)) := by
  fun_cases readFixed source with
  | case1 _ _ _ _ _ _ _ _ _ _ _ hvalid => exact fun _ => if_pos hvalid
  | case2 _ _ _ _ _ _ _ _ _ _ _ hinvalid => exact fun _ => if_neg hinvalid
  | case3 => exact .of_isShort (.inl rfl)

/-- An extra field is settled. -/
theorem settles_skipExtra : Settles (· ++ trail) (skipExtra source) (skipExtra (source ++ trail)) := by
  fun_cases skipExtra source with
  | case1 => exact .of_isShort (.inl rfl)
  | case2 a b rest length henough =>
    have hlength : length ≤ rest.length := by
      rw [List.length_take] at henough
      omega
    have hmore : skipExtra (a :: b :: (rest ++ trail)) =
        if ((rest ++ trail).take length).length < length then .error .truncated
        else .ok ((rest ++ trail).drop length) := rfl
    intro _
    rw [List.cons_append, List.cons_append, hmore, List.take_append_of_le_length hlength,
      List.drop_append_of_le_length hlength, if_neg henough]
    rfl
  | case3 => exact .of_isShort (.inl rfl)

/-- A text is settled. -/
theorem settles_skipText (room : Nat) :
    Settles (· ++ trail) (skipText room source) (skipText room (source ++ trail)) := by
  fun_induction skipText room source with
  | case1 => exact .of_isShort (.inl rfl)
  | case2 =>
    rw [List.cons_append, skipText.eq_def]
    exact fun _ => if_pos rfl
  | case3 _ _ hsome =>
    rw [List.cons_append, skipText.eq_def]
    exact fun _ => if_neg hsome
  | case4 b rest hsome room ih =>
    have hmore : skipText (room + 1) (b :: (rest ++ trail)) = skipText room (rest ++ trail) := if_neg hsome
    rwa [List.cons_append, hmore]

/-- The check of a header is settled. -/
theorem settles_skipCheck (checked : Bytes) :
    Settles (· ++ trail) (skipCheck checked source) (skipCheck checked (source ++ trail)) := by
  fun_cases skipCheck checked source with
  | case1 _ _ _ hfits => exact fun _ => if_pos hfits
  | case2 _ _ _ hwrong => exact fun _ => if_neg hwrong
  | case3 => exact .of_isShort (.inl rfl)

/-- Skip a field of a header if it is present. -/
def skipIf (present : Bool) (skip : Bytes → Except Fault Bytes) (source : Bytes) : Except Fault Bytes :=
  if present then skip source else .ok source

/-- A header is its fixed part and the fields that this announces, one after the other. -/
theorem readHeader_eq :
    readHeader source = (readFixed source >>= fun (flags, fixed) =>
      skipIf flags.extra skipExtra fixed >>= fun rest =>
        skipIf flags.name (skipText maxText) rest >>= fun rest =>
          skipIf flags.comment (skipText maxText) rest >>= fun rest =>
            skipIf flags.check (skipCheck (source.take (source.length - rest.length))) rest) := by
  rw [readHeader]
  congr 1
  funext ⟨⟨extra, name, comment, check⟩, fixed⟩
  cases extra <;> cases name <;> cases comment <;> rfl

/-- A field that is settled is so whether or not it is present. -/
theorem settles_skipIf {skip skip' : Bytes → Except Fault Bytes} (present : Bool)
    (h : Settles (· ++ trail) (skip source) (skip' (source ++ trail))) :
    Settles (· ++ trail) (skipIf present skip source) (skipIf present skip' (source ++ trail)) := by
  cases present with
  | false => exact fun _ => rfl
  | true => exact h

/-- The bytes that the check of a header covers are those before what is left, whatever stands behind it. -/
theorem covered_append (rest : Bytes) :
    (source ++ trail).take ((source ++ trail).length - (rest ++ trail).length) =
      source.take (source.length - rest.length) := by
  rw [List.length_append, List.length_append, Nat.add_sub_add_right, List.take_append_of_le_length (Nat.sub_le _ _)]

/-- A header is settled. -/
theorem settles_readHeader : Settles (· ++ trail) (readHeader source) (readHeader (source ++ trail)) := by
  rw [readHeader_eq, readHeader_eq]
  refine (settles_readFixed source trail).bind fun (flags, fixed) => ?_
  refine (settles_skipIf fixed trail flags.extra (settles_skipExtra _ _)).bind fun extra => ?_
  refine (settles_skipIf extra trail flags.name (settles_skipText _ _ _)).bind fun name => ?_
  refine (settles_skipIf name trail flags.comment (settles_skipText _ _ _)).bind fun comment => ?_
  rw [covered_append]
  exact settles_skipIf comment trail flags.check (settles_skipCheck _ _ _)

/-- A stream is settled. -/
theorem settles_inflate (dialect : Deflate.Dialect) : Settles (fun read => (read.1, read.2 ++ trail))
    ((Deflate.inflate dialect source).mapError .deflate)
    ((Deflate.inflate dialect (source ++ trail)).mapError .deflate) := by
  intro hlong
  rw [Deflate.inflate_append]
  · cases Deflate.inflate dialect source <;> rfl
  · intro hshort
    rw [hshort] at hlong
    exact hlong _ rfl (.inr rfl)

/-- The trailer is settled. -/
theorem settles_checkTrailer (data : Bytes) :
    Settles id (checkTrailer data source) (checkTrailer data (source ++ trail)) := by
  fun_cases checkTrailer data source with
  | case1 _ _ _ _ _ _ _ _ _ hfits => exact fun _ => if_pos hfits
  | case2 _ _ _ _ _ _ _ _ _ hwrong => exact fun _ => if_neg hwrong
  | case3 => exact .of_isShort (.inl rfl)

/-- A member is settled, with nothing left that more bytes could follow. -/
theorem settles_decodeIn (dialect : Deflate.Dialect) :
    Settles id (decodeIn dialect source) (decodeIn dialect (source ++ trail)) := by
  rw [decodeIn, decodeIn]
  refine (settles_readHeader source trail).bind fun body => ?_
  refine (settles_inflate body trail dialect).bind fun (data, rest) => ?_
  exact (settles_checkTrailer rest trail data).bind fun _ _ => rfl

/-- A member that is read in a dialect gives the same data whatever stands behind it. -/
theorem decodeIn_append {dialect : Deflate.Dialect} {source data : Bytes} (h : decodeIn dialect source = .ok data)
    (trail : Bytes) : decodeIn dialect (source ++ trail) = .ok data := by
  rw [settles_decodeIn source trail dialect (by simp [h]), h]
  rfl

/-- A member that is read gives the same data whatever stands behind it. -/
theorem decode_append {source data : Bytes} (h : decode source = .ok data) (trail : Bytes) :
    decode (source ++ trail) = .ok data := decodeIn_append h trail

end Trails

/-- A member gives its data back in every dialect, since no codes stand in it. -/
theorem decodeIn_encode (dialect : Deflate.Dialect) (data : Bytes) : decodeIn dialect (encode data) = .ok data := by
  have htrailer := checkTrailer_eq data []
  rw [List.append_nil] at htrailer
  rw [encode, List.append_assoc, List.append_assoc, decodeIn, readHeader_header, Result.ok_bind,
    Deflate.inflate_store]
  show (checkTrailer data _ >>= fun _ => _) = _
  rw [htrailer]
  rfl

/-- A member gives its data back. -/
theorem decode_encode (data : Bytes) : decode (encode data) = .ok data := decodeIn_encode .standard data

/-- A member gives its data back, whatever stands behind it. -/
theorem decode_encode_append (data trail : Bytes) : decode (encode data ++ trail) = .ok data :=
  decode_append (decode_encode data) trail

end Gzip

end Reassembly
