import Reassembly.Codec.Compression
import Reassembly.Proofs.Codec.Gzip
import Reassembly.Proofs.Codec.Snappy.Prefix

/-!
# Parts of compressed data

Whatever a compressor does to write data, as long as what it writes is well formed: a part of it, or it with
something behind it, gives the data or something of another length. What is cut off cannot be made up, since
what a part gives is a part of what the whole gives.
-/

namespace Reassembly.Compression

variable {compression : Compression} {data written part whole found : Bytes}

/-- Data as it can be written in a compression: as it is, in a gzip member, in a raw Snappy block, or in a
container of such blocks, each of a length of 32 bits. -/
inductive Writes : Compression → Bytes → Bytes → Prop
  | plain (data : Bytes) : Writes none data data
  | member {data written : Bytes} (h : Gzip.decode written = .ok data) : Writes gzip data written
  | block {data written : Bytes} (h : Snappy.decode written = .ok data) : Writes snappy data written
  | container {version : Bytes} {blocks pieces : List Bytes} (hversion : version.length = 8)
      (hsmall : ∀ block ∈ blocks, block.length < Nat.pow 256 4)
      (hreads : List.Forall₂ (fun block piece => Snappy.decode block = .ok piece) blocks pieces) :
      Writes snappy pieces.flatten (Snappy.container version blocks)

/-- What has been written gives the data. -/
theorem Writes.decompress (h : compression.Writes data written) : compression.decompress written = .ok data := by
  cases h with
  | plain => rfl
  | member h =>
    rw [decompress_gzip, h]
    rfl
  | block h =>
    have hmagic : ¬ Snappy.magic <+: written := by
      intro hmagic
      obtain ⟨fault, hfault⟩ := Snappy.decode_of_magic hmagic
      simp [hfault] at h
    rw [decompress_snappy, Snappy.decodePayload, if_neg hmagic, h]
    rfl
  | @container version blocks pieces hversion hsmall hreads =>
    have hpayload := Snappy.decodePayload_container hversion hsmall hreads
      (Snappy.framesOf_of_length_lt (show ([] : Bytes).length < 4 from Nat.succ_pos 3))
    rw [List.append_nil] at hpayload
    rw [decompress_snappy, hpayload]
    rfl

/-- A part of a payload that can be decompressed gives a part of what the payload gives. -/
theorem decompress_isPrefix (hpart : part <+: whole) (hfound : compression.decompress part = .ok found)
    (hdata : compression.decompress whole = .ok data) : found <+: data := by
  cases compression with
  | none =>
    obtain rfl := Except.ok.inj hfound
    obtain rfl := Except.ok.inj hdata
    exact hpart
  | gzip =>
    -- A member ends where it ends, so that a part with a whole member in it gives all of the data.
    obtain ⟨trail, rfl⟩ := hpart
    rw [decompress_gzip, Result.mapError_eq_ok_iff] at hfound hdata
    rw [Gzip.decode_append hfound trail] at hdata
    obtain rfl := Except.ok.inj hdata
    exact List.prefix_rfl
  | snappy =>
    rw [decompress_snappy, Result.mapError_eq_ok_iff] at hfound hdata
    exact Snappy.decodePayload_isPrefix hpart hfound hdata

/-- What has been written, cut short or with something behind it, gives nothing else of the length of the
data. -/
theorem Writes.decompress_eq {trail : Bytes} (h : compression.Writes data written) (hpart : part <+: written ++ trail)
    (hfound : compression.decompress part = .ok found) (hlength : found.length = data.length) : found = data := by
  rcases List.prefix_or_prefix_of_prefix hpart (List.prefix_append written trail) with hcut | hlonger
  · exact (decompress_isPrefix hcut hfound h.decompress).eq_of_length hlength
  · exact ((decompress_isPrefix hlonger h.decompress hfound).eq_of_length hlength.symm).symm

end Reassembly.Compression
