import Reassembly.Proofs.Retrieval.Life
import Reassembly.Proofs.Session.Retrieval
import Reassembly.Proofs.Words

/-!
# Which manifests are laid out, and where

A manifest is laid out when nothing is wrong with it, and otherwise refused for the first thing that is: chunks are
looked at one after the other, and of each its location before its size. In a file that is laid out every chunk stops
where the chunks through it are long together, so no end is beyond the size of the file, and the size is a number of 64
bits. From this alone it follows that words are enough for whatever is reckoned with chunks, blocks and fragments.
-/

namespace Reassembly

/-- A text is the name of a compression, up to the case of its letters; no text at all is a name of none. -/
def Compression.Named (compression : Compression) (text : String) : Prop :=
  text.map Char.toUpper = compression.name ∨ compression = none ∧ text = ""

/-- A text names the compression that is found for it. -/
theorem Compression.ofName?_eq_some_iff {text : String} {compression : Compression} :
    ofName? text = some compression ↔ compression.Named text := by
  have hempty : text.map Char.toUpper = "" ↔ text = "" := by
    rw [← String.toList_inj, ← String.toList_inj, String.toList_map]
    simp
  rw [ofName?, ofUpper?, Named, ← hempty]
  generalize text.map Char.toUpper = upper
  constructor
  · intro h
    split at h
    · next hname => exact Option.some.inj h ▸ .inl hname
    · split at h
      · next hname => exact Option.some.inj h ▸ .inl hname
      · split at h
        · next hname => exact Option.some.inj h ▸ hname.imp id (⟨rfl, ·⟩)
        · simp at h
  · rintro (rfl | ⟨rfl, rfl⟩)
    · cases compression <;> decide
    · decide

namespace Layout

variable {placed offset : Nat} {entries : List ManifestEntry} {chunks : List Chunk} {fault : Fault}
  {fileId : String} {manifest : Manifest} {layout : Layout}

section Entries

/-- The length of entries together. -/
def span (entries : List ManifestEntry) : Nat := (entries.map (·.length)).sum

/-- What is wrong with an entry that is to be placed at an offset: it has no location, or it does not fit there. -/
inductive Misfit (number offset : Nat) (entry : ManifestEntry) : Fault → Prop
  | noLocation (missing : entry.location = "") : Misfit number offset entry (.noLocation number)
  | oversized (located : entry.location ≠ "") (large : sizeBound ≤ offset + entry.length) :
      Misfit number offset entry (.oversized number)

/-- What is first wrong with some entries, when they are placed from an offset on: all entries before the one that is
a misfit have locations, and fit one behind the other. -/
def Misplaced (placed offset : Nat) (entries : List ManifestEntry) (fault : Fault) : Prop :=
  ∃ before entry after, entries = before ++ entry :: after ∧ (∀ other ∈ before, other.location ≠ "") ∧
    offset + span before < sizeBound ∧ Misfit (placed + before.length + 1) (offset + span before) entry fault

/-- A misfit is not placed. -/
theorem Misfit.place_eq {entry : ManifestEntry} (h : Misfit (placed + 1) offset entry fault)
    (rest : List ManifestEntry) : place placed offset (entry :: rest) = .error fault := by
  rw [place]
  cases h with
  | noLocation missing => exact if_pos missing
  | oversized located large => rw [if_neg located, if_pos large]

/-- An entry that fits is placed, and the others behind it. -/
theorem place_cons {entry : ManifestEntry} (hlocated : entry.location ≠ "") (hfits : offset + entry.length < sizeBound)
    (rest : List ManifestEntry) : place placed offset (entry :: rest) =
      (place (placed + 1) (offset + entry.length) rest).map
        (⟨placed + 1, offset, entry.length, entry.location⟩ :: ·) := by
  rw [place, if_neg hlocated, if_neg (Nat.not_le_of_lt hfits)]

/-- What is first wrong with entries is the failure of placing them. -/
theorem Misplaced.place_eq (h : Misplaced placed offset entries fault) :
    place placed offset entries = .error fault := by
  obtain ⟨before, entry, after, rfl, hlocated, hfits, hmisfit⟩ := h
  induction before generalizing placed offset with
  | nil => exact hmisfit.place_eq after
  | cons first rest ih =>
    obtain ⟨hfirst, hrest⟩ := List.forall_mem_cons.mp hlocated
    have hspan : offset + span (first :: rest) = offset + first.length + span rest := (Nat.add_assoc _ _ _).symm
    have hplace : placed + (first :: rest).length + 1 = placed + 1 + rest.length + 1 := by
      rw [List.length_cons]
      omega
    rw [hspan] at hfits hmisfit
    rw [hplace] at hmisfit
    rw [List.cons_append, place_cons hfirst (by omega), ih hrest hfits hmisfit]
    rfl

/-- Something is wrong with entries, or they all have locations and fit together, and are placed. -/
theorem misplaced_or_placed (placed : Nat) (hoffset : offset < sizeBound) (entries : List ManifestEntry) :
    (∃ fault, Misplaced placed offset entries fault) ∨ (∀ entry ∈ entries, entry.location ≠ "") ∧
      offset + span entries < sizeBound ∧ ∃ chunks, place placed offset entries = .ok chunks := by
  induction entries generalizing placed offset with
  | nil => exact .inr ⟨by simp, hoffset, [], rfl⟩
  | cons entry rest ih =>
    -- The location is looked at before the size, so that an entry that misses both is refused for its location.
    by_cases hlocated : entry.location = ""
    · exact .inl ⟨_, [], entry, rest, rfl, by simp, hoffset, .noLocation hlocated⟩
    by_cases hlarge : sizeBound ≤ offset + entry.length
    · exact .inl ⟨_, [], entry, rest, rfl, by simp, hoffset, .oversized hlocated hlarge⟩
    have hfits : offset + entry.length < sizeBound := Nat.lt_of_not_le hlarge
    have hspan : ∀ later, offset + span (entry :: later) = offset + entry.length + span later :=
      fun _ => (Nat.add_assoc _ _ _).symm
    rcases ih (placed + 1) hfits with
      ⟨fault, before, other, after, rfl, hbefore, hsum, hmisfit⟩ | ⟨hall, hsum, chunks, hchunks⟩
    · refine .inl ⟨fault, entry :: before, other, after, rfl, List.forall_mem_cons.mpr ⟨hlocated, hbefore⟩, ?_, ?_⟩
      · rw [hspan]
        exact hsum
      · rw [hspan, List.length_cons, Nat.add_comm before.length, ← Nat.add_assoc]
        exact hmisfit
    · refine .inr ⟨List.forall_mem_cons.mpr ⟨hlocated, hall⟩, ?_, _, by rw [place_cons hlocated hfits, hchunks]; rfl⟩
      rw [hspan]
      exact hsum

/-- Entries that have locations and fit together are placed. -/
theorem exists_place (placed : Nat) (hlocated : ∀ entry ∈ entries, entry.location ≠ "")
    (hfits : offset + span entries < sizeBound) : ∃ chunks, place placed offset entries = .ok chunks := by
  rcases misplaced_or_placed placed (Nat.lt_of_le_of_lt (Nat.le_add_right _ _) hfits) entries with
    ⟨fault, before, entry, after, rfl, -, -, hmisfit⟩ | ⟨-, -, hplaced⟩
  · exfalso
    cases hmisfit with
    | noLocation missing => exact hlocated entry (by simp) missing
    | oversized _ large =>
      have hspan : span (before ++ entry :: after) = span before + (entry.length + span after) := by
        rw [span, List.map_append, List.sum_append]
        rfl
      omega
  · exact hplaced

/-- A run of chunks has each chunk behind those before it. -/
theorem EndToEnd.offset_getElem? (h : EndToEnd placed offset chunks) {i : Nat} {chunk : Chunk}
    (hi : chunks[i]? = some chunk) : chunk.offset = offset + ((chunks.take i).map (·.length)).sum := by
  obtain ⟨hlt, rfl⟩ := List.getElem?_eq_some_iff.mp hi
  rw [← List.take_append_drop i chunks, List.drop_eq_getElem_cons hlt, endToEnd_append] at h
  obtain ⟨hfront, -, hoffset, -⟩ := h
  rw [hoffset, hfront.stopOf_eq]

end Entries

section Manifests

/-- What a manifest has to be for its file to be laid out. -/
structure Acceptable (manifest : Manifest) : Prop where
  nonempty : manifest.entries ≠ []
  named : ∃ compression : Compression, compression.Named manifest.compression
  keyed : manifest.encryption.encrypted = true → manifest.encryption.wrappedKey ≠ ""
  located : ∀ entry ∈ manifest.entries, entry.location ≠ ""
  fits : span manifest.entries ≤ 18446744073709551615

/-- The first thing for which a manifest is refused: it has no chunks, a compression that is not known, no key for an
encrypted file, or else a chunk that cannot be placed. -/
inductive Refused (manifest : Manifest) : Fault → Prop
  | noChunks (empty : manifest.entries = []) : Refused manifest .noChunks
  | unknownCompression (nonempty : manifest.entries ≠ [])
      (unnamed : ¬ ∃ compression : Compression, compression.Named manifest.compression) :
      Refused manifest (.unknownCompression manifest.compression)
  | noKey (nonempty : manifest.entries ≠ [])
      (named : ∃ compression : Compression, compression.Named manifest.compression)
      (encrypted : manifest.encryption.encrypted = true) (missing : manifest.encryption.wrappedKey = "") :
      Refused manifest .noKey
  | misplaced {fault : Fault} (nonempty : manifest.entries ≠ [])
      (named : ∃ compression : Compression, compression.Named manifest.compression)
      (keyed : manifest.encryption.encrypted = true → manifest.encryption.wrappedKey ≠ "")
      (first : Misplaced 0 0 manifest.entries fault) : Refused manifest fault

/-- How a file is laid out by its manifest. -/
structure Lays (fileId : String) (manifest : Manifest) (layout : Layout) : Prop where
  fileId_eq : layout.fileId = fileId
  named : layout.compression.Named manifest.compression
  encrypted_eq : layout.encrypted = manifest.encryption.encrypted
  wrappedKey_eq : layout.wrappedKey =
    if manifest.encryption.encrypted then some manifest.encryption.wrappedKey else none
  count_eq : layout.count = manifest.entries.length
  chunk_eq : ∀ (i : Nat) (entry : ManifestEntry), manifest.entries[i]? = some entry →
    layout.chunks[i]? = some ⟨i + 1, span (manifest.entries.take i), entry.length, entry.location⟩
  size_eq : layout.size = span manifest.entries

/-- A manifest whose text names a compression has it. -/
theorem compression?_eq_none (h : ¬ ∃ compression : Compression, compression.Named manifest.compression) :
    manifest.compression? = none := by
  cases hfound : manifest.compression? with
  | none => rfl
  | some compression => exact absurd ⟨compression, Compression.ofName?_eq_some_iff.mp hfound⟩ h

/-- A file has a key when it needs one. -/
theorem key_eq (h : manifest.encryption.encrypted = true → manifest.encryption.wrappedKey ≠ "") :
    key manifest.encryption =
      .ok (if manifest.encryption.encrypted then some manifest.encryption.wrappedKey else none) := by
  rw [key]
  split
  · next hencrypted => rw [if_neg (h hencrypted)]
  · rfl

/-- What a manifest is refused for is the failure of laying out its file. -/
theorem Refused.lay_eq (h : Refused manifest fault) : lay fileId manifest = .error fault := by
  rw [lay]
  cases h with
  | noChunks empty => rw [if_pos empty]; rfl
  | unknownCompression nonempty unnamed => rw [if_neg nonempty, compression?_eq_none unnamed]; rfl
  | noKey nonempty named encrypted missing =>
    obtain ⟨compression, hnamed⟩ := named
    have hfound : manifest.compression? = some compression := Compression.ofName?_eq_some_iff.mpr hnamed
    rw [if_neg nonempty, hfound, key, if_pos encrypted, if_pos missing]
    rfl
  | misplaced nonempty named keyed first =>
    obtain ⟨compression, hnamed⟩ := named
    have hfound : manifest.compression? = some compression := Compression.ofName?_eq_some_iff.mpr hnamed
    rw [if_neg nonempty, hfound, key_eq keyed]
    simp only [Result.ok_bind, first.place_eq]
    rfl

/-- The file of an acceptable manifest is laid out. -/
theorem Acceptable.exists_lay (h : Acceptable manifest) (fileId : String) :
    ∃ layout, lay fileId manifest = .ok layout := by
  obtain ⟨compression, hnamed⟩ := h.named
  have hfits : 0 + span manifest.entries < sizeBound := by
    have hle := h.fits
    rw [sizeBound]
    omega
  obtain ⟨chunks, hchunks⟩ := exists_place 0 h.located hfits
  exact ⟨_, lay_of_place h.nonempty (Compression.ofName?_eq_some_iff.mpr hnamed) (key_eq h.keyed) hchunks⟩

/-- A manifest is refused or acceptable. -/
theorem refused_or_acceptable (manifest : Manifest) : (∃ fault, Refused manifest fault) ∨ Acceptable manifest := by
  by_cases hsome : manifest.entries = []
  · exact .inl ⟨_, .noChunks hsome⟩
  by_cases hnamed : ∃ compression : Compression, compression.Named manifest.compression
  · by_cases hkeyed : manifest.encryption.encrypted = true → manifest.encryption.wrappedKey ≠ ""
    · rcases misplaced_or_placed 0 (show 0 < sizeBound by decide) manifest.entries with
        ⟨fault, hfirst⟩ | ⟨hlocated, hfits, -⟩
      · exact .inl ⟨fault, .misplaced hsome hnamed hkeyed hfirst⟩
      · rw [sizeBound] at hfits
        exact .inr ⟨hsome, hnamed, hkeyed, hlocated, by omega⟩
    · obtain ⟨hencrypted, hmissing⟩ := Classical.not_imp.mp hkeyed
      exact .inl ⟨_, .noKey hsome hnamed hencrypted (Decidable.of_not_not hmissing)⟩
  · exact .inl ⟨_, .unknownCompression hsome hnamed⟩

/-- A manifest is laid out exactly when it is acceptable. -/
theorem exists_ofManifest_iff : (∃ layout, ofManifest fileId manifest = .ok layout) ↔ Acceptable manifest := by
  simp only [ofManifest, Result.mapError_eq_ok_iff]
  constructor
  · rintro ⟨layout, hlayout⟩
    rcases refused_or_acceptable manifest with ⟨fault, hfault⟩ | hacceptable
    · simp [hfault.lay_eq] at hlayout
    · exact hacceptable
  · intro h
    exact h.exists_lay fileId

/-- A manifest is refused with the error of the first thing that is wrong with it. -/
theorem ofManifest_eq_error_iff {error : RetrievalError} :
    ofManifest fileId manifest = .error error ↔ ∃ fault, Refused manifest fault ∧ fault.error fileId = error := by
  rw [ofManifest, Result.mapError_eq_error_iff]
  refine exists_congr fun fault => and_congr_left fun _ => ⟨fun herror => ?_, Refused.lay_eq⟩
  rcases refused_or_acceptable manifest with ⟨first, hfirst⟩ | hacceptable
  · obtain rfl : fault = first := Except.error.inj (herror.symm.trans hfirst.lay_eq)
    exact hfirst
  · obtain ⟨layout, hlayout⟩ := hacceptable.exists_lay fileId
    simp [hlayout] at herror

/-- A manifest that is laid out is laid out as described. -/
theorem lays_of_ofManifest (h : ofManifest fileId manifest = .ok layout) : Lays fileId manifest layout := by
  have hacceptable := exists_ofManifest_iff.mp ⟨layout, h⟩
  obtain ⟨hid, hcompression, hkey, hplace, hsize⟩ := lay_eq_ok (lay_of_ofManifest h)
  obtain ⟨hchunks, hentries⟩ := endToEnd_of_place hplace
  rw [key_eq hacceptable.keyed, Except.ok.injEq] at hkey
  refine ⟨hid, Compression.ofName?_eq_some_iff.mp hcompression, ?_, hkey.symm, ?_, ?_, hsize⟩
  · rw [encrypted, ← hkey]
    cases manifest.encryption.encrypted <;> rfl
  · rw [count, ← hentries, List.length_map]
  · intro i entry hentry
    rw [← hentries, List.getElem?_map, Option.map_eq_some_iff] at hentry
    obtain ⟨chunk, hchunk, rfl⟩ := hentry
    have hnumber := hchunks.number_getElem? hchunk
    have hoffset := hchunks.offset_getElem? hchunk
    have hspan : span (manifest.entries.take i) = ((layout.chunks.take i).map (·.length)).sum := by
      rw [span, ← hentries, ← List.map_take, List.map_map]
      rfl
    rw [hchunk, hspan]
    obtain ⟨number, offset, length, location⟩ := chunk
    simp only [Nat.zero_add] at hnumber hoffset
    rw [hnumber, hoffset]

end Manifests

end Layout

end Reassembly
