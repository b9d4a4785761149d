import Reassembly.Proofs.Json.Place
import Reassembly.Proofs.Json.Write

/-!
# A manifest is read from any of its texts

Each record is an object that gives its fields in any order, among members with other labels and any values. What its
reader holds is known from the labels that have come by, so that the order does not matter. A length is read as long as
it is below the bound of the numbers that can be read. What is written is one text of many.
-/

namespace Reassembly

open Json Reader Bytes

namespace Encryption

/-- The fields of an encryption record. -/
def fields (encryption : Encryption) : List Field :=
  [⟨"data_encrypted", (· = ofText (wordOf encryption.encrypted)), encryption.encrypted = false⟩,
    ⟨"wrapped_key", StringText encryption.wrappedKey, encryption.wrappedKey = ""⟩]

/-- The texts of an encryption record. -/
def Written (encryption : Encryption) (text : Bytes) : Prop := RecordText encryption.fields text

variable {encryption : Encryption}

/-- The places of an encryption record lie apart. -/
theorem Members.apart_places : places.Pairwise Place.Apart :=
  List.pairwise_pair.mpr ⟨by decide, fun _ _ => rfl, fun _ _ => rfl⟩

/-- The places of an encryption record are for its fields. -/
theorem fills_places {field : Field} (hfield : field ∈ encryption.fields) :
    ∃ place ∈ Members.places, Fills ⟨some encryption.encrypted, some encryption.wrappedKey⟩ field place := by
  rcases List.mem_pair.mp hfield with rfl | rfl
  · exact ⟨_, List.mem_cons_self, rfl, skims_boolean, encryption.encrypted, rfl,
      fun _ hwrites => hwrites ▸ reads_boolean _⟩
  · exact ⟨_, List.mem_cons_of_mem _ List.mem_cons_self, rfl, skims_string, encryption.wrappedKey, rfl,
      fun _ => reads_string⟩

/-- An encryption record is read from any of its texts. -/
theorem reads_json {text : Bytes} (h : encryption.Written text) : Reads json text encryption := by
  obtain ⟨blank, members, hblank, rfl, hgiven, hothers⟩ := h
  obtain ⟨final, htakes, hreached⟩ := exists_takes Members.apart_places rfl (fun _ => fills_places)
    {} (by simp [Reached, Members.places]) hgiven hothers
  obtain ⟨hencrypted, hkey, -⟩ := by simpa only [fields, List.forall_mem_cons] using hgiven
  obtain ⟨hfound, hfound', -⟩ := by simpa only [Reached, Members.places, List.forall_mem_cons] using hreached
  have hfinal : final.toEncryption = encryption := by
    rw [Members.toEncryption, hfound, hfound', hencrypted.getD id, hkey.getD id]
  exact reads_record hblank htakes fun s => congrArg (fun read => (pure read : JsonReader Encryption) s) hfinal

/-- What is written of an encryption record is one of its texts. -/
theorem written_render : encryption.Written (ofText encryption.render) :=
  recordText_writeObject (encryption.fields.zip [wordOf encryption.encrypted, writeString encryption.wrappedKey])
    (by simp [fields, stringText_writeString]) (by simp [fields])

end Encryption

namespace ManifestEntry

/-- The fields of an entry. Neither may be left out. -/
def fields (entry : ManifestEntry) : List Field :=
  [⟨"url", StringText entry.location, False⟩, ⟨"len", (· = digitsOf entry.length), False⟩]

/-- The texts of an entry. -/
def Written (entry : ManifestEntry) (text : Bytes) : Prop := RecordText entry.fields text

variable {entry : ManifestEntry}

/-- The places of an entry lie apart. -/
theorem Members.apart_places : places.Pairwise Place.Apart :=
  List.pairwise_pair.mpr ⟨by decide, fun _ _ => rfl, fun _ _ => rfl⟩

/-- The places of an entry are for its fields. -/
theorem fills_places (hlength : entry.length < naturalBound) {field : Field} (hfield : field ∈ entry.fields) :
    ∃ place ∈ Members.places, Fills ⟨some entry.location, some entry.length⟩ field place := by
  rcases List.mem_pair.mp hfield with rfl | rfl
  · exact ⟨_, List.mem_cons_self, rfl, skims_string, entry.location, rfl, fun _ => reads_string⟩
  · exact ⟨_, List.mem_cons_of_mem _ List.mem_cons_self, rfl, skims_natural, entry.length, rfl,
      fun _ hwrites => hwrites ▸ reads_natural hlength⟩

/-- An entry is read from any of its texts when its length can be. -/
theorem reads_json (hlength : entry.length < naturalBound) {text : Bytes} (h : entry.Written text) :
    Reads json text entry := by
  obtain ⟨blank, members, hblank, rfl, hgiven, hothers⟩ := h
  obtain ⟨final, htakes, hreached⟩ := exists_takes Members.apart_places rfl (fun _ => fills_places hlength)
    {} (by simp [Reached, Members.places]) hgiven hothers
  obtain ⟨hlocation, hlen, -⟩ := by simpa only [fields, List.forall_mem_cons] using hgiven
  obtain ⟨hfound, hfound', -⟩ := by simpa only [Reached, Members.places, List.forall_mem_cons] using hreached
  rw [if_pos (Decidable.not_not.mp fun hnone => hlocation.omissible_of_not_mem hnone)] at hfound
  rw [if_pos (Decidable.not_not.mp fun hnone => hlen.omissible_of_not_mem hnone)] at hfound'
  refine reads_record hblank htakes fun s => ?_
  obtain ⟨location, length⟩ := final
  obtain rfl : location = some entry.location := hfound
  obtain rfl : length = some entry.length := hfound'
  rfl

/-- What is written of an entry is one of its texts. -/
theorem written_render : entry.Written (ofText entry.render) :=
  recordText_writeObject (entry.fields.zip [writeString entry.location, toString entry.length])
    (by simp [fields, stringText_writeString, digitsOf]) (by simp [fields])

end ManifestEntry

namespace Manifest

/-- The texts of a list of entries. -/
def EntriesWritten (entries : List ManifestEntry) (text : Bytes) : Prop :=
  ∃ blank elements, Blank blank ∧ text = listText blank elements ∧
    List.Forall₂ (fun entry e => entry.Written e.value) entries elements

/-- The fields of a manifest. -/
def fields (manifest : Manifest) : List Field :=
  [⟨"encrypt_info", manifest.encryption.Written, manifest.encryption = {}⟩,
    ⟨"compression_type", StringText manifest.compression, manifest.compression = Compression.none.name⟩,
    ⟨"chunks", EntriesWritten manifest.entries, manifest.entries = []⟩]

/-- The texts of a manifest. -/
def Written (manifest : Manifest) (text : Bytes) : Prop := RecordText manifest.fields text

variable {manifest : Manifest}

/-- Entries are read from any of their texts when their lengths can be. -/
theorem reads_entriesJson {entries : List ManifestEntry} (hlengths : ∀ entry ∈ entries, entry.length < naturalBound)
    {text : Bytes} (h : EntriesWritten entries text) : Reads entriesJson text entries := by
  obtain ⟨blank, elements, hblank, rfl, hwritten⟩ := h
  refine reads_array hblank ?_
  induction hwritten with
  | nil => exact .nil
  | @cons entry e _ _ hfirst _ ih =>
    obtain ⟨hlength, hlater⟩ := List.forall_mem_cons.mp hlengths
    have hreads := ManifestEntry.reads_json hlength hfirst
    obtain ⟨blank', members, -, htext, -⟩ := hfirst
    exact .cons ⟨hreads, htext ▸ starts_objectText _ _⟩ (ih hlater)

/-- A reader of entries leaves space in front of them behind. -/
theorem skims_entriesJson : Skims entriesJson := skims_array _ _

/-- The places of a manifest lie apart. -/
theorem Members.apart_places : places.Pairwise Place.Apart := by
  refine List.pairwise_cons.mpr ⟨fun place hplace => ?_,
    List.pairwise_pair.mpr ⟨by decide, fun _ _ => rfl, fun _ _ => rfl⟩⟩
  rcases List.mem_pair.mp hplace with rfl | rfl
  · exact ⟨by decide, fun _ _ => rfl, fun _ _ => rfl⟩
  · exact ⟨by decide, fun _ _ => rfl, fun _ _ => rfl⟩

/-- The places of a manifest are for its fields. -/
theorem fills_places (hlengths : ∀ entry ∈ manifest.entries, entry.length < naturalBound) {field : Field}
    (hfield : field ∈ manifest.fields) :
    ∃ place ∈ Members.places,
      Fills ⟨some manifest.encryption, some manifest.compression, some manifest.entries⟩ field place := by
  rcases List.mem_cons.mp hfield with rfl | hfield
  · exact ⟨_, List.mem_cons_self, rfl, skims_record _ _, manifest.encryption, rfl,
      fun _ => Encryption.reads_json⟩
  rcases List.mem_pair.mp hfield with rfl | rfl
  · exact ⟨_, List.mem_cons_of_mem _ List.mem_cons_self, rfl, skims_string, manifest.compression, rfl,
      fun _ => reads_string⟩
  · exact ⟨_, List.mem_cons_of_mem _ (List.mem_cons_of_mem _ List.mem_cons_self), rfl, skims_entriesJson,
      manifest.entries, rfl, fun _ => reads_entriesJson hlengths⟩

/-- A manifest is read from any of its texts when the lengths of its entries can be. -/
theorem reads_json (hlengths : ∀ entry ∈ manifest.entries, entry.length < naturalBound) {text : Bytes}
    (h : manifest.Written text) : Reads (record ofObject ofArray) text manifest := by
  obtain ⟨blank, members, hblank, rfl, hgiven, hothers⟩ := h
  obtain ⟨final, htakes, hreached⟩ := exists_takes Members.apart_places rfl (fun _ => fills_places hlengths)
    {} (by simp [Reached, Members.places]) hgiven hothers
  obtain ⟨hencryption, hcompression, hentries, -⟩ := by simpa only [fields, List.forall_mem_cons] using hgiven
  obtain ⟨hfound, hfound', hfound'', -⟩ := by simpa only [Reached, Members.places, List.forall_mem_cons] using hreached
  have hfinal : final.toManifest = manifest := by
    rw [Members.toManifest, hfound, hfound', hfound'', hencryption.getD id, hcompression.getD id, hentries.getD id]
  exact reads_record hblank htakes fun s => congrArg (fun read => (pure read : JsonReader Manifest) s) hfinal

/-- A manifest is parsed from any of its texts when the lengths of its entries can be read. -/
theorem parse_written (hlengths : ∀ entry ∈ manifest.entries, entry.length < naturalBound) {p : Padded}
    (h : manifest.Written p.value) : parse p.text = .ok manifest :=
  whole_of_reads (skims_record _ _) (reads_json hlengths h)

/-- What is written of a manifest is one of its texts. -/
theorem written_render : manifest.Written (ofText manifest.render) := by
  have hentries : EntriesWritten manifest.entries
      (ofText (writeArray (manifest.entries.map ManifestEntry.render))) := by
    refine ⟨[], _, Blank.nil, ofText_writeArray _, ?_⟩
    rw [List.map_map, List.forall₂_map_right_iff, List.forall₂_same]
    exact fun entry _ => ManifestEntry.written_render
  exact recordText_writeObject (manifest.fields.zip [manifest.encryption.render, writeString manifest.compression,
    writeArray (manifest.entries.map ManifestEntry.render)])
    (by simp [fields, stringText_writeString, Encryption.written_render, hentries]) (by simp [fields])

/-- A written manifest is read back when the lengths of its entries can be. -/
theorem parse_render {manifest : Manifest} (h : ∀ entry ∈ manifest.entries, entry.length < naturalBound) :
    parse (ofText manifest.render) = .ok manifest := by
  have hparse := parse_written (p := .bare (ofText manifest.render)) h written_render
  rwa [Padded.text, Padded.bare, List.nil_append, List.append_nil] at hparse

end Manifest

end Reassembly
