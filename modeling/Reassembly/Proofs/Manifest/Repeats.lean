import Reassembly.Proofs.Manifest.Json

/-!
# A known field that stands twice is refused

Each record has a place for each of its known labels, and a place that is filled refuses its label. As a reading takes
the members of an object one by one, no known label stands twice among them, in a manifest or in any record inside it,
whether that is the object or the array form of the records around it.
-/

namespace Reassembly

open Json Reader Bytes

namespace Encryption

/-- The labels of an encryption record. -/
def labels : List String := ["data_encrypted", "wrapped_key"]

/-- What the places of an encryption record read passes. -/
theorem Members.passes_places : ∀ place ∈ places, Passes place.read := by
  simp [places, passes_boolean, passes_string]

/-- An encryption record passes. -/
theorem passes_json : Passes json := by
  have hmembers := passesParts_membersFrom (consumes_takeInto _) (passesMember_takeInto Members.passes_places) true {}
  refine passes_record (hmembers.bind fun _ => .pure _ _) ?_
  refine (passesParts_element? passes_boolean true).bind fun encrypted => ?_
  dsimp only
  split
  · exact (passesParts_element? passes_string false).bind fun _ => .pure _ _
  · exact (PassesParts.pure _ _).bind fun _ => .pure _ _

/-- An encryption record in which a known label stands twice. -/
def Repeated (text : Bytes) : Prop := ∃ lines, ObjectOf lines text ∧ Repeats labels lines

/-- An encryption record that is read has no known label twice. -/
theorem not_repeated {text : Bytes} (h : HasRead json text) : ¬ Repeated text := by
  rintro ⟨lines, htext, hrepeats⟩
  exact not_repeats_of_record Members.apart_places Members.passes_places htext h hrepeats

end Encryption

namespace ManifestEntry

/-- The labels of an entry. -/
def labels : List String := ["url", "len"]

/-- What the places of an entry read passes. -/
theorem Members.passes_places : ∀ place ∈ places, Passes place.read := by
  simp [places, passes_string, passes_natural]

/-- An entry passes. -/
theorem passes_json : Passes json := by
  have hmembers := passesParts_membersFrom (consumes_takeInto _) (passesMember_takeInto Members.passes_places) true {}
  refine passes_record (hmembers.bind fun members => ?_) ?_
  · unfold Members.toEntry
    split
    · exact .pure _ _
    · exact .refuse _ _ _
  · refine (passesParts_element? passes_string true).bind fun location => ?_
    split
    · exact .refuse _ _ _
    · refine (passesParts_element? passes_natural false).bind fun length => ?_
      split
      · exact .refuse _ _ _
      · exact .pure _ _

/-- An entry in which a known label stands twice. -/
def Repeated (text : Bytes) : Prop := ∃ lines, ObjectOf lines text ∧ Repeats labels lines

/-- An entry that is read has no known label twice. -/
theorem not_repeated {text : Bytes} (h : HasRead json text) : ¬ Repeated text := by
  rintro ⟨lines, htext, hrepeats⟩
  exact not_repeats_of_record Members.apart_places Members.passes_places htext h hrepeats

end ManifestEntry

namespace Manifest

/-- The labels of a manifest. -/
def labels : List String := ["encrypt_info", "compression_type", "chunks"]

/-- Entries pass. -/
theorem passes_entriesJson : Passes entriesJson := passes_array _ ManifestEntry.passes_json

/-- What the places of a manifest read passes. -/
theorem Members.passes_places : ∀ place ∈ places, Passes place.read := by
  simp [places, Encryption.passes_json, passes_string, passes_entriesJson]

/-- Entries of which one has a known label twice. -/
def EntriesRepeated (text : Bytes) : Prop :=
  ∃ elements, ListOf elements text ∧ ∃ e ∈ elements, ManifestEntry.Repeated e.value

/-- Entries that are read have no known label twice. -/
theorem not_entriesRepeated {text : Bytes} (h : HasRead entriesJson text) : ¬ EntriesRepeated text := by
  rintro ⟨elements, htext, e, he, hrepeated⟩
  exact ManifestEntry.not_repeated (hasRead_of_array ManifestEntry.passes_json htext h e he) hrepeated

/-- A manifest in which a known label stands twice: in its own object, or in a record inside it, which is the value of a
member or an element of an array. -/
inductive Repeated : Bytes → Prop
  | own {lines : List Line} {text : Bytes} (htext : ObjectOf lines text) (h : Repeats labels lines) : Repeated text
  | encryption {lines : List Line} {line : Line} {text : Bytes} (htext : ObjectOf lines text) (hline : line ∈ lines)
      (hname : Spells "encrypt_info".toList line.name) (h : Encryption.Repeated line.value.value) : Repeated text
  | entries {lines : List Line} {line : Line} {text : Bytes} (htext : ObjectOf lines text) (hline : line ∈ lines)
      (hname : Spells "chunks".toList line.name) (h : EntriesRepeated line.value.value) : Repeated text
  | firstElement {e : Padded} {later : List Padded} {text : Bytes} (htext : ListOf (e :: later) text)
      (h : Encryption.Repeated e.value) : Repeated text
  | thirdElement {first second e : Padded} {later : List Padded} {text : Bytes}
      (htext : ListOf (first :: second :: e :: later) text) (h : EntriesRepeated e.value) : Repeated text

/-- What has been read of the array form of a manifest: its first element, and its third. -/
theorem hasRead_of_ofArray {elements : List Padded} {text : Bytes} (htext : ListOf elements text)
    (h : HasRead (record ofObject ofArray) text) :
    (∀ e later, elements = e :: later → HasRead Encryption.json e.value) ∧
      ∀ first second e later, elements = first :: second :: e :: later → HasRead entriesJson e.value := by
  obtain ⟨blank, hblank, rfl, helements⟩ := htext
  obtain ⟨rest, manifest, t, h⟩ := h
  rw [listText_append, record_bracket] at h
  obtain ⟨read, u, hread, -⟩ := bind_eq_ok h
  obtain ⟨encryption, v, hencryption, hread⟩ := bind_eq_ok hread
  refine ⟨?_, ?_⟩
  · rintro e later rfl
    exact (element?_separated Encryption.passes_json (helements e List.mem_cons_self) hblank hencryption).1
  · rintro first second e later rfl
    obtain ⟨hfirst, hsecond, hthird, -⟩ := by simpa only [List.forall_mem_cons] using helements
    obtain ⟨-, hsome, rfl⟩ := element?_separated Encryption.passes_json hfirst hblank hencryption
    rw [if_pos hsome] at hread
    obtain ⟨compression, w, hcompression, hread⟩ := bind_eq_ok hread
    obtain ⟨-, hsome, rfl⟩ := element?_separated passes_string hsecond first.blank_behind hcompression
    dsimp only at hread
    rw [if_pos hsome] at hread
    obtain ⟨entries, x, hentries, -⟩ := bind_eq_ok hread
    exact (element?_separated passes_entriesJson hthird second.blank_behind hentries).1

/-- A manifest that is read has no known label twice. -/
theorem not_repeated {text : Bytes} (h : HasRead (record ofObject ofArray) text) : ¬ Repeated text := by
  intro hrepeated
  have htaken {lines : List Line} (htext : ObjectOf lines text) {line : Line} (hline : line ∈ lines) {label : String}
      (hname : Spells label.toList line.name) :
      ∃ members after rest, takeInto Members.places label members (line.tail ++ rest) = .ok (after, rest) :=
    (walks_of_record (passesMember_takeInto Members.passes_places) htext h).taken hline hname
  cases hrepeated with
  | own htext hrepeats => exact not_repeats_of_record Members.apart_places Members.passes_places htext h hrepeats
  | encryption htext hline hname hvalue =>
    obtain ⟨members, after, rest, htaken⟩ := htaken htext hline hname
    obtain ⟨-, encryption, hread, -⟩ := takeInto_eq_ok Members.apart_places List.mem_cons_self htaken
    exact Encryption.not_repeated (hasRead_of_memberValue (skims_record _ _) hread) hvalue
  | entries htext hline hname hvalue =>
    obtain ⟨members, after, rest, htaken⟩ := htaken htext hline hname
    obtain ⟨-, entries, hread, -⟩ := takeInto_eq_ok Members.apart_places
      (List.mem_cons_of_mem _ (List.mem_cons_of_mem _ List.mem_cons_self)) htaken
    exact not_entriesRepeated (hasRead_of_memberValue (skims_array _ _) hread) hvalue
  | firstElement htext hvalue => exact Encryption.not_repeated ((hasRead_of_ofArray htext h).1 _ _ rfl) hvalue
  | thirdElement htext hvalue => exact not_entriesRepeated ((hasRead_of_ofArray htext h).2 _ _ _ _ rfl) hvalue

/-- A text in which a known label stands twice is no manifest. -/
theorem parse_repeated {p : Padded} (h : Repeated p.value) : ∃ fault, parse p.text = .error fault := by
  cases hparse : parse p.text with
  | error fault => exact ⟨fault, rfl⟩
  | ok manifest => exact absurd h (not_repeated (hasRead_of_whole (skims_record _ _) hparse))

end Manifest

end Reassembly
