import Reassembly.Proofs.Http.Exchange
import Reassembly.Proofs.Manifest.Json
import Reassembly.Proofs.Manifest.Repeats

/-!
# Manifests on the wire

A manifest comes back from any text that writes it, whichever order, space and spellings were chosen for it, and
whatever other members stand among its own. The text that a service writes is one of them. A text in which a known
field of an object stands twice is never taken for a manifest. So a response is read as the manifest that it writes,
and one that says a thing twice is refused for good.
-/

namespace Reassembly.Manifest

open Json Bytes

/-- A manifest whose lengths fit into 64 bits is read from every text of it, and so from what is written of it.

In a text of a manifest, the members of every object stand in any order, among others with any other names and any
well-formed values. A name or a string may be spelled in any way, and a member with a default may be missing when it has
that. A text in which a known field of an object stands twice is read as nothing: neither when the object is the
manifest itself, nor when it is a record inside it. -/
theorem parse_texts :
    (∀ manifest : Manifest, (∀ entry ∈ manifest.entries, entry.length < naturalBound) →
      (∀ p : Padded, manifest.Written p.value →
        parse p.text = .ok manifest ∧ HttpResponse.readManifest { body := p.text } = .done manifest) ∧
      manifest.Written (ofText manifest.render) ∧ parse (ofText manifest.render) = .ok manifest ∧
        HttpResponse.readManifest { body := ofText manifest.render } = .done manifest) ∧
    ∀ p : Padded, Repeated p.value →
      ∃ fault, parse p.text = .error fault ∧ HttpResponse.readManifest { body := p.text } =
        .fatal (.invalidResponse s!"json body could not be parsed: {fault.message}") := by
  refine ⟨fun manifest hlengths => ⟨fun p hwritten => ?_, written_render, ?_⟩, fun p hrepeated => ?_⟩
  · have hparse := parse_written hlengths hwritten
    rw [HttpResponse.readManifest_body rfl, hparse]
    exact ⟨rfl, rfl⟩
  · have hparse := parse_render hlengths
    rw [HttpResponse.readManifest_body rfl, hparse]
    exact ⟨rfl, rfl⟩
  · obtain ⟨fault, hfault⟩ := parse_repeated hrepeated
    rw [HttpResponse.readManifest_body rfl, hfault]
    exact ⟨fault, rfl, rfl⟩

/-- An entry. -/
def entrySample : ManifestEntry := ⟨"a/b", 5⟩

/-- The members of the entry, turned around, with one among them that nobody knows. -/
def membersSample : List Member :=
  [.written "len" (digitsOf 5), .written "x" (ofText "null"), .written "url" (quoted [0x61, 0x5c, 0x2f, 0x62])]

/-- The text of the members writes the entry. -/
theorem written_entrySample : entrySample.Written (objectText [] (membersSample.map Member.toLine)) := by
  have hlocation : StringText "a/b" (quoted [0x61, 0x5c, 0x2f, 0x62]) :=
    ⟨_, .cons (.plain (by decide) (by decide) (by decide)) (.cons (.short (by decide))
      (.cons (.plain (by decide) (by decide) (by decide)) .nil)), rfl⟩
  refine ⟨[], membersSample, Blank.nil, rfl, List.forall_mem_cons.mpr ⟨.inl ⟨_, rfl, hlocation⟩,
    List.forall_mem_singleton.mpr (.inl ⟨.written "len" (digitsOf 5), rfl, rfl⟩)⟩, ?_⟩
  simp only [membersSample, List.forall_mem_cons]
  exact ⟨fun hother => absurd hother (by decide), fun _ => .null, fun hother => absurd hother (by decide), by simp⟩

/-- A member for the entries of a manifest, under a name whose first letter is spelled by its number. -/
def chunksSample (value : Bytes) : Member where
  before := [0x0a]
  name := [0x5c, 0x75, 0x30, 0x30, 0x36, 0x33] ++ ofText "hunks"
  gap := [0x20]
  value := ⟨[0x20], value, [], .single (by decide), .nil⟩
  blank_before := .single (by decide)
  blank_gap := .single (by decide)
  label := "chunks"
  spells := .cons (.unit (.digits ⟨by decide, .inl rfl⟩ ⟨by decide, .inl rfl⟩ ⟨by decide, .inl rfl⟩
    ⟨by decide, .inl rfl⟩)) (spells_escaped "hunks".toList)

/-- The text of an object, and space around it. -/
def textSample (members : List Member) : Padded :=
  ⟨[0x20], objectText [] (members.map Member.toLine), [0x0a], .single (by decide), .single (by decide)⟩

/-- A manifest is read with a name and a string escaped, its members turned around and another one among them; and not
with its entries given once more under the escaped name. -/
theorem parse_texts_sample :
    parse (ofText " \x7b\n\"\\u0063hunks\" : [\x7b\"len\":5,\"x\":null,\"url\":\"a\\/b\"\x7d]\x7d\n") =
        .ok ⟨{}, "NONE", [⟨"a/b", 5⟩]⟩ ∧
      ∃ fault, parse (ofText " \x7b\"chunks\":null,\n\"\\u0063hunks\" : null\x7d\n") = .error fault := by
  obtain ⟨htexts, hrefused⟩ := parse_texts
  constructor
  · have hentries : EntriesWritten [entrySample]
        (listText [] [.bare (objectText [] (membersSample.map Member.toLine))]) :=
      ⟨[], _, Blank.nil, rfl, .cons written_entrySample .nil⟩
    have hwritten : Written ⟨{}, "NONE", [entrySample]⟩ (textSample [chunksSample (listText []
        [.bare (objectText [] (membersSample.map Member.toLine))])]).value := by
      refine ⟨[], [_], Blank.nil, rfl, List.forall_mem_cons.mpr ⟨.inr ⟨rfl, by decide⟩, List.forall_mem_cons.mpr
        ⟨.inr ⟨rfl, by decide⟩, List.forall_mem_singleton.mpr (.inl ⟨_, rfl, hentries⟩)⟩⟩, ?_⟩
      exact List.forall_mem_singleton.mpr fun hother => absurd hother (by decide)
    exact ((htexts ⟨{}, "NONE", [entrySample]⟩ (by decide)).1 _ hwritten).1
  · have hobject : ObjectOf ([Member.written "chunks" (ofText "null"), chunksSample (ofText "null")].map Member.toLine)
        (textSample [.written "chunks" (ofText "null"), chunksSample (ofText "null")]).value := by
      refine ⟨[], Blank.nil, rfl, ?_⟩
      simp only [List.map_cons, List.map_nil, List.forall_mem_cons]
      exact ⟨⟨(Member.written "chunks" (ofText "null")).spells.stringBody, .null⟩,
        ⟨(chunksSample (ofText "null")).spells.stringBody, .null⟩, by simp⟩
    have hrepeats : Repeats labels ([Member.written "chunks" (ofText "null"), chunksSample (ofText "null")].map
        Member.toLine) :=
      ⟨"chunks", by decide, _, _, .refl _, (Member.written "chunks" (ofText "null")).spells,
        (chunksSample (ofText "null")).spells⟩
    obtain ⟨fault, hfault, -⟩ := hrefused _ (.own hobject hrepeats)
    exact ⟨fault, hfault⟩

end Reassembly.Manifest
