import Mathlib.Data.List.Induction
import Reassembly.Proofs.Service.Calls

/-!
# Files of a depot keep to their addresses

The names of files are texts of any kind. They may have slashes and digits in them, and one may be the start
of another; still the location that a depot announces for a chunk leads to this chunk of this file alone,
since the index of the chunk stands behind the last slash.

What is found there does not depend on which calls came between: whatever has been stored, uploaded or told
about other files, and whatever was refused, a file has the payloads that it was last stored with, in the order
of the chunks of its manifest, and a chunk of it is slow, or fails, only because it was told so since then.
-/

namespace Reassembly

section History

/-- What was read last of some changes, or a value for want of any. -/
def DepotChange.latest {α : Type} (read? : DepotChange → Option α) (otherwise : α) (changes : List DepotChange) : α :=
  (changes.filterMap read?).getLast?.getD otherwise

/-- What a change says about the refusal of a manifest. -/
def DepotChange.refusal? : DepotChange → Option (Option Refusal)
  | refuse refusal => some refusal
  | _ => none

/-- What a change says about how long downloads of a chunk take. -/
def DepotChange.delay? (index : Nat) : DepotChange → Option Nat
  | slow place delay => if place = index then some delay else none
  | _ => none

/-- A change lets a chunk fail. -/
def DepotChange.spoils (index : Nat) : DepotChange → Bool
  | spoil place => place = index
  | _ => false

/-- Of the changes asked of a file, those since it was last stored. -/
def DepotChange.LastStored (changes : List DepotChange) (contents : Consignment) (since : List DepotChange) : Prop :=
  ∃ before change, changes = before ++ change :: since ∧ change.contents? = some contents ∧
    ∀ later ∈ since, later.contents? = none

/-- What calls have asked of one file. -/
def DepotCall.changesOf (fileId : String) (calls : List DepotCall) : List DepotChange :=
  (calls.filter (·.fileId = fileId)).map (·.change)

/-- A file is what it was stored with, changed by what was asked of it since. -/
structure StoredFile.Keeps (file : StoredFile) (contents : Consignment) (since : List DepotChange) : Prop where
  encryption : file.encryption = contents.manifest.encryption
  compression : file.compression = contents.manifest.compression
  lengths : file.chunks.map (·.length) = contents.manifest.entries.map (·.length)
  payloads : file.chunks.map (·.payload) = contents.payloads
  refusal : file.refusal = DepotChange.latest DepotChange.refusal? none since
  delay : ∀ index chunk, file.chunks[index]? = some chunk →
    chunk.delay = DepotChange.latest (DepotChange.delay? index) 0 since
  fails : ∀ index chunk, file.chunks[index]? = some chunk → chunk.fails = since.any (DepotChange.spoils index)

variable {α : Type} {file altered : StoredFile} {contents : Consignment} {since : List DepotChange}
  {change : DepotChange}

/-- A file is last stored with as many payloads as entries. -/
theorem DepotChange.LastStored.length_eq {changes : List DepotChange} (h : LastStored changes contents since) :
    contents.manifest.entries.length = contents.payloads.length := by
  obtain ⟨_, change, -, hcontents, -⟩ := h
  exact length_of_contents? hcontents

/-- The last change says what was read last, if it says anything. -/
theorem DepotChange.latest_concat (read? : DepotChange → Option α) (otherwise : α) (changes : List DepotChange)
    (change : DepotChange) :
    latest read? otherwise (changes ++ [change]) = (read? change).getD (latest read? otherwise changes) := by
  rw [latest, List.filterMap_append, latest]
  cases hread : read? change with
  | none => simp [hread]
  | some value => simp [hread]

/-- The chunks of a consignment, one for each announced entry with its payload. -/
theorem Consignment.chunks_file (contents : Consignment) :
    contents.file.chunks = (contents.manifest.entries.zip contents.payloads).map fun stored =>
      ⟨stored.1.length, stored.2, 0, false⟩ := by
  rw [List.map_zip_eq_zipWith]
  rfl

/-- A file that has just been stored is what it was stored with. -/
theorem Consignment.keeps_file (h : contents.manifest.entries.length = contents.payloads.length) :
    contents.file.Keeps contents [] := by
  have hnew : ∀ (index : Nat) (chunk : StoredChunk), contents.file.chunks[index]? = some chunk →
      chunk.delay = 0 ∧ chunk.fails = false := by
    intro index chunk hchunk
    rw [chunks_file] at hchunk
    obtain ⟨stored, -, rfl⟩ := List.mem_map.mp (List.mem_of_getElem? hchunk)
    exact ⟨rfl, rfl⟩
  refine ⟨rfl, rfl, ?_, ?_, rfl, fun index chunk hchunk => (hnew index chunk hchunk).1,
    fun index chunk hchunk => (hnew index chunk hchunk).2⟩
  · have hentries := List.map_fst_zip (Nat.le_of_eq h)
    rw [chunks_file, List.map_map, ← congrArg (List.map (·.length)) hentries, List.map_map]
    rfl
  · have hpayloads := List.map_snd_zip (Nat.le_of_eq h.symm)
    rw [chunks_file, List.map_map]
    exact hpayloads

/-- A change that does not store a file anew changes its chunks by what it says about them. -/
theorem DepotChange.getElem?_adjusted (change : DepotChange) (file : StoredFile) (index : Nat) :
    ((change.adjust? file).getD file).chunks[index]? = (file.chunks[index]?).map fun chunk =>
      { chunk with
        delay := (change.delay? index).getD chunk.delay
        fails := chunk.fails || change.spoils index } := by
  cases change with
  | store | upload | refuse => simp [adjust?, delay?, spoils]
  | slow place delay =>
    by_cases hplace : place < file.chunks.length
    · simp only [adjust?, if_pos hplace, Option.getD_some, List.getElem?_modify, Option.map_eq_map, delay?, spoils]
      congr 1
      funext chunk
      split <;> simp
    · rw [adjust?, if_neg hplace, Option.getD_none]
      by_cases hindex : place = index
      · rw [List.getElem?_eq_none (by omega)]
        rfl
      · simp [delay?, spoils, hindex]
  | spoil place =>
    by_cases hplace : place < file.chunks.length
    · simp only [adjust?, if_pos hplace, Option.getD_some, List.getElem?_modify, Option.map_eq_map, delay?, spoils]
      congr 1
      funext chunk
      by_cases hindex : place = index <;> simp [hindex]
    · rw [adjust?, if_neg hplace, Option.getD_none]
      by_cases hindex : place = index
      · rw [List.getElem?_eq_none (by omega)]
        rfl
      · simp [delay?, spoils, hindex]

/-- A change that does not store a file anew says all that it changes about the file itself. -/
theorem DepotChange.adjusted (change : DepotChange) (file : StoredFile) :
    (change.adjust? file).getD file =
      { file with
        chunks := ((change.adjust? file).getD file).chunks
        refusal := change.refusal?.getD file.refusal } := by
  cases change with
  | store | upload | refuse => rfl
  | slow place | spoil place =>
    rw [adjust?]
    split <;> rfl

/-- A change that does not store a file anew adds to what was asked of it. -/
theorem StoredFile.Keeps.concat (h : file.Keeps contents since) (change : DepotChange) :
    ((change.adjust? file).getD file).Keeps contents (since ++ [change]) := by
  have hfile := change.adjusted file
  have hchunks := change.getElem?_adjusted file
  generalize (change.adjust? file).getD file = altered at hfile hchunks ⊢
  refine ⟨?_, ?_, ?_, ?_, ?_, fun index chunk hchunk => ?_, fun index chunk hchunk => ?_⟩
  · rw [hfile, h.encryption]
  · rw [hfile, h.compression]
  · rw [← h.lengths]
    refine List.ext_getElem? fun index => ?_
    rw [List.getElem?_map, List.getElem?_map, hchunks, Option.map_map]
    rfl
  · rw [← h.payloads]
    refine List.ext_getElem? fun index => ?_
    rw [List.getElem?_map, List.getElem?_map, hchunks, Option.map_map]
    rfl
  · rw [hfile, DepotChange.latest_concat, h.refusal]
  · rw [hchunks] at hchunk
    obtain ⟨stored, hstored, rfl⟩ := Option.map_eq_some_iff.mp hchunk
    rw [DepotChange.latest_concat, ← h.delay index stored hstored]
  · rw [hchunks] at hchunk
    obtain ⟨stored, hstored, rfl⟩ := Option.map_eq_some_iff.mp hchunk
    rw [List.any_append, ← h.fails index stored hstored]
    simp

/-- What is in store for a file after one more change that was asked of it. -/
def DepotChange.became (stored : Option StoredFile) (change : DepotChange) : Option StoredFile :=
  (change.outcome? stored).or stored

/-- A file is in store when it was stored at all, and is what it was last stored with, changed by what was asked
of it since. -/
theorem DepotChange.history (changes : List DepotChange) :
    (∀ file, changes.foldl became none = some file →
        ∃ contents since, LastStored changes contents since ∧ file.Keeps contents since) ∧
      (changes.foldl became none = none → ∀ change ∈ changes, change.contents? = none) := by
  induction changes using List.reverseRecOn with
  | nil => simp
  | append_singleton changes change ih =>
    obtain ⟨hstored, hnone⟩ := ih
    rw [List.foldl_append, List.foldl_cons, List.foldl_nil]
    generalize changes.foldl became none = stored at hstored hnone ⊢
    cases hcontents : change.contents? with
    | some contents =>
      have hbecame : became stored change = some contents.file := by
        rw [became, outcome?, hcontents]
        rfl
      rw [hbecame]
      refine ⟨fun file hfile => ?_, by simp⟩
      obtain rfl := Option.some.inj hfile
      exact ⟨contents, [], ⟨changes, change, rfl, hcontents, by simp⟩,
        Consignment.keeps_file (length_of_contents? hcontents)⟩
    | none =>
      cases stored with
      | none =>
        have hbecame : became none change = none := by rw [became, outcome?, hcontents]; rfl
        rw [hbecame]
        refine ⟨by simp, fun _ => List.forall_mem_append.mpr ⟨hnone rfl, by simpa using hcontents⟩⟩
      | some file =>
        have hbecame : became (some file) change = some ((change.adjust? file).getD file) := by
          rw [became, outcome?, hcontents]
          exact Option.or_some
        rw [hbecame]
        refine ⟨fun altered haltered => ?_, by simp⟩
        obtain rfl := Option.some.inj haltered
        obtain ⟨contents, since, ⟨before, first, rfl, hfirst, hsince⟩, hkeeps⟩ := hstored file rfl
        refine ⟨contents, since ++ [change], ⟨before, first, by simp, hfirst, ?_⟩, hkeeps.concat change⟩
        exact List.forall_mem_append.mpr ⟨hsince, by simpa using hcontents⟩

end History

namespace Depot

variable {depot after : Depot} {fileId : String} {change : DepotChange}

/-- A depot that was empty before some calls. -/
def reached (calls : List DepotCall) : Depot := calls.foldl asked {}

/-- A call changes the file that it names, and no other. -/
theorem get?_asked (depot : Depot) (call : DepotCall) (fileId : String) :
    (depot.asked call).files.get? fileId =
      if fileId = call.fileId then call.change.became (depot.files.get? fileId) else depot.files.get? fileId := by
  rw [asked]
  cases houtcome : call.change.outcome? (depot.files.get? call.fileId) with
  | some file =>
    rw [apply_eq_ok_iff.mpr ⟨file, houtcome, rfl⟩]
    show (depot.files.put call.fileId file).get? fileId = _
    by_cases hsame : fileId = call.fileId
    · rw [if_pos hsame, hsame, Named.get?_put_self, DepotChange.became, houtcome]
      rfl
    · rw [if_neg hsame, Named.get?_put_of_ne _ _ hsame]
  | none =>
    obtain ⟨fault, hfault⟩ : ∃ fault, call.change.apply call.fileId depot = .error fault := by
      cases hresult : call.change.apply call.fileId depot with
      | error fault => exact ⟨fault, rfl⟩
      | ok after => simp [apply_eq_ok_iff, houtcome] at hresult
    rw [hfault]
    show depot.files.get? fileId = _
    by_cases hsame : fileId = call.fileId
    · rw [if_pos hsame, hsame, DepotChange.became, houtcome]
      rfl
    · rw [if_neg hsame]

/-- A file in a depot is what the calls that name it have made of it. -/
theorem get?_reached (calls : List DepotCall) (fileId : String) :
    (reached calls).files.get? fileId = (DepotCall.changesOf fileId calls).foldl DepotChange.became none := by
  induction calls using List.reverseRecOn with
  | nil => rfl
  | append_singleton calls call ih =>
    have hreached : reached (calls ++ [call]) = (reached calls).asked call := by simp [reached]
    rw [hreached, get?_asked, ih, DepotCall.changesOf, DepotCall.changesOf, List.filter_append, List.map_append,
      List.foldl_append]
    by_cases hsame : call.fileId = fileId
    · simp [hsame]
    · simp [hsame, Ne.symm hsame]

/-- A chunk in store is announced at a location that leads back to it, and is served from there. -/
theorem request_ofChunk {file : StoredFile} {index : Nat} {chunk : StoredChunk}
    (hfile : depot.files.get? fileId = some file) (hchunk : file.chunks[index]? = some chunk)
    (hindex : index < Location.indexBound) (now : Nat) :
    (depot.request now (Location.ofChunk fileId index)).1 =
      ⟨if chunk.fails then .refused (.other s!"download of chunk {index} of {fileId} failed")
        else .payload chunk.payload, now + chunk.delay, true⟩ := by
  rw [request, Location.read_ofChunk fileId hindex]
  simp only [begin, transferOf, hfile, hchunk]
  cases chunk.fails <;> rfl

/-- An address of a file stored with a consignment leads to the payload that was stored there. -/
structure Serves (depot : Depot) (fileId : String) (file : StoredFile) (contents : Consignment)
    (since : List DepotChange) (index : Nat) (payload : Bytes) : Prop where
  announced : ∃ length, (file.manifest fileId).entries[index]? = some ⟨Location.ofChunk fileId index, length⟩ ∧
    contents.manifest.entries[index]?.map (·.length) = some length
  read : Location.read (Location.ofChunk fileId index) = .ok (fileId, index)
  served : ∀ now, (depot.request now (Location.ofChunk fileId index)).1 =
    ⟨if since.any (DepotChange.spoils index) then
        .refused (.other s!"download of chunk {index} of {fileId} failed")
      else .payload payload,
      now + DepotChange.latest (DepotChange.delay? index) 0 since, true⟩

/-- A file in a depot serves what it was stored with. -/
theorem serves_of_keeps {file : StoredFile} {contents : Consignment} {since : List DepotChange} {index : Nat}
    {payload : Bytes} (hfile : depot.files.get? fileId = some file) (hkeeps : file.Keeps contents since)
    (hpayload : contents.payloads[index]? = some payload) (hindex : index < Location.indexBound) :
    depot.Serves fileId file contents since index payload := by
  rw [← hkeeps.payloads, List.getElem?_map] at hpayload
  obtain ⟨chunk, hchunk, rfl⟩ := Option.map_eq_some_iff.mp hpayload
  refine ⟨⟨chunk.length, ?_, ?_⟩, Location.read_ofChunk fileId hindex, fun now => ?_⟩
  · show (StoredChunk.entries fileId 0 file.chunks)[index]? = _
    rw [StoredChunk.getElem?_entries, hchunk, Nat.zero_add]
    rfl
  · rw [← List.getElem?_map, ← hkeeps.lengths, List.getElem?_map, hchunk]
    rfl
  · rw [request_ofChunk hfile hchunk hindex, hkeeps.delay index chunk hchunk, hkeeps.fails index chunk hchunk]

/-- Whatever calls a depot has had, under whatever names of files: a file is in store when one of them has stored
it, with as many chunks as payloads, and it serves the payloads that it was last stored with. The location of each
leads to it alone, whether its download is slow or fails was said since, of a chunk that there is, and a further
call is refused and changes nothing, or is accepted and changes the file that it names. -/
theorem reached_addressed (calls : List DepotCall) :
    (∀ fileId,
      match (reached calls).files.get? fileId with
      | none => ∀ change ∈ DepotCall.changesOf fileId calls, change.contents? = none
      | some file => ∃ contents since,
        DepotChange.LastStored (DepotCall.changesOf fileId calls) contents since ∧ file.Keeps contents since ∧
          contents.manifest.entries.length = contents.payloads.length ∧
          (file.manifest fileId).entries.length = contents.payloads.length ∧
          ∀ index payload, contents.payloads[index]? = some payload → index < Location.indexBound →
            (reached calls).Serves fileId file contents since index payload) ∧
    (∀ fileId other index place, index < Location.indexBound → place < Location.indexBound →
      Location.ofChunk fileId index = Location.ofChunk other place → fileId = other ∧ index = place) ∧
    (∀ call : DepotCall,
      ((∃ after, call.change.apply call.fileId (reached calls) = .ok after) ↔
        call.change.Suits ((reached calls).files.get? call.fileId)) ∧
      ∀ after, call.change.apply call.fileId (reached calls) = .ok after →
        after.tally = (reached calls).tally ∧
          ∀ other, other ≠ call.fileId → after.files.get? other = (reached calls).files.get? other) ∧
    (∀ (session : Session) (step : Step) (call : DepotCall), session.backend.inner = reached calls →
      DepotCall.ofStep? step = some call →
        (Session.perform step session).2 =
          match call.change.apply call.fileId (reached calls) with
          | .ok after => { session with backend.inner := after }
          | .error _ => session) := by
  refine ⟨fun fileId => ?_, fun fileId other index place hindex hplace hsame => ?_, fun call => ⟨?_, ?_⟩, ?_⟩
  · obtain ⟨hstored, hnone⟩ := DepotChange.history (DepotCall.changesOf fileId calls)
    rw [← get?_reached] at hstored hnone
    cases hfile : (reached calls).files.get? fileId with
    | none => exact hnone hfile
    | some file =>
      obtain ⟨contents, since, hlast, hkeeps⟩ := hstored file hfile
      have hannounced : (file.manifest fileId).entries.length = contents.payloads.length := by
        rw [StoredFile.manifest, StoredChunk.length_entries, ← hkeeps.payloads, List.length_map]
      exact ⟨contents, since, hlast, hkeeps, hlast.length_eq, hannounced,
        fun index payload hpayload hindex => serves_of_keeps hfile hkeeps hpayload hindex⟩
  · have hread := Location.read_ofChunk fileId hindex
    rw [hsame, Location.read_ofChunk other hplace] at hread
    simpa [eq_comm] using hread
  · exact exists_apply_eq_ok_iff
  · intro after hafter
    obtain ⟨file, -, rfl⟩ := apply_eq_ok_iff.mp hafter
    exact ⟨rfl, fun other hother => Named.get?_put_of_ne _ _ hother⟩
  · intro session step call hdepot hcall
    rw [← hdepot]
    exact Session.perform_of_call hcall session

/-- Calls that name two files, of which one name is the start of the other and looks like a location in it. A
payload too many is refused, and so is a chunk that is not there. -/
def sampleCalls : List DepotCall :=
  [⟨"a", .store { entries := [⟨"", 1⟩, ⟨"", 1⟩] } [[7], [8]]⟩, ⟨"a/1", .store { entries := [⟨"x", 1⟩] } [[9]]⟩,
    ⟨"a", .store {} [[5]]⟩, ⟨"a/1", .spoil 3⟩, ⟨"a", .slow 1 20⟩]

/-- The files of the sample keep apart. -/
theorem reached_addressed_sample :
    Location.ofChunk "a" 1 = "local://a/1" ∧ Location.ofChunk "a/1" 0 = "local://a/1/0" ∧
      Location.read (Location.ofChunk "a" 1) = .ok ("a", 1) ∧
        ((reached sampleCalls).request 5 (Location.ofChunk "a" 1)).1 = ⟨.payload [8], 25, true⟩ ∧
          ((reached sampleCalls).request 5 (Location.ofChunk "a/1" 0)).1 = ⟨.payload [9], 5, true⟩ ∧
            ¬ ∃ after, (DepotChange.spoil 3).apply "a/1" (reached sampleCalls) = .ok after := by
  obtain ⟨hfiles, -, hcalls, -⟩ := reached_addressed sampleCalls
  obtain ⟨first, sinceFirst, -, hfirst, -, -, hservesFirst⟩ := hfiles "a"
  obtain ⟨second, sinceSecond, -, hsecond, -, -, hservesSecond⟩ := hfiles "a/1"
  have hplain := hservesFirst 1 [8] (by rw [← hfirst.payloads]; rfl) (by decide)
  have hnested := hservesSecond 0 [9] (by rw [← hsecond.payloads]; rfl) (by decide)
  refine ⟨by decide, by decide, hplain.read, ?_, ?_, ?_⟩
  · rw [hplain.served, ← hfirst.delay 1 ⟨1, [8], 20, false⟩ rfl, ← hfirst.fails 1 ⟨1, [8], 20, false⟩ rfl]
    rfl
  · rw [hnested.served, ← hsecond.delay 0 ⟨1, [9], 0, false⟩ rfl, ← hsecond.fails 0 ⟨1, [9], 0, false⟩ rfl]
    rfl
  · rw [(hcalls ⟨"a/1", .spoil 3⟩).1]
    rintro ⟨file, hfile, hindex⟩
    obtain rfl := Option.some.inj hfile
    exact absurd hindex (by decide)

end Depot

end Reassembly
