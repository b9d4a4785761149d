import Reassembly.Proofs.Codec.ContentKey
import Reassembly.Proofs.Layout
import Reassembly.Proofs.Service.Location
import Reassembly.Proofs.Service.Steady
import Reassembly.Proofs.Upload.Payload

/-!
# Uploads are resolved

An upload that is not refused leaves a file in the depot. Its manifest is laid out to the chunks that were
uploaded, under credentials with the secret of the upload its content key is unwrapped, and the location of
each chunk brings the payload of the chunk.
-/

namespace Reassembly

section Pieces

/-- There are as many pieces as lengths. -/
theorem length_cutInto (lengths : List Nat) (data : Bytes) : (cutInto lengths data).length = lengths.length := by
  induction lengths generalizing data with
  | nil => rfl
  | cons length rest ih => rw [cutInto, List.length_cons, List.length_cons, ih]

/-- The pieces have the lengths that data was cut into. -/
theorem map_length_cutInto {lengths : List Nat} {data : Bytes} (h : lengths.sum = data.length) :
    (cutInto lengths data).map List.length = lengths := by
  induction lengths generalizing data with
  | nil => rfl
  | cons length rest ih =>
    rw [List.sum_cons] at h
    rw [cutInto, List.map_cons, List.length_take, Nat.min_eq_left (by omega), ih]
    rw [List.length_drop]
    omega

/-- The pieces of data make it up. -/
theorem flatten_cutInto {lengths : List Nat} {data : Bytes} (h : lengths.sum = data.length) :
    (cutInto lengths data).flatten = data := by
  induction lengths generalizing data with
  | nil => exact (List.eq_nil_of_length_eq_zero h.symm).symm
  | cons length rest ih =>
    rw [List.sum_cons] at h
    rw [cutInto, List.flatten_cons, ih, List.take_append_drop]
    rw [List.length_drop]
    omega

/-- What holds of all lengths that data is cut into holds of the lengths of its pieces. -/
theorem forall_mem_cutInto {lengths : List Nat} {data : Bytes} {p : Nat → Prop}
    (htotal : lengths.sum = data.length) (h : ∀ length ∈ lengths, p length) :
    ∀ piece ∈ cutInto lengths data, p piece.length := by
  intro piece hpiece
  apply h
  rw [← map_length_cutInto htotal]
  exact List.mem_map_of_mem hpiece

end Pieces

namespace Encoding

variable {encoding : Encoding} {draws : Draws} {credentials : Credentials}

/-- A file that is to be encrypted has a secret that is Base64, and a content key of a supported length. -/
def Usable (encoding : Encoding) : Prop :=
  ∀ secret, encoding.secret = some secret →
    encoding.keyLength ∈ [16, 24, 32] ∧ ∃ decoded, Base64.decode (Bytes.ofText secret) = .ok decoded

/-- The credentials carry the secret of the encoding, if it has one. -/
def UnlockedBy (encoding : Encoding) (credentials : Credentials) : Prop :=
  ∀ secret, encoding.secret = some secret → credentials.secret = secret

/-- The content key that is drawn for a file. -/
def contentKey (encoding : Encoding) (draws : Draws) : Option Bytes :=
  encoding.secret.map fun _ => draws.take 0 encoding.keyLength

/-- A draw has as many bytes as are taken of it. -/
theorem length_take (draws : Draws) (draw length : Nat) : (draws.take draw length).length = length := by
  rw [Draws.take, List.length_map, List.length_range]

/-- The content key of a file has a supported length. -/
theorem Usable.keyLength (h : encoding.Usable) {bytes : Bytes} (hkey : encoding.contentKey draws = some bytes) :
    bytes.length = 16 ∨ bytes.length = 24 ∨ bytes.length = 32 := by
  obtain ⟨secret, hsecret, rfl⟩ := Option.map_eq_some_iff.mp hkey
  rw [length_take]
  simpa using (h secret hsecret).1

/-- Drawing a key gives it with a wrapped form that the secret unwraps. -/
theorem Usable.exists_drawKey (h : encoding.Usable) (draws : Draws) :
    ∃ encryption wrappedKey, encoding.drawKey draws = .ok (encoding.contentKey draws, encryption) ∧
      Layout.key encryption = .ok wrappedKey ∧ wrappedKey.isSome = encoding.secret.isSome ∧
        ∀ layout : Layout, layout.wrappedKey = wrappedKey → ∀ credentials, encoding.UnlockedBy credentials →
          ResolvedFile.unwrapKey layout credentials.secret = .ok (encoding.contentKey draws) := by
  cases hsecret : encoding.secret with
  | none =>
    refine ⟨{}, none, ?_, rfl, rfl, fun layout hlayout credentials _ => ?_⟩
    · rw [drawKey, contentKey, hsecret]
      rfl
    · rw [ResolvedFile.unwrapKey, hlayout, contentKey, hsecret]
      rfl
  | some secret =>
    obtain ⟨hlength, decoded, hdecoded⟩ := h secret hsecret
    obtain ⟨wrapped, hwrap, hascii⟩ :=
      ContentKey.exists_wrap (draws.take 0 encoding.keyLength) hdecoded
    have hsome : draws.take 0 encoding.keyLength ≠ [] := by
      intro hnil
      have hzero := length_take draws 0 encoding.keyLength
      rw [hnil] at hzero
      simp [← hzero] at hlength
    have hunwrap := ContentKey.unwrap_of_wrap hsome hwrap
    have hnonempty : Bytes.asciiText wrapped ≠ "" := by
      intro hempty
      have hbytes := Bytes.ofText_asciiText hascii
      rw [hempty] at hbytes
      exact ContentKey.wrapped_ne_nil hunwrap hbytes.symm
    refine ⟨⟨true, Bytes.asciiText wrapped⟩, some (Bytes.asciiText wrapped), ?_, ?_, rfl, ?_⟩
    · rw [drawKey, contentKey, hsecret]
      simp only [if_pos hlength, hwrap, Bytes.toText?_of_ascii hascii]
      rfl
    · rw [Layout.key, if_pos rfl, if_neg hnonempty]
    · intro layout hlayout credentials hcredentials
      rw [ResolvedFile.unwrapKey, hlayout, hcredentials secret hsecret]
      simp only [Bytes.ofText_asciiText hascii, hunwrap]
      rw [contentKey, hsecret]
      rfl

end Encoding

section StoredFiles

/-- A stored file announces for each chunk its location and its length. -/
theorem StoredChunk.getElem?_entries (fileId : String) (index : Nat) (chunks : List StoredChunk) (i : Nat) :
    (entries fileId index chunks)[i]? =
      chunks[i]?.map fun chunk => ⟨Location.ofChunk fileId (index + i), chunk.length⟩ := by
  induction chunks generalizing index i with
  | nil => rfl
  | cons chunk rest ih =>
    rw [entries]
    cases i with
    | zero => rfl
    | succ i =>
      rw [List.getElem?_cons_succ, List.getElem?_cons_succ, ih, Nat.add_right_comm]
      rfl

/-- A stored file announces each of its chunks once. -/
theorem StoredChunk.length_entries (fileId : String) (index : Nat) (chunks : List StoredChunk) :
    (entries fileId index chunks).length = chunks.length := by
  induction chunks generalizing index with
  | nil => rfl
  | cons chunk rest ih => rw [entries, List.length_cons, List.length_cons, ih]

/-- The chunks of a stored file have places as long as the file is not too long. -/
theorem StoredChunk.exists_place (fileId : String) {offset : Nat} {chunks : List StoredChunk}
    (h : offset + (chunks.map (·.length)).sum < sizeBound) (index placed : Nat) :
    ∃ laid, Layout.place placed offset (entries fileId index chunks) = .ok laid := by
  induction chunks generalizing index placed offset with
  | nil => exact ⟨[], rfl⟩
  | cons chunk rest ih =>
    rw [List.map_cons, List.sum_cons, ← Nat.add_assoc] at h
    obtain ⟨laid, hlaid⟩ := ih h (index + 1) (placed + 1)
    refine ⟨⟨placed + 1, offset, chunk.length, Location.ofChunk fileId index⟩ :: laid, ?_⟩
    rw [entries, Layout.place, if_neg (Location.ofChunk_ne_empty fileId index), if_neg (by simp only; omega), hlaid]
    rfl

/-- A chunk of a stored file is laid out at the location from which a depot serves it. -/
theorem StoredChunk.getElem?_place {fileId : String} {placed offset : Nat} {chunks : List StoredChunk}
    {laid : List Chunk} (h : Layout.place placed offset (entries fileId 0 chunks) = .ok laid) (i : Nat) :
    laid[i]?.map (fun chunk => (chunk.location, chunk.length)) =
      chunks[i]?.map fun chunk => (Location.ofChunk fileId i, chunk.length) := by
  obtain ⟨-, hentries⟩ := Layout.endToEnd_of_place h
  have hentry := congrArg (fun entries => entries[i]?.map fun entry : ManifestEntry =>
    (entry.location, entry.length)) hentries
  simp only [List.getElem?_map, getElem?_entries, Option.map_map, Nat.zero_add] at hentry
  exact hentry

/-- Replies from the locations of a file are those of a depot. -/
def Depot.Backs (depot : Depot) (fileId : String) (reply : String → Reply) : Prop :=
  ∀ index, reply (Location.ofChunk fileId index) = depot.replyOf (Location.ofChunk fileId index)

variable {depot : Depot} {fileId : String} {file : StoredFile}

/-- A depot answers the manifest of a file that refuses nothing. -/
theorem Depot.manifestOf_eq (hfile : depot.files.get? fileId = some file) (hrefusal : file.refusal = none) :
    depot.manifestOf fileId = .ok (file.manifest fileId) := by
  rw [manifestOf, hfile]
  simp only [hrefusal]

/-- A depot serves the payload of a chunk from the chunk's location. -/
theorem Depot.replyOf_ofChunk (hfile : depot.files.get? fileId = some file) {index : Nat} {chunk : StoredChunk}
    (hchunk : file.chunks[index]? = some chunk) (hindex : index < Location.indexBound)
    (hfails : chunk.fails = false) :
    depot.replyOf (Location.ofChunk fileId index) = .payload chunk.payload := by
  rw [replyOf, Location.read_ofChunk fileId hindex]
  simp only [transferOf, hfile, hchunk, hfails]
  rfl

end StoredFiles

section Uploads

/-- A chunk as it is stored. -/
def Encoding.storedChunk (encoding : Encoding) (key : Option Bytes) (draws : Draws) (index : Nat)
    (piece : Bytes) : StoredChunk :=
  ⟨piece.length, encoding.payload key (draws.take (index + 1) Aes.blockSize) piece, 0, false⟩

/-- A file as it is stored. -/
def Encoding.storedFile (encoding : Encoding) (encryption : Encryption) (draws : Draws) (pieces : List Bytes) :
    StoredFile :=
  ⟨encryption, encoding.compression.name, pieces.mapIdx (encoding.storedChunk (encoding.contentKey draws) draws),
    none⟩

variable {depot : Depot} {fileId : String} {data : Bytes} {lengths : List Nat} {encoding : Encoding}
  {draws : Draws} {encryption : Encryption}

/-- An upload stores the pieces of the data. -/
theorem Depot.upload_eq (htotal : lengths.sum = data.length)
    (hdraw : encoding.drawKey draws = .ok (encoding.contentKey draws, encryption)) :
    depot.upload fileId data lengths encoding draws = .ok (encoding.contentKey draws,
      { depot with
        files := depot.files.put fileId (encoding.storedFile encryption draws (cutInto lengths data)) }) := by
  have hchunks : (lengths.map fun length => (⟨"", length⟩ : ManifestEntry)).zipWith
      (fun entry payload => (⟨entry.length, payload, 0, false⟩ : StoredChunk))
      ((cutInto lengths data).mapIdx fun i piece =>
        encoding.payload (encoding.contentKey draws) (draws.take (i + 1) Aes.blockSize) piece) =
      (cutInto lengths data).mapIdx (encoding.storedChunk (encoding.contentKey draws) draws) := by
    have hlengths := map_length_cutInto htotal
    generalize cutInto lengths data = pieces at hlengths ⊢
    subst hlengths
    apply List.ext_getElem?
    intro i
    simp only [List.getElem?_zipWith, List.getElem?_map, List.getElem?_mapIdx]
    cases pieces[i]? <;> rfl
  rw [upload, ← List.sum_eq_foldl, if_neg (not_not_intro htotal), hdraw]
  simp only [Result.pure_eq_ok, Result.ok_bind]
  rw [store, if_pos]
  · rw [hchunks]
    rfl
  · simp [length_cutInto]

/-- The chunks of a stored file have the lengths of its pieces. -/
theorem Encoding.map_length_storedFile (encryption : Encryption) (draws : Draws) (pieces : List Bytes) :
    (encoding.storedFile encryption draws pieces).chunks.map (·.length) = pieces.map List.length := by
  apply List.ext_getElem?
  intro i
  simp only [storedFile, List.getElem?_map, List.getElem?_mapIdx]
  cases pieces[i]? <;> rfl

/-- A laid-out chunk is that of a piece of the data, and its location brings the payload of the piece. -/
structure Encoding.Serves (encoding : Encoding) (draws : Draws) (depot : Depot) (fileId : String) (chunk : Chunk)
    (piece : Bytes) : Prop where
  length : chunk.length = piece.length
  reply : ∃ index, chunk.location = Location.ofChunk fileId index ∧
    depot.replyOf chunk.location =
      .payload (encoding.payload (encoding.contentKey draws) (draws.take (index + 1) Aes.blockSize) piece)

/-- The chunks of an upload have the lengths of the pieces. -/
theorem Encoding.map_length_of_serves {chunks : List Chunk} {pieces : List Bytes}
    (h : List.Forall₂ (encoding.Serves draws depot fileId) chunks pieces) :
    chunks.map (·.length) = pieces.map List.length := by
  rw [← List.forall₂_eq_eq_eq, List.forall₂_map_left_iff, List.forall₂_map_right_iff]
  exact h.imp fun _ _ hserves => hserves.length

/-- The chunks of a stored file are laid out, and are served. -/
theorem Encoding.exists_place (hfile : depot.files.get? fileId =
      some (encoding.storedFile encryption draws (cutInto lengths data)))
    (htotal : lengths.sum = data.length) (hsize : data.length < sizeBound)
    (hcount : lengths.length ≤ Location.indexBound) :
    ∃ chunks, Layout.place 0 0 ((encoding.storedFile encryption draws (cutInto lengths data)).manifest fileId).entries =
        .ok chunks ∧
      List.Forall₂ (encoding.Serves draws depot fileId) chunks (cutInto lengths data) := by
  generalize hstored : encoding.storedFile encryption draws (cutInto lengths data) = file at hfile
  have hchunks : file.chunks.map (·.length) = lengths := by
    rw [← hstored, map_length_storedFile, map_length_cutInto htotal]
  obtain ⟨laid, hlaid⟩ := StoredChunk.exists_place fileId
    (by rw [hchunks, htotal, Nat.zero_add]; exact hsize : 0 + (file.chunks.map (·.length)).sum < sizeBound)
    0 0
  refine ⟨laid, hlaid, ?_⟩
  have hplaces := StoredChunk.getElem?_place hlaid
  have hstored? : ∀ i, file.chunks[i]? =
      (cutInto lengths data)[i]?.map (encoding.storedChunk (encoding.contentKey draws) draws i) := by
    intro i
    rw [← hstored, storedFile, List.getElem?_mapIdx]
  have hlength : laid.length = (cutInto lengths data).length := by
    have hentries := congrArg List.length (Layout.endToEnd_of_place hlaid).2
    have hfound := congrArg List.length hchunks
    rw [List.length_map] at hentries hfound
    rw [hentries, StoredChunk.length_entries, hfound, length_cutInto]
  rw [List.forall₂_iff_get]
  refine ⟨hlength, fun i hi hpiece => ?_⟩
  have hchunk := hstored? i
  have hplace := hplaces i
  rw [List.getElem?_eq_getElem hpiece, Option.map_some] at hchunk
  rw [hchunk, List.getElem?_eq_getElem hi, Option.map_some, Option.map_some, Option.some.injEq, Prod.mk.injEq] at hplace
  have hindex : i < Location.indexBound := by
    rw [length_cutInto] at hpiece
    exact Nat.lt_of_lt_of_le hpiece hcount
  refine ⟨hplace.2, i, hplace.1, ?_⟩
  rw [List.get_eq_getElem, List.get_eq_getElem, hplace.1, Depot.replyOf_ofChunk hfile hchunk hindex rfl]
  rfl

/-- A resolved file is what an upload has left in a depot: it is stored as the encoding says, and each of
its chunks is served. -/
structure ResolvedFile.Holds (file : ResolvedFile) (encoding : Encoding) (draws : Draws) (depot : Depot)
    (pieces : List Bytes) : Prop where
  stores : file.Stores encoding (encoding.contentKey draws)
  serves : List.Forall₂ (encoding.Serves draws depot file.layout.fileId) file.layout.chunks pieces

/-- A file that holds data is as long as the data. -/
theorem ResolvedFile.Holds.size_eq {file : ResolvedFile}
    (h : file.Holds encoding draws depot (cutInto lengths data)) (hcomplete : file.layout.Complete)
    (htotal : lengths.sum = data.length) : file.layout.size = data.length := by
  rw [← hcomplete.stop_eq, hcomplete.endToEnd.stopOf_eq, Encoding.map_length_of_serves h.serves,
    map_length_cutInto htotal, htotal, Nat.zero_add]

/-- A file that holds data in some pieces has chunks. -/
theorem ResolvedFile.Holds.chunks_ne_nil {file : ResolvedFile}
    (h : file.Holds encoding draws depot (cutInto lengths data)) (hlengths : lengths ≠ []) :
    file.layout.chunks ≠ [] := by
  intro hnil
  have hlength := h.serves.length_eq
  rw [hnil, length_cutInto] at hlength
  exact hlengths (List.eq_nil_of_length_eq_zero hlength.symm)

/-- Data can be uploaded, and what the depot then answers is resolved to what has been left in it. -/
theorem Encoding.Usable.exists_resolved (husable : encoding.Usable) (hlengths : lengths ≠ [])
    (htotal : lengths.sum = data.length) (hsize : data.length < sizeBound)
    (hcount : lengths.length ≤ Location.indexBound) (depot : Depot) (fileId : String) (draws : Draws) :
    ∃ stored manifest, depot.upload fileId data lengths encoding draws = .ok (encoding.contentKey draws, stored) ∧
      stored.manifestOf fileId = .ok manifest ∧
        ∀ credentials, encoding.UnlockedBy credentials →
          ∃ file, ResolvedFile.ofAnswer fileId credentials (.ok manifest) = .ok file ∧
            file.Holds encoding draws stored (cutInto lengths data) := by
  obtain ⟨encryption, wrappedKey, hdraw, hkey, hwrapped, hunwrap⟩ := husable.exists_drawKey draws
  obtain ⟨stored, hstored⟩ : ∃ stored : Depot, stored = { depot with
      files := depot.files.put fileId (encoding.storedFile encryption draws (cutInto lengths data)) } := ⟨_, rfl⟩
  have hfile : stored.files.get? fileId = some (encoding.storedFile encryption draws (cutInto lengths data)) := by
    rw [hstored]
    exact Named.get?_put_self _ _ _
  obtain ⟨chunks, hplace, hserves⟩ := Encoding.exists_place hfile htotal hsize hcount
  refine ⟨stored, _, by rw [Depot.upload_eq htotal hdraw, hstored], Depot.manifestOf_eq hfile rfl, ?_⟩
  intro credentials hcredentials
  have hentries : ((encoding.storedFile encryption draws (cutInto lengths data)).manifest fileId).entries ≠ [] := by
    intro hnil
    have hpieces := congrArg List.length hnil
    rw [StoredFile.manifest, StoredChunk.length_entries, storedFile, List.length_mapIdx, length_cutInto] at hpieces
    exact hlengths (List.eq_nil_of_length_eq_zero hpieces)
  obtain ⟨size, hlay⟩ : ∃ size, Layout.lay fileId
      ((encoding.storedFile encryption draws (cutInto lengths data)).manifest fileId) =
        .ok ⟨fileId, wrappedKey, encoding.compression, chunks, size⟩ :=
    ⟨_, Layout.lay_of_place hentries (Compression.ofName?_name encoding.compression) hkey hplace⟩
  refine ⟨⟨⟨fileId, wrappedKey, encoding.compression, chunks, size⟩, encoding.contentKey draws⟩, ?_, ?_, hserves⟩
  · show (Layout.ofManifest fileId _ >>= _) = _
    rw [Layout.ofManifest, hlay]
    show (ResolvedFile.unwrapKey _ credentials.secret >>= _) = _
    rw [hunwrap _ rfl credentials hcredentials]
    rfl
  · have hsome : (encoding.contentKey draws).isSome = encoding.secret.isSome := by
      rw [contentKey, Option.isSome_map]
    exact ⟨rfl, hwrapped.trans hsome.symm, rfl, hsome.symm, fun _ => husable.keyLength⟩

end Uploads

end Reassembly
