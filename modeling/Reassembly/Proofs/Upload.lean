import Reassembly.Proofs.RangeFailure
import Reassembly.Proofs.Upload.Store

/-!
# Uploads are read back

What has been uploaded is read back under the same secret, whole or as a range, unless it is stored as raw
blocks that are encrypted. The padding of the cipher then stands behind every block, and decoding refuses
it: each retrieval fails but for a read of no bytes, for which no chunk is fetched.
-/

namespace Reassembly

namespace Session

variable {session : Session} {depot : Depot} {fileId : String}

/-- What a session answers and replies about a file, whatever it is asked meanwhile, is what a depot does. -/
def Serves (session : Session) (depot : Depot) (fileId : String) : Prop :=
  ∃ holds answers reply, session.service.Steady holds answers reply ∧ holds session.backend ∧
    answers fileId = depot.manifestOf fileId ∧ depot.Backs fileId reply

/-- A session that reaches its depot directly serves the files of the depot, unless the overlay answers or
breaks down in its place. -/
theorem serves_of_direct (htransport : session.transport = .direct) (hfiles : session.backend.inner.files = depot.files)
    (hmanifest : session.backend.manifests.get? fileId = none)
    (hcrashing : ∀ index, Location.ofChunk fileId index ∉ session.backend.crashing) :
    session.Serves depot fileId := by
  have hservice : session.service = Overlay.service Depot.service := by
    rw [service, htransport]
    rfl
  refine ⟨_, _, _, hservice ▸ Overlay.steady (Depot.steady depot) session.backend, ⟨hfiles, rfl, rfl⟩, ?_,
    fun index => ?_⟩
  · rw [Overlay.answerOf, hmanifest]
  · rw [Overlay.replyOf, if_neg (hcrashing index)]

end Session

/-- The error is that of a chunk in which more is found than a raw block. -/
def RetrievalError.RefusesRawBlock (error : RetrievalError) (context : ChunkContext) : Prop :=
  ∃ fault, error = .decompress context (.decompress (.found (.snappy (.block fault))))

section Chunks

variable {file : ResolvedFile} {encoding : Encoding} {draws : Draws} {depot : Depot} {chunk : Chunk}
  {piece : Bytes} {chunks : List Chunk} {pieces : List Bytes} {reply : String → Reply}

/-- Replies that are those of the depot bring the payloads of the pieces. -/
theorem Encoding.Serves.reply_eq {fileId : String} (h : encoding.Serves draws depot fileId chunk piece)
    (hreply : depot.Backs fileId reply) :
    ∃ vector : Bytes, vector.length = Aes.blockSize ∧
      reply chunk.location = .payload (encoding.payload (encoding.contentKey draws) vector piece) := by
  obtain ⟨index, hlocation, hpayload⟩ := h.reply
  refine ⟨draws.take (index + 1) Aes.blockSize, Encoding.length_take _ _ _, ?_⟩
  rw [hlocation, hreply, ← hlocation, hpayload]

namespace ResolvedFile

/-- The chunks of an upload deliver the pieces of the data, unless they are raw blocks with padding. -/
theorem Stores.delivers (hstores : file.Stores encoding (encoding.contentKey draws))
    (hserves : List.Forall₂ (encoding.Serves draws depot file.layout.fileId) chunks pieces)
    (hreply : depot.Backs file.layout.fileId reply)
    (haccepts : ∀ piece ∈ pieces, encoding.Accepts piece.length) (hreads : ¬ encoding.PadsRawBlocks) :
    List.Forall₂ (file.Delivers (Fetch.byLocation reply)) chunks pieces := by
  induction hserves with
  | nil => exact .nil
  | @cons chunk piece _ _ hfirst _ ih =>
    obtain ⟨vector, hvector, hpayload⟩ := hfirst.reply_eq hreply
    have hdecode := hstores.decode_payload (haccepts piece List.mem_cons_self) hreads hvector hfirst.length
    exact .cons ⟨_, hpayload, hdecode⟩ (ih fun other hother => haccepts other (List.mem_cons_of_mem _ hother))

/-- The chunks of an upload that are raw blocks with padding are refused. -/
theorem Stores.refuses (hstores : file.Stores encoding (encoding.contentKey draws))
    (hserves : List.Forall₂ (encoding.Serves draws depot file.layout.fileId) chunks pieces)
    (hreply : depot.Backs file.layout.fileId reply)
    (haccepts : ∀ piece ∈ pieces, encoding.Accepts piece.length) (hpads : encoding.PadsRawBlocks) :
    ∀ chunk ∈ chunks, ∃ error : RetrievalError, error.RefusesRawBlock (chunk.context file.layout.fileId) ∧
      FetchTask.outcome file chunk (Fetch.byLocation reply chunk) = .error error := by
  induction hserves with
  | nil => simp
  | @cons chunk piece _ _ hfirst _ ih =>
    refine List.forall_mem_cons.mpr
      ⟨?_, ih fun other hother => haccepts other (List.mem_cons_of_mem _ hother)⟩
    obtain ⟨vector, hvector, hpayload⟩ := hfirst.reply_eq hreply
    obtain ⟨fault, hfault⟩ : ∃ fault, file.decode chunk _ =
        .error (.decompress (chunk.context file.layout.fileId) (.decompress (.found (.snappy (.block fault))))) :=
      hstores.decode_rawBlock (haccepts piece List.mem_cons_self) hpads hvector
    refine ⟨_, ⟨fault, rfl⟩, ?_⟩
    rw [Fetch.byLocation, hpayload, FetchTask.outcome, FetchTask.decoded, hfault]
    rfl

end ResolvedFile

end Chunks

section Retrievals

variable {fileId : String} {retriever : Retriever} {session : Session} {manifest : Manifest}
  {file : ResolvedFile} {holds : Backend → Prop} {answers : String → Except ServiceError Manifest}
  {reply : String → Reply} {pieces : List Bytes} {refused : Chunk → RetrievalError → Prop}

/-- A session answers a retrieval of all blocks of a file that it resolves with what becomes of its chunks. -/
theorem Session.blocks_all (hactive : retriever.isShutDown = false)
    (hsteady : session.service.Steady holds answers reply) (hholds : holds session.backend)
    (hanswer : answers fileId = .ok manifest)
    (hfile : ResolvedFile.ofAnswer fileId retriever.credentials (.ok manifest) = .ok file) :
    (blocks fileId none retriever session).1 = answerBlocks (file.layout.chunks.mapM fun chunk =>
      FetchTask.outcome file chunk (Fetch.byLocation reply chunk)) := by
  rw [blocks_eq hactive hsteady hholds, hanswer, hfile]
  rfl

/-- A session answers a read of a whole file whose chunks deliver data with the data. -/
theorem Session.readRange_full (hactive : retriever.isShutDown = false)
    (hsteady : session.service.Steady holds answers reply) (hholds : holds session.backend)
    (hanswer : answers fileId = .ok manifest)
    (hfile : ResolvedFile.ofAnswer fileId retriever.credentials (.ok manifest) = .ok file)
    (hdelivers : List.Forall₂ (file.Delivers (Fetch.byLocation reply)) file.layout.chunks pieces) :
    (readRange fileId .full retriever session).1 = .bytes pieces.flatten := by
  have hstart : ByteRange.full.start ≤ file.layout.size := Nat.zero_le _
  have hlength := ResolvedFile.length_content (ResolvedFile.complete_of_ofAnswer hfile).1 (Fetch.byLocation reply)
  rw [ResolvedFile.content_eq_delivered hdelivers] at hlength
  obtain ⟨fragments, hcover, -, howed⟩ := FragmentStream.owed_delivered hfile hdelivers hstart
  rw [readRange_of_owed hactive hsteady hholds (by rw [hanswer]; exact howed _), hcover.flatMap_data]
  show Answer.bytes (pieces.flatten.extract 0 file.layout.size) = _
  rw [← hlength, List.extract_eq_take_drop, List.drop_zero, Nat.sub_zero, List.take_length]

/-- A session answers a retrieval of all blocks of a file none of whose chunks can be read with the error of
the first. -/
theorem Session.blocks_all_failing (hactive : retriever.isShutDown = false)
    (hsteady : session.service.Steady holds answers reply) (hholds : holds session.backend)
    (hanswer : answers fileId = .ok manifest)
    (hfile : ResolvedFile.ofAnswer fileId retriever.credentials (.ok manifest) = .ok file)
    (hsome : file.layout.chunks ≠ [])
    (hfails : ∀ chunk ∈ file.layout.chunks, ∃ error, refused chunk error ∧
      FetchTask.outcome file chunk (Fetch.byLocation reply chunk) = .error error) :
    ∃ chunk error, refused chunk error ∧ chunk.number = 1 ∧
      (blocks fileId none retriever session).1 = .failed error := by
  have hplaced := (ResolvedFile.complete_of_ofAnswer hfile).1.endToEnd
  rw [blocks_all hactive hsteady hholds hanswer hfile]
  cases hchunks : file.layout.chunks with
  | nil => exact absurd hchunks hsome
  | cons chunk rest =>
    rw [hchunks] at hplaced hfails
    obtain ⟨error, hrefused, herror⟩ := hfails chunk List.mem_cons_self
    refine ⟨chunk, error, hrefused, hplaced.1, ?_⟩
    rw [Result.mapM_cons, herror]
    rfl

/-- A session answers a read of a whole file none of whose chunks can be read with the error of one of them,
at the start of the file, unless the file is empty. -/
theorem Session.readRange_full_failing (hactive : retriever.isShutDown = false)
    (hsteady : session.service.Steady holds answers reply) (hholds : holds session.backend)
    (hanswer : answers fileId = .ok manifest)
    (hfile : ResolvedFile.ofAnswer fileId retriever.credentials (.ok manifest) = .ok file)
    (hfails : ∀ chunk ∈ file.layout.chunks, ∃ error, refused chunk error ∧
      FetchTask.outcome file chunk (Fetch.byLocation reply chunk) = .error error) :
    (file.layout.size = 0 → (readRange fileId .full retriever session).1 = .bytes []) ∧
      (file.layout.size ≠ 0 → ∃ chunk error, refused chunk error ∧
        (readRange fileId .full retriever session).1 = .failed (.stream 0 error)) := by
  have hselected := file.layout.selectRange_full
  have hempty := (ResolvedFile.complete_of_ofAnswer hfile).1.dropWhile_eq_nil_iff
  cases hchunks : file.layout.chunks.dropWhile fun chunk => chunk.stop ≤ 0 with
  | nil =>
    have hsize := hempty.mp hchunks
    refine ⟨fun _ => ?_, fun hsome => absurd hsize hsome⟩
    rw [hchunks] at hselected
    rw [readRange_eq hactive hsteady hholds, hanswer, FragmentStream.owed_ofRange hfile hselected]
    rfl
  | cons chunk after =>
    have hsize : file.layout.size ≠ 0 := by
      rw [Ne, ← hempty, hchunks]
      exact List.cons_ne_nil _ _
    refine ⟨fun hzero => absurd hzero hsize, fun _ => ?_⟩
    have hmem : chunk ∈ file.layout.chunks :=
      (List.dropWhile_suffix _).subset (hchunks ▸ List.mem_cons_self)
    obtain ⟨error, hrefused, herror⟩ := hfails chunk hmem
    refine ⟨chunk, error, hrefused, ?_⟩
    rw [hchunks] at hselected
    have hbefore : List.Forall₂ (fun other block =>
      FetchTask.outcome file other (Fetch.byLocation reply other) = .ok block) [] [] := .nil
    obtain ⟨hcover, howed⟩ := FragmentStream.owed_failing hfile hselected hbefore herror
    have hstart : ByteRange.full.start = max ByteRange.full.start chunk.offset := hcover
    rw [readRange_eq hactive hsteady hholds, hanswer, howed _ _ fun _ _ => rfl, answerBytes_failing, ← hstart]
    rfl

end Retrievals

/-- What has been uploaded is read back, unless it is stored as raw blocks with padding behind them.

Data is uploaded in chunks of any lengths, with any content key and initial vectors. Under the same secret a
session then answers a retrieval of all blocks with blocks of the pieces, and a read of the whole file with
the data, in every compression, in frames of any size, encrypted or not. Only a raw block that was encrypted
cannot be told from the padding behind it: its decoding is refused, in the first chunk of a retrieval of
blocks, and in a read of the file, before its first byte. -/
theorem upload_reads_back {encoding : Encoding} {lengths : List Nat} {data : Bytes} (hlengths : lengths ≠ [])
    (htotal : lengths.sum = data.length) (hsize : data.length < sizeBound)
    (hcount : lengths.length ≤ Location.indexBound) (husable : encoding.Usable)
    (hsmall : ∀ length ∈ lengths, encoding.Accepts length) (depot : Depot) (fileId : String) (draws : Draws) :
    ∃ stored, depot.upload fileId data lengths encoding draws = .ok (encoding.contentKey draws, stored) ∧
      ∀ (session : Session) (retriever : Retriever), session.Serves stored fileId →
        retriever.isShutDown = false → encoding.UnlockedBy retriever.credentials →
          (¬ encoding.PadsRawBlocks →
            (∃ blocks, (Session.blocks fileId none retriever session).1 = .blocks blocks ∧
              blocks.map (·.data) = cutInto lengths data ∧ blocks.flatMap (·.data) = data) ∧
            (Session.readRange fileId .full retriever session).1 = .bytes data) ∧
          (encoding.PadsRawBlocks →
            (∃ context error, RetrievalError.RefusesRawBlock error context ∧ context.fileId = fileId ∧
              context.number = 1 ∧ (Session.blocks fileId none retriever session).1 = .failed error) ∧
            (data = [] → (Session.readRange fileId .full retriever session).1 = .bytes []) ∧
            (data ≠ [] → ∃ context error, RetrievalError.RefusesRawBlock error context ∧
              context.fileId = fileId ∧
                (Session.readRange fileId .full retriever session).1 = .failed (.stream 0 error))) := by
  obtain ⟨stored, manifest, hupload, hmanifest, hresolved⟩ :=
    husable.exists_resolved hlengths htotal hsize hcount depot fileId draws
  refine ⟨stored, hupload, fun session retriever hserves hactive hunlocked => ?_⟩
  obtain ⟨holds, answers, reply, hsteady, hholds, hanswer, hreply⟩ := hserves
  rw [hmanifest] at hanswer
  obtain ⟨file, hfile, hfull⟩ := hresolved retriever.credentials hunlocked
  obtain ⟨hcomplete, rfl⟩ := ResolvedFile.complete_of_ofAnswer hfile
  have haccepts := forall_mem_cutInto htotal hsmall
  have hpieces := flatten_cutInto htotal
  refine ⟨fun hreads => ?_, fun hpads => ?_⟩
  · have hdelivers := hfull.stores.delivers hfull.serves hreply haccepts hreads
    obtain ⟨blocks, hblocks, hdata⟩ := ResolvedFile.exists_blocks hdelivers
    refine ⟨⟨blocks, ?_, hdata, ?_⟩, ?_⟩
    · rw [Session.blocks_all hactive hsteady hholds hanswer hfile, hblocks]
      rfl
    · rw [List.flatMap_def, hdata, hpieces]
    · rw [Session.readRange_full hactive hsteady hholds hanswer hfile hdelivers, hpieces]
  · have hrefuses := hfull.stores.refuses hfull.serves hreply haccepts hpads
    have hwhole := hfull.size_eq hcomplete htotal
    obtain ⟨chunk, error, hrefused, hnumber, hblocks⟩ := Session.blocks_all_failing hactive hsteady hholds
      hanswer hfile (hfull.chunks_ne_nil hlengths) hrefuses
    obtain ⟨hempty, hsome⟩ :=
      Session.readRange_full_failing hactive hsteady hholds hanswer hfile hrefuses
    refine ⟨⟨_, error, hrefused, rfl, hnumber, hblocks⟩, fun hnil => hempty (by rw [hwhole, hnil]; rfl),
      fun hdata => ?_⟩
    obtain ⟨other, found, hfound, hread⟩ := hsome fun hzero =>
      hdata (List.eq_nil_of_length_eq_zero (hwhole ▸ hzero))
    exact ⟨_, found, hfound, rfl, hread⟩

/-- Credentials with a secret. -/
def Credentials.sample : Credentials := .keyPair "a" "AAAA"

/-- Files that are encrypted under that secret, without frames. -/
def Encoding.sample (compression : Compression) : Encoding :=
  { compression, framed := false, secret := some "AAAA", keyLength := 16 }

/-- A session in front of a depot. -/
def Session.sample (depot : Depot) : Session :=
  { start .direct .sample none with backend := { inner := depot } }

/-- The secret of the samples is Base64. -/
theorem Encoding.usable_sample (compression : Compression) : (sample compression).Usable := by
  intro secret hsecret
  obtain rfl := Option.some.inj hsecret
  exact ⟨List.mem_cons_self, [0, 0, 0], by decide⟩

/-- The session of the samples serves what the depot has in store. -/
theorem Session.serves_sample (depot : Depot) (fileId : String) : (sample depot).Serves depot fileId :=
  serves_of_direct rfl rfl rfl fun _ => List.not_mem_nil

/-- Three bytes in two gzip members are encrypted and read back. -/
theorem upload_reads_back_sample :
    ∃ stored, Depot.upload {} "f" [1, 2, 3] [2, 1] (.sample .gzip) (fun _ i => UInt8.ofNat i) =
        .ok (some [0, 1, 2, 3, 4, 5, 6, 7, 8, 9, 10, 11, 12, 13, 14, 15], stored) ∧
      (Session.readRange "f" .full { credentials := .sample } (.sample stored)).1 = .bytes [1, 2, 3] := by
  have htotal : [2, 1].sum = ([1, 2, 3] : Bytes).length := rfl
  have hsmall : ∀ length ∈ [2, 1], (Encoding.sample .gzip).Accepts length := fun _ _ hsnappy => nomatch hsnappy
  obtain ⟨stored, hupload, hreads⟩ := upload_reads_back (by decide) htotal (by decide) (by decide)
    (Encoding.usable_sample .gzip) hsmall {} "f" fun _ i => UInt8.ofNat i
  refine ⟨stored, hupload, ?_⟩
  exact ((hreads _ { credentials := .sample } (Session.serves_sample stored "f") rfl
    fun _ => Option.some.inj).1 fun hpads => nomatch hpads.1).2

/-- Three bytes in a raw block are encrypted, and are not read back. -/
theorem upload_rawBlock_refused_sample :
    ∃ stored, Depot.upload {} "f" [1, 2, 3] [3] (.sample .snappy) (fun _ _ => 0) =
        .ok (some (List.replicate 16 0), stored) ∧
      (¬ ∃ blocks, (Session.blocks "f" none { credentials := .sample } (.sample stored)).1 = .blocks blocks) ∧
      (Session.readRange "f" .full { credentials := .sample } (.sample stored)).1 ≠ .bytes [1, 2, 3] := by
  have htotal : [3].sum = ([1, 2, 3] : Bytes).length := rfl
  have hsmall : ∀ length ∈ [3], (Encoding.sample .snappy).Accepts length := by
    intro length hlength hsnappy
    obtain rfl := List.mem_singleton.mp hlength
    decide
  obtain ⟨stored, hupload, hreads⟩ := upload_reads_back (by decide) htotal (by decide) (by decide)
    (Encoding.usable_sample .snappy) hsmall {} "f" fun _ _ => 0
  obtain ⟨⟨_, error, -, -, -, hblocks⟩, -, hread⟩ := (hreads _ { credentials := .sample }
    (Session.serves_sample stored "f") rfl fun _ => Option.some.inj).2 ⟨rfl, rfl, rfl⟩
  obtain ⟨_, found, -, -, hfound⟩ := hread (by decide)
  refine ⟨stored, hupload, ?_, ?_⟩
  · rw [hblocks]
    rintro ⟨blocks, hequal⟩
    exact nomatch hequal
  · rw [hfound]
    exact fun hequal => nomatch hequal

end Reassembly
