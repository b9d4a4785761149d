import Reassembly.Proofs.Retrieval.Join
import Reassembly.Proofs.Session.Retrieval

/-!
# Retrieving blocks

The reference for a retrieval of blocks goes through the requested numbers one after the other: it takes
the chunk of each, decodes what the request for it brings, and stops at the first failure. A retrieval
does all of this at once and in any order, and gives the same result. A number that the file does not
have ends it before anything is downloaded.
-/

namespace Reassembly

namespace Layout

/-- The numbers of all chunks of a file. -/
def numbers (layout : Layout) : List Nat := (List.range layout.count).map (· + 1)

/-- The numbers that a retrieval of blocks is for. No numbers at all stand for every chunk. -/
def requested (layout : Layout) : Option (List Nat) → List Nat
  | none => layout.numbers
  | some [] => layout.numbers
  | some numbers => numbers

/-- A retrieval for the numbers of all chunks is for these. -/
theorem requested_numbers (layout : Layout) : layout.requested (some layout.numbers) = layout.numbers := by
  cases hnumbers : layout.numbers with
  | nil => exact hnumbers
  | cons first rest => rfl

/-- The file has a chunk of the number. -/
def Has (layout : Layout) (number : Nat) : Prop := 1 ≤ number ∧ number ≤ layout.count

instance (layout : Layout) (number : Nat) : Decidable (layout.Has number) :=
  inferInstanceAs (Decidable (_ ∧ _))

variable {layout : Layout} {number : Nat}

/-- A file has the chunks that can be taken by their numbers. -/
theorem has_iff : layout.Has number ↔ ∃ chunk, layout.chunk? number = some chunk := by
  cases number with
  | zero => simp [Has, chunk?]
  | succ i =>
    constructor
    · rintro ⟨-, hle⟩
      exact ⟨_, List.getElem?_eq_getElem hle⟩
    · rintro ⟨chunk, hchunk⟩
      exact ⟨Nat.succ_pos i, (List.getElem?_eq_some_iff.mp hchunk).1⟩

/-- Taking the chunk of a number that the file has. -/
theorem chunk_eq_ok_iff {chunk : Chunk} : layout.chunk number = .ok chunk ↔ layout.chunk? number = some chunk := by
  rw [Layout.chunk]
  cases layout.chunk? number <;> simp

/-- Taking the chunk of a number that the file does not have. -/
theorem chunk_eq_error (h : ¬ layout.Has number) :
    layout.chunk number = .error (.blockOutOfRange layout.fileId number layout.count) := by
  rw [Layout.chunk]
  cases hchunk : layout.chunk? number with
  | none => rfl
  | some chunk => exact absurd (has_iff.mpr ⟨chunk, hchunk⟩) h

/-- Taking the chunks of all numbers takes every chunk. -/
theorem mapM_numbers (layout : Layout) : layout.numbers.mapM layout.chunk = .ok layout.chunks := by
  rw [Result.mapM_eq_ok_iff, numbers, count, List.forall₂_map_left_iff, List.forall₂_iff_get]
  refine ⟨List.length_range, fun i hrange hi => ?_⟩
  rw [List.get_eq_getElem, List.getElem_range, chunk_eq_ok_iff]
  exact List.getElem?_eq_getElem hi

/-- Selecting by numbers takes the chunks of the requested ones. -/
theorem selectNumbers_eq (layout : Layout) (numbers : Option (List Nat)) :
    layout.selectNumbers numbers = (layout.requested numbers).mapM layout.chunk := by
  cases numbers with
  | none => exact layout.mapM_numbers.symm
  | some numbers =>
    cases numbers with
    | nil => exact layout.mapM_numbers.symm
    | cons first rest => rfl

end Layout

variable {file : ResolvedFile} {replies : Replies} {chunk : Chunk} {reply : Reply} {block : Block}
  {error : RetrievalError}

/-- The error of an opened payload names the chunk. -/
theorem ResolvedFile.context?_of_openPayload {context : ChunkContext} {payload : Bytes}
    (h : file.openPayload context payload = .error error) : error.context? = some context := by
  rw [openPayload] at h
  split at h
  · cases hkey : file.contentKey with
    | none =>
      rw [hkey] at h
      obtain rfl := Except.error.inj h
      rfl
    | some key =>
      simp only [hkey] at h
      obtain ⟨fault, -, rfl⟩ := Result.mapError_eq_error_iff.mp h
      rfl
  · simp at h

/-- The error of expanded data names the chunk. -/
theorem ResolvedFile.context?_of_expandPayload {context : ChunkContext} {data : Bytes}
    (h : file.expandPayload context data = .error error) : error.context? = some context := by
  rw [expandPayload_def] at h
  split at h
  · obtain ⟨fault, -, rfl⟩ := Result.mapError_eq_error_iff.mp h
    rfl
  · simp at h

/-- The error of a decoded payload names the chunk. -/
theorem ResolvedFile.context?_of_decode {payload : Bytes} (h : file.decode chunk payload = .error error) :
    error.context? = some (chunk.context file.layout.fileId) := by
  rw [decode_def] at h
  rcases Result.bind_eq_error_iff.mp h with hopen | ⟨opened, -, h⟩
  · exact context?_of_openPayload hopen
  · rcases Result.bind_eq_error_iff.mp h with hexpand | ⟨data, -, h⟩
    · exact context?_of_expandPayload hexpand
    · split at h
      · simp at h
      · obtain rfl := Except.error.inj h
        rfl

/-- The error of a chunk names the chunk. -/
theorem FetchTask.context?_of_outcome (h : FetchTask.outcome file chunk reply = .error error) :
    error.context? = some (chunk.context file.layout.fileId) := by
  cases reply with
  | refused cause =>
    obtain rfl := Except.error.inj h
    rfl
  | crashed =>
    obtain rfl := Except.error.inj h
    rfl
  | payload bytes => exact ResolvedFile.context?_of_decode (Result.map_eq_error_iff.mp h)

namespace ResolvedFile

/-- The block of a number is what the reply to the request for the chunk decodes to, at the chunk's place
and of its length. -/
structure Provides (file : ResolvedFile) (replies : Replies) (number : Nat) (block : Block) : Prop where
  ofChunk : ∃ chunk payload, file.layout.chunk? number = some chunk ∧
    replies chunk = .payload payload ∧ file.decode chunk payload = .ok block.data ∧
      block.offset = chunk.offset ∧ block.length = chunk.length
  fileId : block.fileId = file.layout.fileId
  number : block.number = number

/-- The request for the chunk of a number fails, or what it brings cannot be decoded. -/
def FailsAt (file : ResolvedFile) (replies : Replies) (number : Nat) (error : RetrievalError) : Prop :=
  ∃ chunk, file.layout.chunk? number = some chunk ∧
    error.context? = some (chunk.context file.layout.fileId) ∧
      match replies chunk with
      | .payload payload => file.decode chunk payload = .error error
      | .refused cause => error = .download (chunk.context file.layout.fileId) cause
      | .crashed => error = .unfinished (chunk.context file.layout.fileId) crashReason

/-- The first failure among the chunks of some numbers, in their order. -/
def FailsFirst (file : ResolvedFile) (replies : Replies) (numbers : List Nat) (error : RetrievalError) :
    Prop :=
  ∃ before number after, numbers = before ++ number :: after ∧
    (∀ other ∈ before, ∃ block, file.Provides replies other block) ∧ file.FailsAt replies number error

/-- A number provides a block when the outcome of its chunk is that block. -/
theorem provides_iff (hcomplete : file.layout.Complete) {number : Nat} :
    file.Provides replies number block ↔ ∃ chunk, file.layout.chunk? number = some chunk ∧
      FetchTask.outcome file chunk (replies chunk) = .ok block := by
  constructor
  · rintro ⟨⟨chunk, payload, hchunk, hreply, hdecode, hoffset, -⟩, hfile, hnumber⟩
    refine ⟨chunk, hchunk, ?_⟩
    have hplace := hcomplete.number_of_chunk? hchunk
    obtain ⟨fileId, found, offset, data⟩ := block
    simp only at hoffset hfile hnumber hdecode
    rw [hreply, FetchTask.outcome, FetchTask.decoded, hdecode, hfile, hnumber, hoffset, ← hplace]
    rfl
  · rintro ⟨chunk, hchunk, houtcome⟩
    obtain ⟨hfile, hnumber, hoffset, hlength⟩ := FetchTask.outcome_eq_ok houtcome
    have hplace := hcomplete.number_of_chunk? hchunk
    refine ⟨?_, hfile, hnumber.trans hplace⟩
    cases hreply : replies chunk with
    | refused cause => simp [hreply, FetchTask.outcome] at houtcome
    | crashed => simp [hreply, FetchTask.outcome] at houtcome
    | payload payload =>
      rw [hreply] at houtcome
      obtain ⟨data, hdata, rfl⟩ := Result.map_eq_ok_iff.mp houtcome
      exact ⟨chunk, payload, hchunk, hreply, hdata, hoffset, hlength⟩

/-- A number fails when the outcome of its chunk is the error. -/
theorem failsAt_iff {number : Nat} :
    file.FailsAt replies number error ↔ ∃ chunk, file.layout.chunk? number = some chunk ∧
      FetchTask.outcome file chunk (replies chunk) = .error error := by
  refine exists_congr fun chunk => and_congr_right fun _ => ?_
  constructor
  · rintro ⟨-, hcause⟩
    cases hreply : replies chunk with
    | refused cause =>
      rw [hreply] at hcause
      rw [FetchTask.outcome, hcause]
    | crashed =>
      rw [hreply] at hcause
      rw [FetchTask.outcome, hcause]
    | payload payload =>
      simp only [hreply] at hcause
      exact Result.map_eq_error_iff.mpr hcause
  · intro houtcome
    refine ⟨FetchTask.context?_of_outcome houtcome, ?_⟩
    cases hreply : replies chunk with
    | refused cause =>
      rw [hreply] at houtcome
      exact (Except.error.inj houtcome).symm
    | crashed =>
      rw [hreply] at houtcome
      exact (Except.error.inj houtcome).symm
    | payload payload =>
      rw [hreply] at houtcome
      exact Result.map_eq_error_iff.mp houtcome

/-- What going through some numbers one after the other gives: the blocks of all of them, or the first
failure. -/
structure Sequential (file : ResolvedFile) (replies : Replies) (numbers : List Nat)
    (result : Except RetrievalError (List Block)) : Prop where
  ok_iff : ∀ blocks, result = .ok blocks ↔ List.Forall₂ (file.Provides replies) numbers blocks
  error_iff : ∀ error, result = .error error ↔ file.FailsFirst replies numbers error

/-- The outcomes of the chunks of some numbers, one after the other, are what going through the numbers
gives. -/
theorem sequential_mapM (hcomplete : file.layout.Complete) (replies : Replies) {numbers : List Nat}
    {chunks : List Chunk} (hchunks : numbers.mapM file.layout.chunk = .ok chunks) :
    file.Sequential replies numbers
      (chunks.mapM fun chunk => FetchTask.outcome file chunk (replies chunk)) := by
  have hok : ∀ number block,
      (file.layout.chunk number >>= fun chunk => FetchTask.outcome file chunk (replies chunk)) = .ok block ↔
        file.Provides replies number block := by
    intro number block
    rw [Result.bind_eq_ok_iff, provides_iff hcomplete]
    exact exists_congr fun chunk => and_congr_left' Layout.chunk_eq_ok_iff
  have herror : ∀ number ∈ numbers, ∀ error,
      (file.layout.chunk number >>= fun chunk => FetchTask.outcome file chunk (replies chunk)) =
        .error error ↔ file.FailsAt replies number error := by
    intro number hmem error
    obtain ⟨chunk, hchunk⟩ := Result.exists_ok_of_mapM hchunks hmem
    rw [Result.bind_eq_error_iff, failsAt_iff, hchunk]
    simp only [reduceCtorEq, false_or, ← Layout.chunk_eq_ok_iff, hchunk]
  rw [Result.mapM_eq_mapM_bind hchunks]
  refine ⟨fun blocks => ?_, fun error => ?_⟩
  · rw [Result.mapM_eq_ok_iff]
    exact ⟨List.Forall₂.imp fun number block => (hok number block).mp,
      List.Forall₂.imp fun number block => (hok number block).mpr⟩
  · rw [Result.mapM_eq_error_iff]
    refine exists_congr fun before => exists_congr fun number => exists_congr fun after =>
      and_congr_right fun hsplit => and_congr ?_ ?_
    · exact forall₂_congr fun other _ => exists_congr fun block => hok other block
    · exact herror number (by rw [hsplit]; simp) error

end ResolvedFile

/-- However its tasks take turns, a fetch that is joined comes to a result as described: it can only stop
there, and it cannot go on for ever. -/
structure Joining.ComesTo (replies : Replies) (fetch : Fetch)
    (described : Except RetrievalError (List Block) → Prop) : Prop where
  ended : ∀ events result, (waiting fetch []).run replies events = .ended result → described result
  quiet : ∀ events, Schedule.Quiet (step replies) ((waiting fetch []).run replies events) →
    ∃ result, (waiting fetch []).run replies events = .ended result
  busy : ∀ events, Schedule.Busy (step replies) (waiting fetch []) events →
    events.length ≤ (waiting fetch []).weight

/-- A fetch of the chunks of some numbers comes to what going through the numbers gives. -/
theorem ResolvedFile.comesTo_sequential (hcomplete : file.layout.Complete) {numbers : List Nat}
    {chunks : List Chunk} (hchunks : numbers.mapM file.layout.chunk = .ok chunks) (limit : Nat)
    (replies : Replies) :
    Joining.ComesTo replies (Fetch.start file chunks limit) (file.Sequential replies numbers) where
  ended events result hended := by
    rw [(Joining.join_eq_mapM file chunks limit replies events).1 result hended]
    exact sequential_mapM hcomplete replies hchunks
  quiet events hquiet := ⟨_, (Joining.join_eq_mapM file chunks limit replies events).2.1 hquiet⟩
  busy events hbusy := by
    have hlive : (Joining.waiting (Fetch.start file chunks limit) []).Live :=
      Fetch.capacity?_start_ne_zero file chunks limit
    exact hbusy.length_le Joining.weight Joining.Live (Joining.live_step replies)
      (fun state event _ => Joining.weight_step replies state event) hlive

variable {fileId : String} {answer : Except ServiceError Manifest} {retriever : Retriever}

/-- A retrieval of blocks refines going through the requested numbers one after the other.

The first number that the file does not have is refused, and the service has then been asked for the
manifest alone. Otherwise the fetch comes to the sequential result under every schedule of its tasks and
every limit, and a session answers with this result whatever else it has under way. No numbers at all
are the numbers of all chunks. -/
theorem blocks_refine_sequential (hactive : retriever.isShutDown = false)
    (hfile : ResolvedFile.ofAnswer fileId retriever.credentials answer = .ok file)
    (numbers : Option (List Nat)) :
    (∀ before number after, file.layout.requested numbers = before ++ number :: after →
        (∀ other ∈ before, file.layout.Has other) → ¬ file.layout.Has number →
          (∀ {σ : Type} (service : Service σ) (state : σ), (service.lookup fileId state).1 = answer →
            retriever.blocks service fileId numbers state =
              (.error (.blockOutOfRange fileId number file.layout.count),
                (service.lookup fileId state).2)) ∧
          ∀ session : Session, (session.service.lookup fileId session.backend).1 = answer →
            Session.blocks fileId numbers retriever session =
              (.failed (.blockOutOfRange fileId number file.layout.count),
                { session with backend := (session.service.lookup fileId session.backend).2 })) ∧
      ((∀ number ∈ file.layout.requested numbers, file.layout.Has number) →
        (∀ {σ : Type} (service : Service σ) (state : σ), (service.lookup fileId state).1 = answer →
          ∃ fetch, retriever.blocks service fileId numbers state =
              (.ok fetch, (service.lookup fileId state).2) ∧
            ∀ replies, Joining.ComesTo replies fetch
              (file.Sequential replies (file.layout.requested numbers))) ∧
        ∀ (session : Session) (holds : Backend → Prop) (answers : String → Except ServiceError Manifest)
          (reply : String → Reply), session.service.Steady holds answers reply →
            holds session.backend → answers fileId = answer →
              ∃ result, file.Sequential (Fetch.byLocation reply) (file.layout.requested numbers) result ∧
                (Session.blocks fileId numbers retriever session).1 = Session.answerBlocks result) ∧
      ∀ {σ : Type} (service : Service σ) (state : σ), (service.lookup fileId state).1 = answer →
        retriever.blocks service fileId none state =
            retriever.blocks service fileId (some file.layout.numbers) state ∧
          retriever.blocks service fileId (some []) state =
            retriever.blocks service fileId (some file.layout.numbers) state := by
  obtain ⟨hcomplete, hid⟩ := ResolvedFile.complete_of_ofAnswer hfile
  refine ⟨?_, ?_, ?_⟩
  · intro before number after hsplit hbefore hnumber
    have hselect : file.layout.selectNumbers numbers =
        .error (.blockOutOfRange fileId number file.layout.count) := by
      rw [Layout.selectNumbers_eq, Result.mapM_eq_error_iff]
      refine ⟨before, number, after, hsplit, fun other hother => ?_, ?_⟩
      · obtain ⟨chunk, hchunk⟩ := Layout.has_iff.mp (hbefore other hother)
        exact ⟨chunk, Layout.chunk_eq_ok_iff.mpr hchunk⟩
      · rw [Layout.chunk_eq_error hnumber, hid]
    refine ⟨fun service state hlookup => ?_, fun session hlookup => ?_⟩
    · rw [Retriever.blocks_run service hactive, hlookup, hfile]
      simp only [Except.bind, hselect, Except.map]
    · have hbegun := Retriever.blocks_run session.service hactive fileId numbers session.backend
      rw [hlookup, hfile] at hbegun
      simp only [Except.bind, hselect, Except.map] at hbegun
      rw [Session.blocks, Action.bind_run, Session.withService_run, hbegun]
      rfl
  · intro hall
    obtain ⟨chunks, hchunks⟩ : ∃ chunks,
        (file.layout.requested numbers).mapM file.layout.chunk = .ok chunks := by
      refine Result.exists_mapM_eq_ok fun number hmem => ?_
      obtain ⟨chunk, hchunk⟩ := Layout.has_iff.mp (hall number hmem)
      exact ⟨chunk, Layout.chunk_eq_ok_iff.mpr hchunk⟩
    have hselect : file.layout.selectNumbers numbers = .ok chunks := by
      rw [Layout.selectNumbers_eq, hchunks]
    refine ⟨fun service state hlookup => ?_, fun session holds answers reply hsteady hholds hanswer => ?_⟩
    · refine ⟨Fetch.start file chunks retriever.limits.blockLimit, ?_, fun replies =>
        ResolvedFile.comesTo_sequential hcomplete hchunks _ replies⟩
      rw [Retriever.blocks_run service hactive, hlookup, hfile]
      simp only [Except.bind, hselect, Except.map]
    · refine ⟨_, ResolvedFile.sequential_mapM hcomplete (Fetch.byLocation reply) hchunks, ?_⟩
      rw [Session.blocks_eq hactive hsteady hholds, hanswer, hfile, Result.ok_bind, hselect, Result.ok_bind]
      rfl
  · intro σ service state hlookup
    have hall : file.layout.selectNumbers none = file.layout.selectNumbers (some file.layout.numbers) := by
      rw [Layout.selectNumbers_eq, Layout.selectNumbers_eq, Layout.requested_numbers]
      rfl
    have hempty : file.layout.selectNumbers (some []) = file.layout.selectNumbers none := rfl
    simp only [Retriever.blocks_run service hactive, hlookup, hfile, Except.bind]
    rw [hempty, hall]
    exact ⟨rfl, rfl⟩

/-- Of a file of three chunks, the third is retrieved twice, and a fourth is refused. -/
theorem blocks_refine_sequential_sample :
    let service := Overlay.service Depot.service
    let backend : Backend := { inner := {}, manifests := ⟨[("f", .sample)]⟩ }
    (∃ fetch, (Retriever.sample.blocks service "f" (some [3, 1, 3]) backend).1 = .ok fetch ∧
      ∀ replies, Joining.ComesTo replies fetch (ResolvedFile.sample.Sequential replies [3, 1, 3])) ∧
    (Retriever.sample.blocks service "f" (some [3, 4]) backend).1 = .error (.blockOutOfRange "f" 4 3) := by
  intro service backend
  have hlookup : (service.lookup "f" backend).1 = .ok .sample := rfl
  have hfile := ResolvedFile.ofAnswer_sample Retriever.sample.credentials
  obtain ⟨-, hinside, -⟩ := blocks_refine_sequential rfl hfile (some [3, 1, 3])
  obtain ⟨hbeyond, -⟩ := blocks_refine_sequential rfl hfile (some [3, 4])
  constructor
  · have hall : ∀ number ∈ [3, 1, 3], ResolvedFile.sample.layout.Has number := by decide
    obtain ⟨fetch, hfetch, hcomes⟩ := (hinside hall).1 service backend hlookup
    exact ⟨fetch, by rw [hfetch], hcomes⟩
  · have hbefore : ∀ number ∈ [3], ResolvedFile.sample.layout.Has number := by decide
    rw [(hbeyond [3] 4 [] rfl hbefore (by decide)).1 service backend hlookup]
    rfl

end Reassembly
