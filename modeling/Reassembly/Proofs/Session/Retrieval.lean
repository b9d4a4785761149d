import Reassembly.Proofs.Retrieval.Read
import Reassembly.Proofs.Session.Await

/-!
# Retrievals in a session

What a session answers to a retrieval over a steady service is what the service settles: the outcomes of
the chunks that are asked for, and nothing of the delays, of the permits or of what else is under way.
-/

namespace Reassembly

namespace FragmentStream

/-- The items of results are no more than the results. -/
theorem length_items_le (range : ByteRange) (offset : Nat) (results : List (Except RetrievalError Block)) :
    (items range offset results).length ≤ results.length := by
  induction results generalizing offset with
  | nil => exact Nat.le_refl _
  | cons result rest ih =>
    cases result with
    | error error => simp [items]
    | ok block =>
      rw [items]
      split
      · exact Nat.le_trans (ih offset) (Nat.le_succ _)
      · exact Nat.succ_le_succ (ih _)

/-- A stream that has been opened owes fewer items than the bound on its fragments. -/
theorem length_owed_lt {supply : Supply} {stream : FragmentStream} (h : stream.isUnopened = false) :
    (stream.owed supply).length < Session.streamBound stream := by
  rw [owed, Session.streamBound]
  by_cases hterminal : stream.state.isTerminal = true
  · rw [if_pos hterminal]
    simp
  · rw [if_neg hterminal]
    cases hholding : stream.holding with
    | released => simp
    | unopened => simp [isUnopened, hholding, hterminal] at h
    | fetching fetch =>
      have hle := length_items_le stream.range stream.offset (fetch.fates supply.replies)
      rw [Fetch.fates, List.length_map] at hle
      simp only [fetch?, hholding, Option.map_some, Option.getD_some, Fetch.size]
      exact Nat.lt_add_right 1 (Nat.lt_succ_of_le hle)

end FragmentStream

/-- Beginning to fetch blocks asks the service for the manifest, and for nothing else. -/
theorem Retriever.blocks_run {σ : Type} (service : Service σ) {retriever : Retriever}
    (hactive : retriever.isShutDown = false) (fileId : String) (numbers : Option (List Nat)) (state : σ) :
    retriever.blocks service fileId numbers state =
      ((ResolvedFile.ofAnswer fileId retriever.credentials (service.lookup fileId state).1).bind fun file =>
          (file.layout.selectNumbers numbers).map fun chunks =>
            Fetch.start file chunks retriever.limits.blockLimit,
        (service.lookup fileId state).2) := by
  have hresolve : retriever.resolve service fileId =
      (service.lookup fileId >>= fun found =>
        pure (ResolvedFile.ofAnswer fileId retriever.credentials found)) := by
    rw [resolve, hactive]
    rfl
  rw [blocks, hresolve]
  rfl

namespace Session

variable {streaming : Bool} {holds : Backend → Prop} {answer : String → Except ServiceError Manifest}
  {reply : String → Reply} {fileId : String} {items : List (Except RetrievalError Block)}
  {session : Session} {retriever : Retriever}

/-- Joining a retrieval gives the owed blocks, or the first owed error. -/
theorem joinFrom_eq_mapM {attempt : SessionM (Poll Block)}
    (hattempt : ∀ {session : Session} {items : List (Except RetrievalError Block)},
      Retrieving streaming holds answer reply fileId items session →
        Attempted streaming holds answer reply fileId items session (attempt session))
    (fuel : Nat) (h : Retrieving streaming holds answer reply fileId items session)
    (hfuel : items.length < fuel) : (joinFrom attempt fuel session).1 = items.mapM id := by
  induction fuel generalizing session items with
  | zero => simp at hfuel
  | succ fuel ih =>
    have hfound := awaited_await hattempt h
    rw [joinFrom, Action.bind_run]
    generalize await attempt session = found at hfound
    cases hfound with
    | ended nothing =>
      rw [nothing]
      rfl
    | @item after result rest first retrieving _ =>
      rw [first, Result.mapM_cons]
      cases result with
      | error error => rfl
      | ok block =>
        have hrest := ih retrieving (by rw [first, List.length_cons] at hfuel; omega)
        show (joinFrom attempt fuel after).1.map (block :: ·) = _
        rw [hrest, id_eq, Result.ok_bind]
        cases rest.mapM id <;> rfl

/-- What a session answers when a retrieval of blocks comes to a result. -/
def answerBlocks : Except RetrievalError (List Block) → Answer
  | .ok blocks => .blocks blocks
  | .error error => .failed error

/-- What a session answers when a retrieval of bytes comes to a result. -/
def answerBytes : Except RetrievalError (List Block) → Answer
  | .ok fragments => .bytes (fragments.flatMap (·.data))
  | .error error => .failed error

/-- What an action on the services of a session does. -/
theorem withService_run {α : Type} (act : Service Backend → StateM Backend α) (session : Session) :
    withService act session =
      ((act session.service session.backend).1,
        { session with backend := (act session.service session.backend).2 }) := rfl

/-- A session that begins to wait for a fetch of some chunks is owed their outcomes. -/
theorem retrieving_fetch (session : Session) (hsteady : session.service.Steady holds answer reply)
    (hholds : holds session.backend) (fileId : String) (file : ResolvedFile) (chunks : List Chunk)
    (limit : Nat) :
    Retrieving false holds answer reply fileId
      (chunks.map fun chunk => FetchTask.outcome file chunk (reply chunk.location))
      { session with errand := .fetch (Fetch.start file chunks limit) } := by
  refine ⟨hsteady, hholds, trivial, fun fetch hfetch => ?_, by simp, ?_⟩
  · obtain rfl := Option.some.inj hfetch
    exact Fetch.calm_start file chunks limit
  · exact Fetch.fates_start (Fetch.byLocation reply) file chunks limit

/-- A session answers a retrieval of whole blocks with the outcomes of the chunks, or with the first of
the errors among them. -/
theorem blocks_eq (hactive : retriever.isShutDown = false)
    (hsteady : session.service.Steady holds answer reply) (hholds : holds session.backend)
    (fileId : String) (numbers : Option (List Nat)) :
    (blocks fileId numbers retriever session).1 =
      answerBlocks (do
        let file ← ResolvedFile.ofAnswer fileId retriever.credentials (answer fileId)
        let chunks ← file.layout.selectNumbers numbers
        chunks.mapM fun chunk => FetchTask.outcome file chunk (reply chunk.location)) := by
  obtain ⟨hfound, hafter⟩ := hsteady.lookup fileId session.backend hholds
  rw [blocks, Action.bind_run, withService_run, Retriever.blocks_run session.service hactive, hfound]
  generalize (session.service.lookup fileId session.backend).2 = backend at hafter
  cases ResolvedFile.ofAnswer fileId retriever.credentials (answer fileId) with
  | error error => rfl
  | ok file =>
    cases hchunks : file.layout.selectNumbers numbers with
    | error error =>
      simp only [Except.bind, Result.ok_bind, Result.error_bind, hchunks]
      rfl
    | ok chunks =>
      have hjoin := joinFrom_eq_mapM (fun h => attempted_pollErrandFetch h)
        ((Fetch.start file chunks retriever.limits.blockLimit).size + 1)
        (retrieving_fetch { session with backend } hsteady hafter fileId file chunks
          retriever.limits.blockLimit)
        (by simp [Fetch.size, Fetch.start])
      rw [List.mapM_map, Function.id_comp] at hjoin
      simp only [Except.bind, Except.map, Result.ok_bind, hchunks, Action.bind_run, Action.modify_run]
      rw [← hjoin]
      generalize joinFrom pollErrandFetch _ _ = joined
      obtain ⟨result, after⟩ := joined
      cases result <;> rfl

/-- A session that begins to wait for a stream over a range is owed its items. -/
theorem retrieving_stream (session : Session) (hsteady : session.service.Steady holds answer reply)
    (hholds : holds session.backend) (fileId : String) (credentials : Credentials) (range : ByteRange)
    (limit : Nat) :
    Retrieving true holds answer reply fileId
      ((FragmentStream.ofRange fileId credentials range limit).owed ⟨answer fileId, Fetch.byLocation reply⟩)
      { session with errand := .stream (.ofRange fileId credentials range limit) } := by
  refine ⟨hsteady, hholds, trivial, fun fetch hfetch => ?_, fun stream hstream => ?_, rfl⟩
  · simp [Errand.fetch?, FragmentStream.fetch?, FragmentStream.ofRange] at hfetch
  · obtain rfl : FragmentStream.ofRange fileId credentials range limit = stream := by simpa using hstream
    exact ⟨FragmentStream.live_of_unopened rfl, rfl⟩

/-- The most fragments that the stream of an errand may still yield. -/
def errandBound (session : Session) : Nat :=
  match session.errand with
  | .stream stream => streamBound stream
  | _ => 0

/-- The items that are still owed are fewer than the bound on them. -/
theorem Retrieving.length_lt_errandBound (h : Retrieving true holds answer reply fileId items session)
    (hopened : ∀ stream, session.errand = .stream stream → stream.isUnopened = false) :
    items.length < errandBound session := by
  have hawaits := h.awaits
  rw [← h.owed, errandBound]
  cases herrand : session.errand with
  | stream stream => exact FragmentStream.length_owed_lt (hopened stream herrand)
  | fetch | none | download | arrived => simp [herrand, Errand.Awaits] at hawaits

/-- A session answers a read of a range with the bytes of the owed fragments, or with the owed error. -/
theorem readRange_eq (hactive : retriever.isShutDown = false)
    (hsteady : session.service.Steady holds answer reply) (hholds : holds session.backend)
    (fileId : String) (range : ByteRange) :
    (readRange fileId range retriever session).1 =
      answerBytes (((FragmentStream.ofRange fileId retriever.credentials range
        retriever.limits.streamLimit).owed ⟨answer fileId, Fetch.byLocation reply⟩).mapM id) := by
  have hstream : retriever.stream fileId range =
      .ok (.ofRange fileId retriever.credentials range retriever.limits.streamLimit) := by
    rw [Retriever.stream, hactive]
    rfl
  have hfirst := awaited_await (fun h => attempted_pollErrandStream h)
    (retrieving_stream session hsteady hholds fileId retriever.credentials range retriever.limits.streamLimit)
  rw [readRange, hstream]
  simp only [Action.bind_run, Action.modify_run, Action.get_run]
  generalize await pollErrandStream _ = found at hfirst ⊢
  cases hfirst with
  | ended nothing =>
    rw [nothing]
    rfl
  | @item after result rest first retrieving opened =>
    rw [first, Result.mapM_cons]
    cases result with
    | error error => rfl
    | ok fragment =>
      have hjoin := joinFrom_eq_mapM (fun h => attempted_pollErrandStream h) (errandBound after)
        retrieving (retrieving.length_lt_errandBound opened)
      rw [id_eq, Result.ok_bind, ← hjoin]
      show ((joinFrom pollErrandStream (errandBound after) >>= _) after).1 = _
      rw [Action.bind_run]
      generalize joinFrom pollErrandStream (errandBound after) after = joined
      obtain ⟨result, last⟩ := joined
      cases result <;> rfl

end Session

/-- A manifest of three chunks, the second of which is empty. -/
def Manifest.sample : Manifest := { entries := [⟨"a", 2⟩, ⟨"b", 0⟩, ⟨"c", 3⟩] }

/-- The file of three chunks. -/
def ResolvedFile.sample : ResolvedFile :=
  ⟨⟨"f", none, .none, [⟨1, 0, 2, "a"⟩, ⟨2, 2, 0, "b"⟩, ⟨3, 2, 3, "c"⟩], 5⟩, none⟩

/-- A service of the file of three chunks, all bytes of which are the same. -/
def Service.sample : Service Unit where
  lookup _ := pure (.ok .sample)
  request now location := pure ⟨.payload (List.replicate (if location = "a" then 2 else 3) 7), now, false⟩
  arrived _ := pure ()
  abandoned _ := pure ()

/-- A retriever without a secret. -/
def Retriever.sample : Retriever := { credentials := .bearer "t" }

/-- The file of three chunks is resolved under any credentials. -/
theorem ResolvedFile.ofAnswer_sample (credentials : Credentials) :
    ofAnswer "f" credentials (.ok .sample) = .ok .sample := by
  have hlay : Layout.lay "f" .sample = .ok sample.layout :=
    Layout.lay_of_place (by decide) (Compression.ofName?_name .none) rfl (by decide)
  show (Layout.ofManifest "f" .sample >>= _) = _
  rw [Layout.ofManifest, hlay]
  rfl

end Reassembly
