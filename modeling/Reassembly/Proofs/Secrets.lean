import Reassembly.Http.Remote
import Reassembly.Proofs.Bounds
import Reassembly.Proofs.Frugality
import Reassembly.Proofs.KeyWrapping

/-!
# What a secret decides

Two runs of an operation are compared that differ in nothing but the secrets of their credentials. The secrets matter
only when the key of a file is unwrapped: runs whose secrets unwrap the same are the same run, down to the state of the
service. Where they do not unwrap the same, both still ask for one manifest and choose among the same chunks, and a run
that cannot unwrap its key asks for none of them. Nothing is said here about how hard a secret is to guess.
-/

namespace Reassembly

variable {σ : Type} {fileId : String} {credentials other : Credentials} {answer : Except ServiceError Manifest}

/-- The layout of a file, once the metadata service has answered. -/
def Layout.ofAnswer (fileId : String) (answer : Except ServiceError Manifest) : Except RetrievalError Layout :=
  answer.mapError (RetrievalError.ofLookup fileId) >>= ofManifest fileId

namespace ResolvedFile

/-- A file is resolved when it is laid out and its key is unwrapped. Only the key takes a secret. -/
theorem ofAnswer_eq (fileId : String) (credentials : Credentials) (answer : Except ServiceError Manifest) :
    ofAnswer fileId credentials answer = (Layout.ofAnswer fileId answer >>= fun layout =>
      (unwrapKey layout credentials.secret).map fun key => ⟨layout, key⟩) := by
  rw [ofAnswer, Layout.ofAnswer]
  cases answer.mapError (RetrievalError.ofLookup fileId) with
  | error error => rfl
  | ok manifest =>
    rw [Result.ok_bind, Result.ok_bind]
    cases Layout.ofManifest fileId manifest with
    | error error => rfl
    | ok layout =>
      rw [Result.ok_bind, Result.ok_bind]
      cases unwrapKey layout credentials.secret <;> rfl

/-- Secrets that unwrap the same key resolve a file to the same. -/
theorem ofAnswer_congr (h : ∀ layout, Layout.ofAnswer fileId answer = .ok layout →
    unwrapKey layout other.secret = unwrapKey layout credentials.secret) :
    ofAnswer fileId other answer = ofAnswer fileId credentials answer := by
  rw [ofAnswer_eq, ofAnswer_eq]
  cases hlayout : Layout.ofAnswer fileId answer with
  | error error => rfl
  | ok layout => rw [Result.ok_bind, Result.ok_bind, h layout hlayout]

/-- A file that is not encrypted has no key to unwrap. -/
theorem unwrapKey_of_unencrypted {layout : Layout} (h : layout.encrypted = false) (secret : String) :
    unwrapKey layout secret = .ok none := by
  rw [Layout.encrypted, Option.isSome_eq_false_iff, Option.isNone_iff_eq_none] at h
  rw [unwrapKey, h]

/-- Secrets of the same wrapping key unwrap the same. -/
theorem unwrapKey_congr {secret another : String} {decoded found : Bytes}
    (hsecret : Base64.decode (Bytes.ofText secret) = .ok decoded)
    (hother : Base64.decode (Bytes.ofText another) = .ok found)
    (hkey : ContentKey.wrappingKey found = ContentKey.wrappingKey decoded) (layout : Layout) :
    unwrapKey layout another = unwrapKey layout secret := by
  rw [unwrapKey, unwrapKey]
  cases layout.wrappedKey with
  | none => rfl
  | some wrapped => simp only [ContentKey.unwrap_congr hsecret hother hkey]

end ResolvedFile

namespace FragmentStream

variable {stream : FragmentStream}

/-- A stream with other credentials. -/
def under (credentials : Credentials) (stream : FragmentStream) : FragmentStream := { stream with credentials }

/-- Credentials have no part in a cancellation. -/
theorem cancel_under (credentials : Credentials) (stream : FragmentStream) :
    (stream.under credentials).cancel = stream.cancel.under credentials := by
  obtain ⟨fileId, kept, range, limit, state, offset, layout, holding⟩ := stream
  cases state <;> rfl

/-- Credentials have no part in what is done to a fetch. -/
theorem onFetch_under (credentials : Credentials) (stream : FragmentStream) (change : Fetch → StateM σ Fetch)
    (backend : σ) : (stream.under credentials).onFetch change backend =
      ((stream.onFetch change backend).1.under credentials, (stream.onFetch change backend).2) := by
  obtain ⟨fileId, kept, range, limit, state, offset, layout, holding⟩ := stream
  cases holding <;> rfl

/-- Credentials have no part in a poll of a stream that is fetching. -/
theorem pollFetch_under (credentials : Credentials) (stream : FragmentStream) (fetch : Fetch) :
    (stream.under credentials).pollFetch fetch =
      ((stream.pollFetch fetch).1, (stream.pollFetch fetch).2.under credentials) := by
  simp only [pollFetch, under]
  cases (takeFragment stream.range fetch.tasks).1 with
  | pending | ended => rfl
  | item result => cases result <;> rfl

/-- Credentials have a part in a poll only when it opens a stream. -/
theorem poll_under (credentials : Credentials) (stream : FragmentStream) (known : Option (Except ServiceError Manifest))
    (h : stream.holding = .unopened → ∀ answer, known = some answer →
      (stream.under credentials).opening answer = stream.opening answer) :
    (stream.under credentials).poll known = ((stream.poll known).1, (stream.poll known).2.under credentials) := by
  cases hterminal : stream.state.isTerminal with
  | true => rw [poll, poll, if_pos hterminal, if_pos (c := (stream.under credentials).state.isTerminal) hterminal]
  | false =>
    have hunder : (stream.under credentials).state.isTerminal = false := hterminal
    have hsame : (stream.under credentials).holding = stream.holding := rfl
    rw [poll_eq hterminal, poll_eq hunder, hsame]
    cases hholding : stream.holding with
    | released => rfl
    | fetching fetch => exact pollFetch_under credentials stream.polling fetch
    | unopened =>
      cases known with
      | none => rfl
      | some answer =>
        simp only [h hholding answer rfl]
        cases stream.opening answer with
        | error error => rfl
        | ok opened => exact pollFetch_under credentials { stream.polling with range := opened.1, layout := _ } opened.2

end FragmentStream

section Twins

variable {first : List Question} {plan : Except RetrievalError (List Chunk)}

namespace Course

open FragmentStream

variable {idle : FragmentStream} {undertaking : Undertaking Course (σ × List Question)}

/-- The course of a stream with other credentials. -/
def under (credentials : Credentials) (undertaking : Undertaking Course σ) : Undertaking Course σ :=
  { undertaking with stage := { undertaking.stage with stream := undertaking.stage.stream.under credentials } }

/-- A stream that has ended or not goes over to other credentials as it is. -/
theorem turn_under (credentials : Credentials) (undertaking : Undertaking Course σ) (held : Option Fetch)
    (after : Course) (ended : Bool) :
    (under credentials undertaking).turn held { after with stream := after.stream.under credentials } ended =
      under credentials (undertaking.turn held after ended) := by
  cases ended <;> rfl

/-- Credentials have no part in what happens to a fetch that was let go of. -/
theorem linger_under (service : Service σ) (credentials : Credentials) (undertaking : Undertaking Course σ)
    (event : CrewEvent) :
    (under credentials undertaking).linger service event = under credentials (undertaking.linger service event) := by
  obtain ⟨course, backend, left⟩ := undertaking
  cases left <;> rfl

/-- Credentials have no part in what a cancellation makes of the course of a stream. -/
theorem perform_cancel_under (service : Service σ) (credentials : Credentials) (undertaking : Undertaking Course σ) :
    perform service (under credentials undertaking) .cancel =
      under credentials (perform service undertaking .cancel) := by
  simp only [perform, under, cancel_under]
  rfl

/-- Credentials that open a stream alike do so wherever it stands before it is open. -/
theorem Stands.opening_under (h : Stands first plan idle answer undertaking)
    (hopening : (idle.under credentials).opening answer = idle.opening answer)
    (hunopened : undertaking.stage.stream.holding = .unopened) {known : Except ServiceError Manifest}
    (hknown : undertaking.stage.answer = some known) :
    (undertaking.stage.stream.under credentials).opening known = undertaking.stage.stream.opening known := by
  cases h with
  | asked live stream answer_eq plan_eq calm only =>
    obtain rfl : answer = known := Option.some.inj (answer_eq.symm.trans hknown)
    show (undertaking.stage.stream.polling.under credentials).opening answer =
      undertaking.stage.stream.polling.opening answer
    rw [stream]
    exact hopening
  | fetching state holding calm drawn => simp [holding] at hunopened
  | ended state holding ledger completed failed => simp [holding] at hunopened

/-- Credentials have no part in an event, unless it opens the stream. -/
theorem perform_under (hopening : (idle.under credentials).opening answer = idle.opening answer)
    (h : Stands first plan idle answer undertaking) (service : Service σ) (event : OperationEvent) :
    perform service.recorded (under credentials undertaking) event =
      under credentials (perform service.recorded undertaking event) := by
  cases event with
  | task step =>
    simp only [perform, under, onFetch_under]
    rfl
  | cancel => exact perform_cancel_under service.recorded credentials undertaking
  | linger event => exact linger_under service.recorded credentials undertaking event
  | poll answered =>
    have hpoll := poll_under credentials undertaking.stage.stream
      (undertaking.stage.known answered) fun hunopened known hknown => by
        cases answered with
        | false => cases hknown
        | true => exact h.opening_under hopening hunopened hknown
    -- Under the other credentials nothing is asked for either, and that is the same fact about the same fields.
    have hagain : (under credentials undertaking).stage.stream.isUnopened = false ∨
        (under credentials undertaking).stage.answer.isSome = true := h.asks_nothing
    rw [perform_poll_of_known service.recorded h.asks_nothing rfl,
      perform_poll_of_known service.recorded hagain hpoll]
    exact turn_under credentials undertaking _ ⟨_, _, _⟩ _

/-- Nor have they in the events that follow. -/
theorem foldl_under (hholding : idle.holding = .unopened)
    (hopening : (idle.under credentials).opening answer = idle.opening answer)
    (h : Stands first plan idle answer undertaking) (service : Service σ) (events : List OperationEvent) :
    events.foldl (perform service.recorded) (under credentials undertaking) =
      under credentials (events.foldl (perform service.recorded) undertaking) := by
  induction events generalizing undertaking with
  | nil => rfl
  | cons event rest ih =>
    rw [List.foldl_cons, perform_under hopening h, ih (h.perform hholding service event), List.foldl_cons]

/-- If two credentials open a stream alike, its course is the same under both. -/
theorem run_under (idle : FragmentStream) (hidle : idle.state = .idle) (hholding : idle.holding = .unopened)
    (service : Service σ) (events : List OperationEvent) (backend : σ)
    (hopening : (idle.under credentials).opening (service.lookup idle.fileId backend).1 =
      idle.opening (service.lookup idle.fileId backend).1) :
    run service.recorded (idle.under credentials) events (backend, []) =
      under credentials (run service.recorded idle events (backend, [])) := by
  have hlive : idle.state.isTerminal = false := by rw [hidle]; rfl
  have hunder : (idle.under credentials).holding = .unopened := hholding
  -- Up to the first poll or the cancellation nothing happens; from there on it is known where the stream stands.
  induction events with
  | nil => rfl
  | cons event rest ih =>
    cases event with
    | task step =>
      rw [run_task hholding, run_task hunder]
      exact ih
    | linger event => exact ih
    | poll answered =>
      rw [run_poll hholding hlive, run_poll hunder hlive]
      exact foldl_under hholding hopening (stands_awaiting hlive service backend) service (.poll answered :: rest)
    | cancel =>
      have hover := stands_cancelled hholding hlive service backend
      rw [run, List.foldl_cons, run, List.foldl_cons, ← foldl_under hholding hopening hover,
        ← perform_cancel_under]
      rfl

end Course

namespace Call

variable {undertaking : Undertaking Call (σ × List Question)}
  (start another : StateM (σ × List Question) (Except RetrievalError (Fetch ⊕ Nat)))

/-- How a call begins has no part in an event after it has begun. -/
theorem perform_congr (h : Stands first plan undertaking) (service : Service σ) (event : OperationEvent) :
    perform service.recorded another undertaking event = perform service.recorded start undertaking event := by
  have hbegun : undertaking.stage ≠ .unpolled := by
    cases h with
    | asked stage | joining stage | ended stage => simp [stage]
  cases event with
  | task step => rfl
  | cancel => rfl
  | linger event => rfl
  | poll answered => rw [perform_poll_of_stage _ _ hbegun, perform_poll_of_stage _ _ hbegun]

/-- Nor has it in the events that follow. -/
theorem foldl_congr (h : Stands first plan undertaking) (service : Service σ) (events : List OperationEvent) :
    events.foldl (perform service.recorded another) undertaking =
      events.foldl (perform service.recorded start) undertaking := by
  induction events generalizing undertaking with
  | nil => rfl
  | cons event rest ih =>
    rw [List.foldl_cons, perform_congr start another h, ih (h.perform service start event), List.foldl_cons]

/-- Calls that begin alike are the same. -/
theorem run_congr (service : Service σ) (events : List OperationEvent) (backend : σ)
    (h : another (backend, []) = start (backend, [])) :
    run service.recorded another events (backend, []) = run service.recorded start events (backend, []) := by
  induction events with
  | nil => rfl
  | cons event rest ih =>
    cases event with
    | task step =>
      rw [run_task, run_task]
      exact ih
    | linger event => exact ih
    | poll answered =>
      show (OperationEvent.poll answered :: rest).foldl (perform service.recorded another)
        ⟨asked (another (backend, [])).1, (another (backend, [])).2, none⟩ = _
      rw [h]
      exact foldl_congr start another (stands_asked (start (backend, []))) service (.poll answered :: rest)
    | cancel => exact foldl_congr start another (stands_cancelled service start backend) service rest

end Call

end Twins

namespace Retriever

/-- Credentials that resolve a file alike resolve it to the same. -/
theorem resolve_congr (service : Service σ) (retriever : Retriever) (backend : σ)
    (h : ResolvedFile.ofAnswer fileId other (service.lookup fileId backend).1 =
      ResolvedFile.ofAnswer fileId credentials (service.lookup fileId backend).1) :
    resolve service { retriever with credentials := other } fileId backend =
      resolve service { retriever with credentials } fileId backend := by
  rw [resolve, resolve]
  cases retriever.isShutDown with
  | true => rfl
  | false =>
    show (ResolvedFile.ofAnswer fileId other _, _) = (ResolvedFile.ofAnswer fileId credentials _, _)
    rw [h]

end Retriever

namespace Operation

/-- The chunks that an operation selects, once the metadata service has answered. No secret is needed to know them. -/
def selection (fileId : String) (answer : Except ServiceError Manifest) (operation : Operation) :
    Except RetrievalError (List Chunk) :=
  Layout.ofAnswer fileId answer >>= fun layout => operation.select layout

/-- The chunks that an operation needs are those that it selects, if the key of the file can be unwrapped. -/
theorem needs_eq_ok {operation : Operation} {selected : List Chunk}
    (h : operation.needs fileId credentials answer = .ok selected) :
    operation.selection fileId answer = .ok selected ∧ ∃ layout key, Layout.ofAnswer fileId answer = .ok layout ∧
      ResolvedFile.unwrapKey layout credentials.secret = .ok key := by
  obtain ⟨file, hfile, hselect⟩ := needs_eq_ok_iff.mp h
  rw [ResolvedFile.ofAnswer_eq] at hfile
  obtain ⟨layout, hlayout, hfile⟩ := Result.bind_eq_ok_iff.mp hfile
  obtain ⟨key, hkey, rfl⟩ := Result.map_eq_ok_iff.mp hfile
  exact ⟨by rw [selection, hlayout]; exact hselect, layout, key, hlayout, hkey⟩

/-- An operation asks for its manifest, if it begins, and then only for chunks that it selects, and only if the key of
the file can be unwrapped. -/
theorem exists_selected (service : Service σ) (retriever : Retriever) (fileId : String)
    (events : List OperationEvent) (operation : Operation) (backend : σ) :
    ∃ asked : List Chunk,
      (operation.run service.recorded retriever fileId events (backend, [])).2.2 =
        (if begins retriever events then [.manifest fileId] else []) ++ asked.map .ofChunk ∧
      (asked ≠ [] →
        (∃ layout key, Layout.ofAnswer fileId (service.lookup fileId backend).1 = .ok layout ∧
          ResolvedFile.unwrapKey layout retriever.credentials.secret = .ok key) ∧
        ∃ selected, operation.selection fileId (service.lookup fileId backend).1 = .ok selected ∧
          List.Subperm asked selected) := by
  obtain ⟨asked, hrecord, hasked⟩ :=
    Balanced.exists_asked (right_run service retriever fileId events operation backend)
  refine ⟨asked, hrecord, fun hsome => ?_⟩
  obtain ⟨selected, hplan, hsubperm, -⟩ := hasked (.inl hsome)
  cases hbegins : begins retriever events with
  | false => simp [hbegins] at hplan
  | true =>
    rw [hbegins] at hplan
    obtain ⟨hselected, hunlocks⟩ := needs_eq_ok hplan
    exact ⟨hunlocks, selected, hselected, hsubperm⟩

/-- An operation of credentials that resolve its file alike is the same. -/
theorem run_congr {service : Service σ} {retriever : Retriever} {backend : σ}
    (h : ResolvedFile.ofAnswer fileId other (service.lookup fileId backend).1 =
      ResolvedFile.ofAnswer fileId credentials (service.lookup fileId backend).1)
    (events : List OperationEvent) (operation : Operation) :
    operation.run service.recorded { retriever with credentials := other } fileId events (backend, []) =
      operation.run service.recorded { retriever with credentials } fileId events (backend, []) := by
  have hresolve := Retriever.resolve_congr service.recorded retriever (backend, []) h
  have hcourse : ∀ range limit,
      Course.run service.recorded (.ofRange fileId other range limit) events (backend, []) =
        Course.under other
          (Course.run service.recorded (.ofRange fileId credentials range limit) events (backend, [])) :=
    fun range limit => Course.run_under (.ofRange fileId credentials range limit) rfl rfl service events backend
      (congrArg (· >>= _) h)
  cases operation with
  | blocks numbers =>
    have hbegin : Retriever.beginBlocks service.recorded { retriever with credentials := other } fileId numbers
        (backend, []) = Retriever.beginBlocks service.recorded { retriever with credentials } fileId numbers
          (backend, []) := by
      show (Except.map _ (Except.bind (Retriever.resolve _ _ _ _).1 _), (Retriever.resolve _ _ _ _).2) = _
      rw [hresolve]
      rfl
    simp only [run, Call.run_congr _ _ service events backend hbegin]
  | fileSize =>
    have hbegin : Retriever.beginFileSize service.recorded { retriever with credentials := other } fileId
        (backend, []) = Retriever.beginFileSize service.recorded { retriever with credentials } fileId
          (backend, []) := by
      show (Except.map _ (Except.map _ (Retriever.resolve _ _ _ _).1), (Retriever.resolve _ _ _ _).2) = _
      rw [hresolve]
      rfl
    simp only [run, Call.run_congr _ _ service events backend hbegin]
  | stream range | readRange range =>
    have hstream : ∀ credentials, Retriever.stream { retriever with credentials } fileId range =
        if retriever.isShutDown then .error .shutDown
        else .ok (.ofRange fileId credentials range retriever.limits.streamLimit) := fun _ => rfl
    rw [run, run, hstream, hstream]
    cases retriever.isShutDown with
    | true => rfl
    | false =>
      simp only [Bool.false_eq_true, if_false, hcourse]
      rfl

end Operation

/-- The requests of credentials carry their token, and nothing else of them. -/
theorem Remote.connect_congr (h : other.token = credentials.token) (endpoint : String) (config : ClientConfig) :
    connect endpoint other config = connect endpoint credentials config := by
  have hheader : other.header = credentials.header := by rw [Credentials.header, Credentials.header, h]
  rw [connect, connect, hheader]

open Operation in
/-- What the secret of credentials decides.

Runs of an operation are compared whose services and events are the same and whose credentials have the same token. They
reach the services in the same way, and ask for the same manifest or for none. The payloads that they ask for are of
chunks of one selection, which is made without a secret, and a run asks for none unless its secret unwraps the key of
the file. The runs are the same in everything, the state of the services included, if their secrets unwrap the same: so
it is for a file that is not encrypted, for secrets of the same wrapping key, and for a bearer token and a key pair with
that token and an empty secret. -/
theorem secret_only_unwraps (service : Service σ) (retriever : Retriever) (fileId : String) (operation : Operation)
    (events : List OperationEvent) (backend : σ) (credentials other : Credentials)
    (htoken : other.token = credentials.token) :
    let answer := (service.lookup fileId backend).1
    let run := fun credentials =>
      operation.run service.recorded { retriever with credentials } fileId events (backend, [])
    (∀ endpoint config, Remote.connect endpoint other config = Remote.connect endpoint credentials config) ∧
    (∀ keeper ∈ [credentials, other], ∃ asked : List Chunk,
      (run keeper).2.2 = (if begins retriever events then [.manifest fileId] else []) ++ asked.map .ofChunk ∧
      (asked ≠ [] →
        (∃ layout key, Layout.ofAnswer fileId answer = .ok layout ∧
          ResolvedFile.unwrapKey layout keeper.secret = .ok key) ∧
        ∃ selected, operation.selection fileId answer = .ok selected ∧ List.Subperm asked selected)) ∧
    ((∀ layout, Layout.ofAnswer fileId answer = .ok layout →
      ResolvedFile.unwrapKey layout other.secret = ResolvedFile.unwrapKey layout credentials.secret) →
        run other = run credentials) ∧
    ((∀ layout, Layout.ofAnswer fileId answer = .ok layout → layout.encrypted = false) →
      run other = run credentials) ∧
    (∀ decoded found, Base64.decode (Bytes.ofText credentials.secret) = .ok decoded →
      Base64.decode (Bytes.ofText other.secret) = .ok found →
        ContentKey.wrappingKey found = ContentKey.wrappingKey decoded → run other = run credentials) ∧
    ∀ token, run (.bearer token) = run (.keyPair token "") ∧ ∀ endpoint config,
      Remote.connect endpoint (.bearer token) config = Remote.connect endpoint (.keyPair token "") config := by
  intro answer run
  have halike : ∀ one another : Credentials, (∀ layout, Layout.ofAnswer fileId answer = .ok layout →
      ResolvedFile.unwrapKey layout another.secret = ResolvedFile.unwrapKey layout one.secret) →
        run another = run one :=
    fun one another h => run_congr (ResolvedFile.ofAnswer_congr h) events operation
  refine ⟨Remote.connect_congr htoken, fun keeper _ => ?_, halike credentials other, fun hplain => ?_,
    fun decoded found hsecret hother hkey => ?_, fun token => ?_⟩
  · exact exists_selected service { retriever with credentials := keeper } fileId events operation backend
  · refine halike credentials other fun layout hlayout => ?_
    have hunencrypted := hplain layout hlayout
    rw [ResolvedFile.unwrapKey_of_unencrypted hunencrypted, ResolvedFile.unwrapKey_of_unencrypted hunencrypted]
  · exact halike credentials other fun layout _ => ResolvedFile.unwrapKey_congr hsecret hother hkey layout
  · exact ⟨halike (.keyPair token "") (.bearer token) fun _ _ => rfl, Remote.connect_congr rfl⟩

/-- Three bytes, wrapped under an empty secret. -/
def ContentKey.wrappedSample : Bytes := (wrap [1, 2, 3] []).toOption.getD []

/-- An empty secret unwraps them. -/
theorem ContentKey.unwrap_sample :
    Bytes.ofText (Bytes.asciiText wrappedSample) = wrappedSample ∧ unwrap wrappedSample [] = .ok [1, 2, 3] := by
  obtain ⟨wrapped, hwrap, hascii⟩ := exists_wrap [1, 2, 3] (show Base64.decode [] = .ok [] from rfl)
  have hsample : wrappedSample = wrapped := by
    rw [wrappedSample, hwrap]
    rfl
  rw [hsample]
  exact ⟨Bytes.ofText_asciiText hascii, unwrap_of_wrap (by decide) hwrap⟩

/-- The file of three chunks, encrypted under that key. -/
def Manifest.sealed : Manifest :=
  { Manifest.sample with encryption := ⟨true, Bytes.asciiText ContentKey.wrappedSample⟩ }

/-- A service of that file. -/
def Service.sealed : Service Unit := { Service.sample with lookup := fun _ => pure (.ok .sealed) }

/-- The layout of that file. -/
def Layout.sealed : Layout :=
  { ResolvedFile.sample.layout with wrappedKey := some (Bytes.asciiText ContentKey.wrappedSample) }

/-- The encrypted file is laid out. -/
theorem Layout.ofAnswer_sealed : ofAnswer "f" (.ok .sealed) = .ok .sealed := by
  obtain ⟨hascii, hkey⟩ := ContentKey.unwrap_sample
  have hsome : Bytes.asciiText ContentKey.wrappedSample ≠ "" := fun hempty =>
    ContentKey.wrapped_ne_nil hkey (by rw [← hascii, hempty]; rfl)
  have hkey : key Manifest.sealed.encryption = .ok (some (Bytes.asciiText ContentKey.wrappedSample)) := by
    simp only [key, Manifest.sealed, if_true]
    exact if_neg hsome
  have hplace : place 0 0 Manifest.sample.entries = .ok ResolvedFile.sample.layout.chunks := by decide
  have hlay : lay "f" .sealed = .ok .sealed :=
    lay_of_place (List.cons_ne_nil _ _) (Compression.ofName?_name .none) hkey hplace
  rw [ofAnswer, Except.mapError, Result.ok_bind, ofManifest, hlay]
  rfl

/-- A wrapped key is unwrapped by a secret that makes the key of it. -/
theorem ResolvedFile.unwrapKey_eq_ok {layout : Layout} {secret wrapped : String} {key : Bytes}
    (hwrapped : layout.wrappedKey = some wrapped)
    (hkey : ContentKey.unwrap (Bytes.ofText wrapped) (Bytes.ofText secret) = .ok key) :
    unwrapKey layout secret = .ok (some key) := by
  rw [unwrapKey, hwrapped]
  simp only [hkey]

/-- An empty secret unwraps its key. -/
theorem ResolvedFile.unwrapKey_sealed : unwrapKey .sealed "" = .ok (some [1, 2, 3]) := by
  obtain ⟨hascii, hkey⟩ := ContentKey.unwrap_sample
  have hwrapped : Layout.sealed.wrappedKey = some (Bytes.asciiText ContentKey.wrappedSample) := rfl
  refine unwrapKey_eq_ok hwrapped ?_
  rw [hascii]
  exact hkey

/-- An empty secret resolves it. -/
theorem ResolvedFile.ofAnswer_sealed :
    ofAnswer "f" (.keyPair "id" "") (.ok .sealed) = .ok ⟨.sealed, some [1, 2, 3]⟩ := by
  rw [ofAnswer_eq, Layout.ofAnswer_sealed, Result.ok_bind]
  exact congrArg (Except.map _) unwrapKey_sealed

/-- A call for the blocks of the encrypted file, which is polled, and polled again after its first task has had a chance
to ask. -/
def Operation.sealedRun (secret : String) : Outcome × Unit × List Question :=
  (blocks none).run Service.sealed.recorded { Retriever.sample with credentials := .keyPair "id" secret } "f"
    [.poll true, .task (.request 0 0), .poll true] ((), [])

/-- With an empty secret the call asks for the first block. -/
theorem Operation.record_sealedRun : (sealedRun "").2.2 = [.manifest "f", .payload "a"] := by
  have hbegin : Retriever.beginBlocks Service.sealed.recorded
      { Retriever.sample with credentials := .keyPair "id" "" } "f" none ((), []) =
        (.ok (.inl (Fetch.start ⟨.sealed, some [1, 2, 3]⟩ ResolvedFile.sample.layout.chunks 0)),
          ((), [.manifest "f"])) := by
    show (Except.map _ (Except.bind (ResolvedFile.ofAnswer "f" (.keyPair "id" "") (.ok .sealed)) _), _) = _
    rw [ResolvedFile.ofAnswer_sealed]
    rfl
  have hrun : ∀ start : StateM (Unit × List Question) (Except RetrievalError (Fetch ⊕ Nat)),
      Call.run Service.sealed.recorded start [.poll true, .task (.request 0 0), .poll true] ((), []) =
        [.poll true, .task (.request 0 0), .poll true].foldl (Call.perform Service.sealed.recorded start)
          ⟨.asked (start ((), [])).1, (start ((), [])).2, none⟩ := fun _ => rfl
  simp only [sealedRun, run, hrun, hbegin]
  rfl

/-- An empty secret and one of three zeros call for the blocks alike, and the first of them is asked for. A secret that
is no Base64 has the file looked up, and no chunk is asked for. -/
theorem secret_only_unwraps_sample :
    (Credentials.keyPair "id" "AAAA").token = (Credentials.keyPair "id" "").token ∧
      (Credentials.keyPair "id" "?").token = (Credentials.keyPair "id" "").token ∧
      Operation.sealedRun "AAAA" = Operation.sealedRun "" ∧
      (Operation.sealedRun "AAAA").2.2 = [.manifest "f", .payload "a"] ∧
      (Operation.sealedRun "?").2.2 = [.manifest "f"] := by
  obtain ⟨-, -, -, -, hwrapping, -⟩ := secret_only_unwraps Service.sealed Retriever.sample "f" (.blocks none)
    [.poll true, .task (.request 0 0), .poll true] () (.keyPair "id" "") (.keyPair "id" "AAAA") rfl
  obtain ⟨-, hasks, -⟩ := secret_only_unwraps Service.sealed Retriever.sample "f" (.blocks none)
    [.poll true, .task (.request 0 0), .poll true] () (.keyPair "id" "") (.keyPair "id" "?") rfl
  have halike : Operation.sealedRun "AAAA" = Operation.sealedRun "" :=
    hwrapping [] [0, 0, 0] rfl (by decide +kernel) (by decide)
  refine ⟨rfl, rfl, halike, halike ▸ Operation.record_sealedRun, ?_⟩
  obtain ⟨asked, hrecord, hasked⟩ := hasks (.keyPair "id" "?") (by simp)
  have hnone : asked = [] := by
    by_contra hsome
    obtain ⟨⟨layout, key, hlayout, hkey⟩, -⟩ := hasked hsome
    obtain rfl := Except.ok.inj (Layout.ofAnswer_sealed.symm.trans hlayout)
    have hsecret : Base64.decode (Bytes.ofText "?") = .error (.invalidSymbol 63 0) := by decide +kernel
    simp [Layout.sealed, ResolvedFile.unwrapKey, ContentKey.unwrap, Credentials.secret, Credentials.secret?,
      hsecret] at hkey
  rw [hnone] at hrecord
  exact hrecord

end Reassembly
