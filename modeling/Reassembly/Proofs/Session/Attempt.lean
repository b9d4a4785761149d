import Reassembly.Proofs.Retrieval.StreamProgress
import Reassembly.Proofs.Session.Settle
import Reassembly.Session.Run

/-!
# Polling a retrieval in a session

A session that waits for a retrieval polls it. It takes the next item that is owed, or finds that nothing is
owed any more, or goes on waiting for a task that is not done: with a fetch that is as settled as before, and
with no more left to wait for. What an instant makes of the retrieval does not change what is owed either.
-/

namespace Reassembly

/-- The items that are owed to whoever waits for a retrieval. -/
def Errand.owed (supply : Supply) : Errand → List (Except RetrievalError Block)
  | .fetch found => found.fates supply.replies
  | .stream found => found.owed supply
  | _ => []

/-- The caller waits for an item of a stream, or for a result of a fetch. -/
def Errand.Awaits : (streaming : Bool) → Errand → Prop
  | true, .stream _ => True
  | false, .fetch _ => True
  | _, _ => False

/-- What is awaited is a retrieval. -/
theorem Errand.Awaits.isRetrieval {streaming : Bool} {errand : Errand} (h : errand.Awaits streaming) :
    errand.IsRetrieval := by
  cases streaming <;> cases errand <;> simp_all [Awaits, IsRetrieval]

/-- What is awaited stays awaited when its fetch changes. -/
theorem Errand.Changed.awaits {related : Fetch → Fetch → Prop} {before after : Errand} {streaming : Bool}
    (h : before.Changed related after) (hbefore : before.Awaits streaming) : after.Awaits streaming := by
  cases h with
  | fetch | stream => cases streaming <;> simp_all [Awaits]
  | other => exact hbefore

/-- A fetch with a permit, or no need of one, that is not in the middle of decoding. -/
structure Fetch.Calm (fetch : Fetch) : Prop where
  capacity : fetch.capacity? ≠ some 0
  decoding : ∀ task ∈ fetch.tasks, task.isDecoding = false

/-- A fetch that an instant has passed for is calm when it was before. -/
theorem Fetch.Passed.calm {replies : Replies} {now : Nat} {before after : Fetch}
    (h : Fetch.Passed replies now before after) (hbefore : before.Calm) : after.Calm where
  capacity := by
    rw [h.reached.keeps.2.2.2.1]
    exact hbefore.capacity
  decoding task htask := ((h.settled hbefore.decoding).rests task htask).1

/-- Dropping tasks that are done leaves a fetch calm, and settled. -/
theorem Fetch.calm_of_dropped {fetch : Fetch} {dropped rest : List FetchTask}
    (hsplit : fetch.tasks = dropped ++ rest) (hdone : ∀ task ∈ dropped, task.isDone = true) :
    (fetch.Calm → ({ fetch with tasks := rest } : Fetch).Calm) ∧
      (∀ now, fetch.Settled now → ({ fetch with tasks := rest } : Fetch).Settled now) ∧
        ({ fetch with tasks := rest } : Fetch).unfinished ≤ fetch.unfinished := by
  have hmem : ∀ task ∈ rest, task ∈ fetch.tasks := fun task htask => by
    rw [hsplit]
    exact List.mem_append_right _ htask
  refine ⟨fun hcalm => ⟨?_, fun task htask => hcalm.decoding task (hmem task htask)⟩,
    fun now hsettled => ⟨fun task htask => hsettled.rests task (hmem task htask),
      fun task htask => hsettled.exhausted task (hmem task htask)⟩, ?_⟩
  · rw [(FragmentStream.dropped_done fetch hsplit hdone).2]
    exact hcalm.capacity
  · rw [unfinished, unfinished, hsplit, List.filter_append, List.length_append]
    exact Nat.le_add_left _ _

/-- A fetch that has just begun is calm. -/
theorem Fetch.calm_start (file : ResolvedFile) (chunks : List Chunk) (limit : Nat) :
    (start file chunks limit).Calm := by
  refine ⟨capacity?_start_ne_zero file chunks limit, fun task htask => ?_⟩
  obtain ⟨chunk, -, rfl⟩ := List.mem_map.mp htask
  rfl

namespace FragmentStream

variable {stream : FragmentStream}

/-- The fetch that opening a stream begins is calm. -/
theorem calm_opening {answer : Except ServiceError Manifest} {range : ByteRange} {fetch : Fetch}
    (h : stream.opening answer = .ok (range, fetch)) : fetch.Calm := by
  obtain ⟨file, -, h⟩ := Result.bind_eq_ok_iff.mp h
  obtain ⟨⟨normalized, chunks⟩, -, h⟩ := Result.bind_eq_ok_iff.mp h
  obtain ⟨-, rfl⟩ : normalized = range ∧ Fetch.start file chunks stream.limit = fetch := by simpa using h
  exact Fetch.calm_start file chunks stream.limit

/-- A stream that is polled in a session is over then, or it continues: with the fetch that it has, or
with one that has just begun. -/
theorem continued_poll (supply : Supply) (hstate : stream.state.isTerminal = false) :
    (stream.poll (found supply stream.isUnopened)).2.Over ∨ ∃ before fetch,
      Continued before fetch (stream.poll (found supply stream.isUnopened)) ∧
        (stream.fetch? = some fetch ∨ stream.fetch? = none ∧ fetch.Calm) := by
  have hturn := turn_poll supply stream.isUnopened hstate
  generalize stream.poll (found supply stream.isUnopened) = found at hturn ⊢
  cases hturn with
  | finished ended => exact .inl ended
  | unanswered unopened silent =>
    rw [isUnopened, unopened, hstate] at silent
    simp at silent
  | fetching holding continued => exact .inr ⟨_, _, continued, .inl (by rw [fetch?, holding])⟩
  | opened unopened opening continued =>
    exact .inr ⟨_, _, continued, .inr ⟨by rw [fetch?, unopened], calm_opening opening⟩⟩

/-- The fetch of a stream that was polled is calm when the one before was. -/
theorem calm_poll (supply : Supply) (hstate : stream.state.isTerminal = false)
    (hcalm : ∀ fetch, stream.fetch? = some fetch → fetch.Calm) {fetch : Fetch}
    (h : (stream.poll (found supply stream.isUnopened)).2.fetch? = some fetch) : fetch.Calm := by
  rcases continued_poll supply hstate with hover | ⟨before, earlier, hcontinued, hearlier⟩
  · rw [fetch?, hover.2] at h
    simp at h
  · obtain ⟨-, dropped, rest, hholding, hsplit, hdone, -⟩ := hcontinued
    obtain rfl : { earlier with tasks := rest } = fetch := by simpa [fetch?, hholding] using h
    apply (Fetch.calm_of_dropped hsplit hdone).1
    rcases hearlier with hsame | ⟨-, hfresh⟩
    · exact hcalm earlier hsame
    · exact hfresh

/-- A stream that was polled has been opened. -/
theorem isUnopened_poll (supply : Supply) (hstate : stream.state.isTerminal = false) :
    (stream.poll (found supply stream.isUnopened)).2.isUnopened = false := by
  rcases continued_poll supply hstate with hover | ⟨before, fetch, ⟨-, dropped, rest, hholding, -⟩, -⟩
  · rw [isUnopened, hover.2]
  · rw [isUnopened, hholding]

/-- A stream whose poll finds nothing yet waits for a task that is not done. Its fetch is settled when the one
before was, and has no more left to wait for. -/
theorem waits_poll (supply : Supply) (hstate : stream.state.isTerminal = false)
    (hstreaming : (stream.poll (found supply stream.isUnopened)).2.state = .streaming)
    (hpending : (stream.poll (found supply stream.isUnopened)).1 = .pending) :
    ∃ fetch, (stream.poll (found supply stream.isUnopened)).2.fetch? = some fetch ∧
      (∃ task ∈ fetch.tasks, task.isDone = false) ∧
        ∀ before, stream.fetch? = some before →
          (∀ now, before.Settled now → fetch.Settled now) ∧ fetch.unfinished ≤ before.unfinished := by
  rcases continued_poll supply hstate with hover | ⟨_, earlier, hcontinued, hearlier⟩
  · exact absurd hover.1 (by rw [hstreaming]; simp [StreamState.isTerminal])
  · obtain ⟨-, dropped, rest, hholding, hsplit, hdone, hwaits, -⟩ := hcontinued
    refine ⟨{ earlier with tasks := rest }, by rw [fetch?, hholding], hwaits hpending, ?_⟩
    intro before hbefore
    rcases hearlier with hsame | ⟨hnone, -⟩
    · obtain rfl : earlier = before := Option.some.inj (hsame.symm.trans hbefore)
      exact (Fetch.calm_of_dropped hsplit hdone).2
    · simp [hnone] at hbefore

/-- A poll that ends a stream or takes from its fetch leaves the file that is read. -/
theorem fileId_pollFetch (stream : FragmentStream) (fetch : Fetch) :
    (stream.pollFetch fetch).2.fileId = stream.fileId := by
  rw [pollFetch]
  rcases takeFragment stream.range fetch.tasks with ⟨poll, tasks⟩
  cases poll with
  | pending | ended => rfl
  | item result => cases result <;> rfl

/-- A poll leaves the file that is read. -/
theorem fileId_poll (stream : FragmentStream) (answer : Option (Except ServiceError Manifest)) :
    (stream.poll answer).2.fileId = stream.fileId := by
  by_cases hterminal : stream.state.isTerminal = true
  · rw [poll, if_pos hterminal]
  · rw [poll_eq (by simpa using hterminal)]
    cases stream.holding with
    | released => rfl
    | fetching fetch => exact fileId_pollFetch _ fetch
    | unopened =>
      cases answer with
      | none => rfl
      | some answer =>
        cases hopen : stream.opening answer with
        | error error => simp only [hopen]; rfl
        | ok opened =>
          simp only [hopen]
          exact fileId_pollFetch _ opened.2

/-- A stream of a service is polled with the answer to its look-up, if it has to be opened; when it ends,
the service is told of its downloads. -/
theorem pollWith_eq {σ : Type} (service : Service σ) (stream : FragmentStream) :
    stream.pollWith service =
      (if stream.isUnopened then some <$> service.lookup stream.fileId else pure none) >>= fun answered =>
        if (stream.poll answered).2.state.isTerminal then
          stream.downloads.forM service.abandoned >>= fun _ => pure (stream.poll answered)
        else pure (stream.poll answered) := by
  rw [pollWith]
  cases stream.isUnopened <;> rfl

/-- Over a steady service, a stream is polled with the answer for its file, if it has to be opened. -/
theorem pollWith_leads {σ : Type} {service : Service σ} {holds : σ → Prop}
    {answer : String → Except ServiceError Manifest} {reply : String → Reply}
    (hsteady : service.Steady holds answer reply) (replies : Replies) (stream : FragmentStream) :
    Action.Leads (stream.pollWith service) holds fun found state =>
      found = stream.poll (FragmentStream.found ⟨answer stream.fileId, replies⟩ stream.isUnopened) ∧
        holds state := by
  have hanswer : Action.Leads
      (if stream.isUnopened then some <$> service.lookup stream.fileId else pure none) holds
      fun answered state =>
        answered = FragmentStream.found ⟨answer stream.fileId, replies⟩ stream.isUnopened ∧ holds state := by
    intro state hstate
    cases stream.isUnopened with
    | false => exact ⟨rfl, hstate⟩
    | true =>
      obtain ⟨hfound, hafter⟩ := hsteady.lookup stream.fileId state hstate
      exact ⟨congrArg some hfound, hafter⟩
  rw [pollWith_eq]
  refine hanswer.bind fun answered state hanswered => ?_
  obtain ⟨rfl, hstate⟩ := hanswered
  split
  · exact ⟨rfl, Action.forM_keeps hsteady.abandoned stream.downloads state hstate⟩
  · exact ⟨rfl, hstate⟩

end FragmentStream

namespace Session

/-- A session that waits for a retrieval over a steady service, with the items that are owed to it. -/
structure Retrieving (streaming : Bool) (holds : Backend → Prop)
    (answer : String → Except ServiceError Manifest) (reply : String → Reply) (fileId : String)
    (items : List (Except RetrievalError Block)) (session : Session) : Prop where
  steady : session.service.Steady holds answer reply
  holds : holds session.backend
  awaits : session.errand.Awaits streaming
  calm : ∀ fetch, session.errand.fetch? = some fetch → fetch.Calm
  live : ∀ stream, session.errand = .stream stream → stream.Live ∧ stream.fileId = fileId
  owed : session.errand.owed ⟨answer fileId, Fetch.byLocation reply⟩ = items

variable {streaming : Bool} {holds : Backend → Prop} {answer : String → Except ServiceError Manifest}
  {reply : String → Reply} {fileId : String} {items : List (Except RetrievalError Block)}
  {session after : Session}

/-- What an instant makes of a retrieval does not change what is owed. -/
theorem owed_changed {supply : Supply} {now : Nat} {before later : Errand}
    (h : before.Changed (Fetch.Passed supply.replies now) later)
    (hlive : ∀ stream, before = .stream stream → stream.Live) :
    later.owed supply = before.owed supply := by
  cases h with
  | fetch change => exact change.reached.keeps.2.2.1
  | other => rfl
  | @stream stream _ change =>
    cases change with
    | none => rfl
    | fetching holding change =>
      have hstate := (hlive stream rfl _ holding).1
      have hfates := change.reached.keeps.2.2.1
      rw [Errand.owed, Errand.owed, FragmentStream.owed_of_fetching hstate holding, ← hfates]
      exact FragmentStream.owed_fetching stream.offset _ hstate

/-- After an instant has passed, the retrieval goes on, and its fetch is settled. -/
theorem Retrieving.passed (h : Retrieving streaming holds answer reply fileId items session) {now : Nat}
    (hchange : ChangedBy (Fetch.Passed (Fetch.byLocation reply) now) holds session after) :
    Retrieving streaming holds answer reply fileId items after ∧
      ∀ fetch, after.errand.fetch? = some fetch → fetch.Settled now := by
  have hboth : ∀ fetch, after.errand.fetch? = some fetch → fetch.Calm ∧ fetch.Settled now := by
    intro fetch hfetch
    have hforall := hchange.errand.fetch?
    rw [hfetch, Option.toList_some] at hforall
    cases hbefore : session.errand.fetch? with
    | none => simp [hbefore] at hforall
    | some before =>
      have hpassed : Fetch.Passed (Fetch.byLocation reply) now before fetch := by
        simpa [hbefore] using hforall
      exact ⟨hpassed.calm (h.calm before hbefore), hpassed.settled (h.calm before hbefore).decoding⟩
  refine ⟨⟨?_, hchange.holds, hchange.errand.awaits h.awaits, fun fetch hfetch => (hboth fetch hfetch).1,
    ?_, ?_⟩, fun fetch hfetch => (hboth fetch hfetch).2⟩
  · rw [service, hchange.transport]
    exact h.steady
  · intro stream hstream
    have herrand := hchange.errand
    rw [hstream] at herrand
    generalize hbefore : session.errand = before at herrand
    cases herrand with
    | other nothing => exact absurd trivial nothing
    | @stream stream' _ change =>
      obtain ⟨hlive, hfile⟩ := h.live stream' hbefore
      cases change with
      | none => exact ⟨hlive, hfile⟩
      | @fetching fetch later holding change =>
        refine ⟨fun other hother => ⟨(hlive fetch holding).1, ?_⟩, hfile⟩
        obtain rfl : later = other := by simpa using hother
        rw [change.reached.keeps.2.2.2.1]
        exact (hlive fetch holding).2
  · exact (owed_changed hchange.errand fun stream hstream => (h.live stream hstream).1).trans h.owed

/-- What an attempt to take the next owed item finds. While the item is not there, the fetch has a task
that is not done; it is settled when it was before, and no more is left to wait for than before. -/
inductive Attempted (streaming : Bool) (holds : Backend → Prop)
    (answer : String → Except ServiceError Manifest) (reply : String → Reply) (fileId : String)
    (items : List (Except RetrievalError Block)) (session : Session) : Poll Block × Session → Prop
  | pending {after : Session} {fetch : Fetch}
      (retrieving : Retrieving streaming holds answer reply fileId items after)
      (fetching : after.errand.fetch? = some fetch) (waits : ∃ task ∈ fetch.tasks, task.isDone = false)
      (now : after.now = session.now)
      (settled : ∀ before, session.errand.fetch? = some before →
        (before.Settled session.now → fetch.Settled session.now) ∧ after.unfinished ≤ session.unfinished) :
      Attempted streaming holds answer reply fileId items session (.pending, after)
  | ended {after : Session} (nothing : items = []) :
      Attempted streaming holds answer reply fileId items session (.ended, after)
  | item {after : Session} {result : Except RetrievalError Block}
      {rest : List (Except RetrievalError Block)} (first : items = result :: rest)
      (retrieving : Retrieving streaming holds answer reply fileId rest after)
      (opened : ∀ stream, after.errand = .stream stream → stream.isUnopened = false) :
      Attempted streaming holds answer reply fileId items session (.item result, after)

/-- What is left to wait for is added up over the fetches under way. -/
theorem unfinished_eq_sum (session : Session) :
    session.unfinished = (session.fetchesUnderWay.map Fetch.unfinished).sum + 1 := by
  rw [unfinished, List.sum_eq_foldl, List.foldl_map]

/-- What is left to wait for, when only the errand of a session has changed. -/
theorem unfinished_le_of_errand (session : Session) (backend : Backend) {errand : Errand}
    (h : ∀ other, errand.fetch? = some other →
      ∃ fetch, session.errand.fetch? = some fetch ∧ other.unfinished ≤ fetch.unfinished) :
    ({ session with backend, errand } : Session).unfinished ≤ session.unfinished := by
  have htotal : ∀ fetches : List Fetch,
      ((fetches ++ errand.fetch?.toList).map Fetch.unfinished).sum ≤
        ((fetches ++ session.errand.fetch?.toList).map Fetch.unfinished).sum := by
    intro fetches
    induction fetches with
    | nil =>
      cases herrand : errand.fetch? with
      | none => simp
      | some other =>
        obtain ⟨fetch, hfetch, hle⟩ := h other herrand
        simpa [hfetch] using hle
    | cons first rest ih =>
      simp only [List.cons_append, List.map_cons, List.sum_cons]
      omega
  rw [unfinished_eq_sum, unfinished_eq_sum, fetchesUnderWay_eq, fetchesUnderWay_eq]
  exact Nat.add_le_add_right (htotal _) 1

/-- An attempt to take the next result of the fetch that the caller waits for. -/
theorem attempted_pollErrandFetch (h : Retrieving false holds answer reply fileId items session) :
    Attempted false holds answer reply fileId items session (pollErrandFetch session) := by
  obtain ⟨hsteady, hholds, hawaits, hcalm, hlive, howed⟩ := h
  cases herrand : session.errand with
  | stream | none | download | arrived => simp [herrand, Errand.Awaits] at hawaits
  | fetch fetch =>
    have hattempt : pollErrandFetch session =
        (fetch.next.1, { session with errand := .fetch fetch.next.2 }) := by
      simp only [pollErrandFetch, pollFetch, Action.bind_run, Action.get_run, herrand]
      rfl
    have hfetch : fetch.Calm := hcalm fetch (by rw [herrand]; rfl)
    rw [herrand, Errand.owed] at howed
    rw [hattempt]
    rcases fetch.next_cases (Fetch.byLocation reply) with
      ⟨hnil, hnext⟩ | ⟨hwork, hnext⟩ | ⟨result, task, rest, hnext, htasks, hfates, hcapacity, -⟩
    · rw [hnext]
      exact .ended (by rw [← howed, Fetch.fates, hnil, List.map_nil])
    · rw [hnext]
      refine .pending ⟨hsteady, hholds, trivial, ?_, by simp, howed⟩ rfl hwork rfl ?_
      · intro other hother
        obtain rfl := Option.some.inj hother
        exact hfetch
      · intro before hbefore
        rw [herrand] at hbefore
        obtain rfl := Option.some.inj hbefore
        refine ⟨id, unfinished_le_of_errand session session.backend fun other hother => ?_⟩
        exact ⟨other, by rw [herrand]; exact hother, Nat.le_refl _⟩
    · rw [hnext]
      refine .item (howed.symm.trans hfates) ⟨hsteady, hholds, trivial, ?_, by simp, rfl⟩ (by simp)
      intro other hother
      obtain rfl : { fetch with tasks := rest } = other := Option.some.inj hother
      refine ⟨by rw [hcapacity]; exact hfetch.capacity, fun task htask => hfetch.decoding task ?_⟩
      rw [htasks]
      exact List.mem_cons_of_mem _ htask

/-- What polling the stream that the caller waits for does. -/
theorem pollErrandStream_run {stream : FragmentStream} (herrand : session.errand = .stream stream) :
    pollErrandStream session =
      ((stream.pollWith session.service session.backend).1.1,
        { session with
          backend := (stream.pollWith session.service session.backend).2
          errand := .stream (stream.pollWith session.service session.backend).1.2 }) := by
  simp only [pollErrandStream, pollStream, Action.bind_run, Action.get_run, herrand]
  rfl

/-- An attempt to take the next item of the stream that the caller waits for. -/
theorem attempted_pollErrandStream (h : Retrieving true holds answer reply fileId items session) :
    Attempted true holds answer reply fileId items session (pollErrandStream session) := by
  obtain ⟨hsteady, hholds, hawaits, hcalm, hlive, howed⟩ := h
  cases herrand : session.errand with
  | fetch | none | download | arrived => simp [herrand, Errand.Awaits] at hawaits
  | stream stream =>
    obtain ⟨hstream, rfl⟩ := hlive stream herrand
    obtain ⟨hpolled, hafter⟩ :=
      FragmentStream.pollWith_leads hsteady (Fetch.byLocation reply) stream session.backend hholds
    rw [pollErrandStream_run herrand, hpolled]
    generalize (stream.pollWith session.service session.backend).2 = backend at hafter
    rw [herrand, Errand.owed] at howed
    by_cases hterminal : stream.state.isTerminal = true
    · rw [FragmentStream.poll, if_pos hterminal]
      exact .ended (by rw [← howed, FragmentStream.owed_of_terminal hterminal])
    · have hstate : stream.state.isTerminal = false := by simpa using hterminal
      have hbefore : ∀ fetch, stream.fetch? = some fetch → fetch.Calm := fun fetch hfetch =>
        hcalm fetch (by rw [herrand]; exact hfetch)
      generalize hsupply : (⟨answer stream.fileId, Fetch.byLocation reply⟩ : Supply) = supply at *
      have hfile := stream.fileId_poll (FragmentStream.found supply stream.isUnopened)
      have hlater := FragmentStream.live_step supply stream (.poll stream.isUnopened) hstream
      have hfound := FragmentStream.polled_poll supply stream stream.isUnopened
      have hopened := FragmentStream.isUnopened_poll supply hstate
      have hwaits := FragmentStream.waits_poll supply hstate
      have hcalmer := fun fetch => @FragmentStream.calm_poll stream supply hstate hbefore fetch
      rw [FragmentStream.step] at hlater
      generalize stream.poll (FragmentStream.found supply stream.isUnopened) = found at *
      -- Whatever the poll found, the retrieval goes on with what the stream still owes.
      have hgoes : Retrieving true holds answer reply stream.fileId (found.2.owed supply)
          { session with backend, errand := .stream found.2 } := by
        refine ⟨hsteady, hafter, trivial, hcalmer, ?_, by rw [hsupply]; rfl⟩
        intro other hother
        obtain rfl : found.2 = other := by simpa using hother
        exact ⟨hlater, hfile⟩
      have hstays : ∀ other, Errand.stream found.2 = .stream other → other.isUnopened = false := by
        intro other hother
        obtain rfl : found.2 = other := by simpa using hother
        exact hopened
      cases hfound with
      | past terminal _ => exact absurd terminal hterminal
      | ended _ nothing _ _ => exact .ended (howed.symm.trans nothing)
      | fragment _ first _ => exact .item (howed.symm.trans first) hgoes hstays
      | @error after error failed only _ =>
        have hnone : after.owed supply = [] := FragmentStream.owed_of_terminal (by rw [failed]; rfl)
        rw [hnone] at hgoes
        exact .item (howed.symm.trans only) hgoes hstays
      | @pending after streaming same _ =>
        rw [same, howed] at hgoes
        obtain ⟨fetch, hfetch, hwork, hless⟩ := hwaits streaming rfl
        refine .pending hgoes hfetch hwork rfl fun before hbegun => ?_
        rw [herrand] at hbegun
        refine ⟨(hless before hbegun).1 session.now, unfinished_le_of_errand session backend fun later hlater => ?_⟩
        obtain rfl : fetch = later := Option.some.inj (hfetch.symm.trans hlater)
        exact ⟨before, by rw [herrand]; exact hbegun, (hless before hbegun).2⟩

end Session

end Reassembly
