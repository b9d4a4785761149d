import Reassembly.Proofs.Session.Fetching
import Reassembly.Session.Clock

/-!
# What happens at an instant of a session

Whatever a session has under way, settling an instant moves the tasks of its fetches and nothing else. No
fetch gets more tasks that are not done, and one with a download that is due gets fewer; so every move of
the clock brings a session nearer to where it has nothing left to wait for.
-/

namespace Reassembly

/-- The fetch of what the caller waits for. -/
def Errand.fetch? : Errand → Option Fetch
  | .fetch found => some found
  | .stream found => found.fetch?
  | _ => .none

/-- The caller waits for a result of a fetch or an item of a stream. -/
def Errand.IsRetrieval : Errand → Prop
  | .fetch _ => True
  | .stream _ => True
  | _ => False

variable {related first second : Fetch → Fetch → Prop}

/-- A stream whose fetch, if it has one, has been changed as given. -/
inductive FragmentStream.Changed (related : Fetch → Fetch → Prop) (stream : FragmentStream) :
    FragmentStream → Prop
  | fetching {before after : Fetch} (holding : stream.holding = .fetching before)
      (change : related before after) : Changed related stream { stream with holding := .fetching after }
  | none (nothing : stream.fetch? = none) : Changed related stream stream

/-- What the caller waits for, after its fetch has been changed as given. -/
inductive Errand.Changed (related : Fetch → Fetch → Prop) : Errand → Errand → Prop
  | fetch {before after : Fetch} (change : related before after) : Changed related (.fetch before) (.fetch after)
  | stream {before after : FragmentStream} (change : before.Changed related after) :
      Changed related (.stream before) (.stream after)
  | other {errand : Errand} (nothing : ¬ errand.IsRetrieval) : Changed related errand errand

/-- The fetch of a changed stream is changed as given. -/
theorem FragmentStream.Changed.fetch? {stream after : FragmentStream} (h : stream.Changed related after) :
    List.Forall₂ related stream.fetch?.toList after.fetch?.toList := by
  cases h with
  | fetching holding change =>
    simp only [FragmentStream.fetch?, holding, Option.toList_some]
    exact .cons change .nil
  | none nothing => simp [nothing]

/-- The fetch of a changed errand is changed as given. -/
theorem Errand.Changed.fetch? {before after : Errand} (h : before.Changed related after) :
    List.Forall₂ related before.fetch?.toList after.fetch?.toList := by
  cases h with
  | fetch change => exact .cons change .nil
  | stream change => exact change.fetch?
  | other nothing =>
    cases before with
    | fetch | stream => exact absurd trivial nothing
    | none | download | arrived => exact .nil

/-- Two changes one after the other. -/
theorem FragmentStream.Changed.trans {stream middle after : FragmentStream}
    (hfirst : stream.Changed first middle) (hsecond : middle.Changed second after) :
    stream.Changed (fun a c => ∃ b, first a b ∧ second b c) after := by
  cases hfirst with
  | fetching holding change =>
    cases hsecond with
    | @fetching before' after' holding' change' =>
      obtain rfl := Holding.fetching.inj holding'
      exact .fetching holding ⟨_, change, change'⟩
    | none nothing => simp [FragmentStream.fetch?] at nothing
  | none nothing =>
    cases hsecond with
    | fetching holding' change' => simp [FragmentStream.fetch?, holding'] at nothing
    | none _ => exact .none nothing

/-- A changed retrieval is one. -/
theorem Errand.Changed.isRetrieval {before after : Errand} (h : before.Changed related after) :
    after.IsRetrieval ↔ before.IsRetrieval := by
  cases h <;> simp_all [Errand.IsRetrieval]

/-- Two changes of what the caller waits for, one after the other. -/
theorem Errand.Changed.trans {before middle after : Errand} (hfirst : before.Changed first middle)
    (hsecond : middle.Changed second after) :
    before.Changed (fun a c => ∃ b, first a b ∧ second b c) after := by
  cases hfirst with
  | fetch change =>
    cases hsecond with
    | fetch change' => exact .fetch ⟨_, change, change'⟩
    | other nothing => exact absurd trivial nothing
  | stream change =>
    cases hsecond with
    | stream change' => exact .stream (change.trans change')
    | other nothing => exact absurd trivial nothing
  | other nothing =>
    cases hsecond with
    | fetch | stream => exact absurd trivial nothing
    | other _ => exact .other nothing

namespace Session

variable {σ α : Type} {holds : σ → Prop}

/-- Changing the fetch of a stream. -/
theorem onFetch_leads {change : Fetch → StateM σ Fetch}
    (h : ∀ fetch, Action.Leads (change fetch) holds fun after state => related fetch after ∧ holds state)
    (stream : FragmentStream) :
    Action.Leads (stream.onFetch change) holds fun after state =>
      stream.Changed related after ∧ holds state := by
  rw [FragmentStream.onFetch]
  cases hholding : stream.holding with
  | fetching fetch =>
    intro state hstate
    obtain ⟨hrelated, hafter⟩ := h fetch state hstate
    exact ⟨.fetching hholding hrelated, hafter⟩
  | released | unopened =>
    intro state hstate
    exact ⟨.none (by rw [FragmentStream.fetch?, hholding]), hstate⟩

/-- Changing the values under all names. -/
theorem mapNamed_leads {change : α → StateM σ α} {related : α → α → Prop}
    (h : ∀ value, Action.Leads (change value) holds fun after state => related value after ∧ holds state)
    (values : Named α) :
    Action.Leads (mapNamed change values) holds fun after state =>
      List.Forall₂ (fun a b => related a.2 b.2) values.entries after.entries ∧ holds state := by
  intro state hstate
  refine Action.mapM_forall₂ (fun entry found hfound => ?_) values.entries state hstate
  exact h entry.2 found hfound

/-- The fetches under way are those of the streams, those with names, and that of the errand. -/
theorem fetchesUnderWay_eq (session : Session) :
    session.fetchesUnderWay =
      (session.streams.entries.filterMap (·.2.fetch?) ++ session.fetches.entries.map (·.2)) ++
        session.errand.fetch?.toList := by
  rw [fetchesUnderWay]
  cases session.errand <;> rfl

/-- The fetches of changed streams are changed as given. -/
theorem forall₂_filterMap_fetch? {before after : List (String × FragmentStream)}
    (h : List.Forall₂ (fun a b => a.2.Changed related b.2) before after) :
    List.Forall₂ related (before.filterMap (·.2.fetch?)) (after.filterMap (·.2.fetch?)) := by
  induction h with
  | nil => exact .nil
  | @cons a b before after hfirst _ ih =>
    have hfetch := hfirst.fetch?
    rw [List.filterMap_cons, List.filterMap_cons]
    cases ha : a.2.fetch? with
    | none =>
      cases hb : b.2.fetch? with
      | none => exact ih
      | some fetch => simp [ha, hb] at hfetch
    | some fetch =>
      cases hb : b.2.fetch? with
      | none => simp [ha, hb] at hfetch
      | some other =>
        have hrelated : related fetch other := by simpa [ha, hb] using hfetch
        exact .cons hrelated ih

/-- Change the fetch of what the caller waits for. -/
def changeErrand (change : Fetch → StateM σ Fetch) : Errand → StateM σ Errand
  | .fetch fetch => do return .fetch (← change fetch)
  | .stream stream => do return .stream (← stream.onFetch change)
  | errand => return errand

/-- Changing the fetch of what the caller waits for. -/
theorem changeErrand_leads {change : Fetch → StateM σ Fetch}
    (h : ∀ fetch, Action.Leads (change fetch) holds fun after state => related fetch after ∧ holds state)
    (errand : Errand) :
    Action.Leads (changeErrand change errand) holds fun after state =>
      errand.Changed related after ∧ holds state := by
  intro state hstate
  cases errand with
  | fetch fetch =>
    obtain ⟨hrelated, hafter⟩ := h fetch state hstate
    exact ⟨.fetch hrelated, hafter⟩
  | stream stream =>
    obtain ⟨hchanged, hafter⟩ := onFetch_leads h stream state hstate
    exact ⟨.stream hchanged, hafter⟩
  | none | download | arrived => exact ⟨.other (by simp [Errand.IsRetrieval]), hstate⟩

/-- Changing every fetch under way changes those of the streams, those with names, and that of the
errand, in this order. -/
theorem changeFetches_eq (change : Service Backend → Fetch → StateM Backend Fetch) (session : Session) :
    let streams := mapNamed (FragmentStream.onFetch (change session.service)) session.streams session.backend
    let fetches := mapNamed (change session.service) session.fetches streams.2
    let errand := changeErrand (change session.service) session.errand fetches.2
    (changeFetches change session).2 =
      { session with
        backend := errand.2, streams := streams.1, fetches := fetches.1, errand := errand.1 } := by
  obtain ⟨transport, credentials, requiredToken, backend, now, retrievers, streams, files, fetches, errand⟩ :=
    session
  cases errand <;> rfl

/-- What a change of all fetches leaves of a session: everything but the services and the fetches, and
these are changed as given. -/
structure ChangedBy (related : Fetch → Fetch → Prop) (holds : Backend → Prop) (session after : Session) :
    Prop where
  transport : after.transport = session.transport
  now : after.now = session.now
  holds : holds after.backend
  underWay : List.Forall₂ related session.fetchesUnderWay after.fetchesUnderWay
  errand : session.errand.Changed related after.errand

/-- Changing every fetch under way. -/
theorem changedBy_changeFetches {holds : Backend → Prop}
    (change : Service Backend → Fetch → StateM Backend Fetch) (session : Session)
    (hholds : holds session.backend)
    (h : ∀ fetch, Action.Leads (change session.service fetch) holds fun after state =>
      related fetch after ∧ holds state) :
    ChangedBy related holds session (changeFetches change session).2 := by
  rw [changeFetches_eq]
  obtain ⟨hstreams, hfirst⟩ := mapNamed_leads (onFetch_leads h) session.streams session.backend hholds
  obtain ⟨hfetches, hsecond⟩ := mapNamed_leads h session.fetches _ hfirst
  obtain ⟨herrand, hthird⟩ := changeErrand_leads h session.errand _ hsecond
  refine ⟨rfl, rfl, hthird, ?_, herrand⟩
  rw [fetchesUnderWay_eq, fetchesUnderWay_eq]
  refine List.rel_append (List.rel_append (forall₂_filterMap_fetch? hstreams) ?_) herrand.fetch?
  rw [List.forall₂_map_left_iff, List.forall₂_map_right_iff]
  exact hfetches

/-- Two changes of all fetches one after the other. -/
theorem ChangedBy.trans {holds : Backend → Prop} {session middle after : Session}
    (hfirst : ChangedBy first holds session middle) (hsecond : ChangedBy second holds middle after) :
    ChangedBy (fun a c => ∃ b, first a b ∧ second b c) holds session after where
  transport := hsecond.transport.trans hfirst.transport
  now := hsecond.now.trans hfirst.now
  holds := hsecond.holds
  underWay := by
    have hfront := hfirst.underWay
    have hback := hsecond.underWay
    generalize session.fetchesUnderWay = as at hfront
    generalize middle.fetchesUnderWay = bs at hfront hback
    generalize after.fetchesUnderWay = cs at hback
    induction hfront generalizing cs with
    | nil =>
      cases hback with
      | nil => exact .nil
    | cons ha _ ih =>
      cases hback with
      | cons hb hrest => exact .cons ⟨_, ha, hb⟩ (ih _ hrest)
  errand := hfirst.errand.trans hsecond.errand

end Session

namespace Fetch

variable {replies : Replies} {now : Nat} {before middle after : Fetch}

/-- What an instant makes of a fetch. -/
structure Passed (replies : Replies) (now : Nat) (before after : Fetch) : Prop where
  reached : Reaches replies before after
  fewer : ∀ download ∈ before.downloads, download.due ≤ now → after.unfinished < before.unfinished
  settled : (∀ task ∈ before.tasks, task.isDecoding = false) → Settled now after

/-- An instant has passed for a fetch when what is due has been taken in, and what can begin has begun. -/
theorem passed_of_requested (hdelivered : Delivered replies now before before.size middle)
    (hrequested : Requested replies now middle middle.size after) : Passed replies now before after where
  reached := hdelivered.reached.trans hrequested.reached
  fewer download hmem hdue := by
    obtain ⟨task, htask, hdownload⟩ := List.mem_filterMap.mp hmem
    obtain ⟨j, hj⟩ := List.mem_iff_getElem?.mp htask
    have hless := hdelivered.fewer j (List.getElem?_eq_some_iff.mp hj).1 download
      (by rw [hj]; exact hdownload) hdue
    exact Nat.lt_of_le_of_lt hrequested.reached.keeps.2.2.2.2 hless
  settled hcalm := by
    have hlength : middle.tasks.length = before.tasks.length := hdelivered.reached.keeps.2.1
    have hlater : after.tasks.length = middle.tasks.length := hrequested.reached.keeps.2.1
    refine ⟨hrequested.rests fun task htask => ?_, fun task htask hwaits => ?_⟩
    · obtain ⟨j, hj⟩ := List.mem_iff_getElem?.mp htask
      have hbound := (List.getElem?_eq_some_iff.mp hj).1
      exact hdelivered.rests hcalm j (by rw [size]; omega) task hj
    · obtain ⟨j, hj⟩ := List.mem_iff_getElem?.mp htask
      have hbound := (List.getElem?_eq_some_iff.mp hj).1
      exact hrequested.exhausted j (by rw [size]; omega) task hj hwaits

end Fetch

namespace Session

variable {holds : Backend → Prop} {answer : String → Except ServiceError Manifest}
  {reply : String → Reply} {session after : Session}

/-- What is implied by one change of a fetch may take its place. -/
theorem ChangedBy.mono (h : ChangedBy first holds session after)
    (himplies : ∀ a b, first a b → second a b) : ChangedBy second holds session after where
  transport := h.transport
  now := h.now
  holds := h.holds
  underWay := h.underWay.imp himplies
  errand := by
    have herrand := h.errand
    generalize session.errand = before at herrand
    generalize after.errand = later at herrand
    cases herrand with
    | fetch change => exact .fetch (himplies _ _ change)
    | other nothing => exact .other nothing
    | stream change =>
      cases change with
      | fetching holding change => exact .stream (.fetching holding (himplies _ _ change))
      | none nothing => exact .stream (.none nothing)

/-- A download that the caller waits for is no retrieval. -/
theorem deliverErrand_of_isRetrieval (h : session.errand.IsRetrieval) :
    (deliverErrand session).2 = session := by
  simp only [deliverErrand, Action.bind_run, Action.get_run]
  cases herrand : session.errand with
  | download download => exact absurd h (by simp [herrand, Errand.IsRetrieval])
  | none | fetch | stream | arrived => rfl

/-- Settling an instant takes in what is due, for the fetches and for the caller, and then begins what can
begin. -/
theorem settle_eq (session : Session) :
    (settle session).2 =
      (changeFetches (fun service fetch => fetch.requestAll service session.now)
        (deliverErrand
          (changeFetches (fun service fetch => fetch.deliverAll service session.now) session).2).2).2 :=
  rfl

/-- Settling an instant passes it for every fetch under way. -/
theorem changedBy_settle (hretrieval : session.errand.IsRetrieval)
    (hsteady : session.service.Steady holds answer reply) (hholds : holds session.backend) :
    ChangedBy (Fetch.Passed (Fetch.byLocation reply) session.now) holds session (settle session).2 := by
  have hfirst := changedBy_changeFetches (fun service fetch => fetch.deliverAll service session.now)
    session hholds fun fetch state hstate =>
      (Fetch.delivered_deliverAll hsteady (Fetch.byLocation reply) fetch state hstate).symm
  rw [settle_eq]
  generalize (changeFetches (fun service fetch => fetch.deliverAll service session.now) session).2 =
    middle at hfirst
  have hservice : middle.service = session.service := congrArg Transport.service hfirst.transport
  have hsecond := changedBy_changeFetches (fun service fetch => fetch.requestAll service session.now)
    middle hfirst.holds fun fetch state hstate =>
      (Fetch.requested_requestAll (hservice ▸ hsteady) fetch state hstate).symm
  rw [deliverErrand_of_isRetrieval (hfirst.errand.isRetrieval.mpr hretrieval)]
  refine (hfirst.trans hsecond).mono fun a c hchange => ?_
  obtain ⟨b, hdelivered, hrequested⟩ := hchange
  exact Fetch.passed_of_requested hdelivered hrequested

end Session

end Reassembly
