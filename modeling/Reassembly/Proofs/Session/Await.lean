import Reassembly.Proofs.Session.Attempt

/-!
# Waiting in a session

A session that waits for the next item of a retrieval gets the next item that is owed, however its clock
and its other retrievals go. While the item is not there, some download is in flight: it was begun when
the instant was settled, because there are permits. So the clock can move on to an arrival, and each
arrival leaves fewer downloads to wait for than the bound on the waiting allows.
-/

namespace Reassembly.Session

variable {streaming : Bool} {holds : Backend → Prop} {answer : String → Except ServiceError Manifest}
  {reply : String → Reply} {fileId : String} {items : List (Except RetrievalError Block)}
  {session after : Session}

/-- When an instant passes, fetches get no more tasks that are not done. -/
theorem sum_unfinished_le {replies : Replies} {now : Nat} {before later : List Fetch}
    (h : List.Forall₂ (Fetch.Passed replies now) before later) :
    (later.map Fetch.unfinished).sum ≤ (before.map Fetch.unfinished).sum := by
  induction h with
  | nil => exact Nat.le_refl _
  | cons hfirst _ ih =>
    have hle := hfirst.reached.keeps.2.2.2.2
    simp only [List.map_cons, List.sum_cons]
    omega

/-- When an instant passes at which some download is due, fewer tasks are not done. -/
theorem sum_unfinished_lt {replies : Replies} {now : Nat} {before later : List Fetch}
    (h : List.Forall₂ (Fetch.Passed replies now) before later)
    (hdue : ∃ fetch ∈ before, ∃ download ∈ fetch.downloads, download.due ≤ now) :
    (later.map Fetch.unfinished).sum < (before.map Fetch.unfinished).sum := by
  induction h with
  | nil => simp at hdue
  | @cons first other before later hfirst hrest ih =>
    obtain ⟨fetch, hmem, download, hdownload, hearly⟩ := hdue
    simp only [List.map_cons, List.sum_cons]
    rcases List.mem_cons.mp hmem with rfl | hmem
    · have hless := hfirst.fewer download hdownload hearly
      have hle := sum_unfinished_le hrest
      omega
    · have hless := ih ⟨fetch, hmem, download, hdownload, hearly⟩
      have hle := hfirst.reached.keeps.2.2.2.2
      omega

/-- While a retrieval has a download in flight, the clock can move on to the arrival of one. -/
theorem exists_nextDue (hretrieval : session.errand.IsRetrieval) {fetch : Fetch}
    (hfetch : session.errand.fetch? = some fetch) (hdownload : ∃ download, download ∈ fetch.downloads) :
    ∃ due, session.nextDue? = some due ∧
      ∃ other ∈ session.fetchesUnderWay, ∃ download ∈ other.downloads, download.due = due := by
  have hnext : session.nextDue? = (session.fetchesUnderWay.filterMap Fetch.nextDue?).min? := by
    rw [nextDue?]
    cases herrand : session.errand with
    | download | none | arrived => simp [herrand, Errand.IsRetrieval] at hretrieval
    | fetch | stream => simp
  have hmem : fetch ∈ session.fetchesUnderWay := by
    rw [fetchesUnderWay_eq, hfetch]
    simp
  obtain ⟨download, hin⟩ := hdownload
  obtain ⟨first, hfirst⟩ := Option.isSome_iff_exists.mp
    (List.isSome_min?_of_mem
      (List.mem_map.mpr ⟨download, hin, rfl⟩ : download.due ∈ fetch.downloads.map (·.due)))
  replace hfirst : fetch.nextDue? = some first := hfirst
  obtain ⟨due, hdue⟩ := Option.isSome_iff_exists.mp
    (List.isSome_min?_of_mem (List.mem_filterMap.mpr ⟨fetch, hmem, hfirst⟩))
  refine ⟨due, hnext.trans hdue, ?_⟩
  obtain ⟨other, hother, hmin⟩ := List.mem_filterMap.mp (List.min?_mem hdue)
  obtain ⟨found, hfound, hsame⟩ := List.mem_map.mp (List.min?_mem hmin)
  exact ⟨other, hother, found, hfound, hsame⟩

/-- Moving the clock to the next arrival settles the instant of that arrival. -/
theorem advance_eq {due : Nat} (h : session.nextDue? = some due) :
    (advance session).2 = (settle { session with now := max session.now due }).2 := by
  simp only [advance, Action.bind_run, Action.get_run, h]
  rfl

/-- A retrieval that waits for a download is nearer to its end once the clock has moved. -/
theorem Retrieving.advance (h : Retrieving streaming holds answer reply fileId items session) {fetch : Fetch}
    (hfetch : session.errand.fetch? = some fetch) (hsettled : fetch.Settled session.now)
    (hwaits : ∃ task ∈ fetch.tasks, task.isDone = false) :
    let after := (Session.advance session).2
    Retrieving streaming holds answer reply fileId items after ∧
      (∃ fetch, after.errand.fetch? = some fetch ∧ fetch.Settled after.now) ∧
        after.unfinished < session.unfinished := by
  obtain ⟨due, hdue, other, hother, download, hdownload, rfl⟩ :=
    exists_nextDue h.awaits.isRetrieval hfetch
      (hsettled.exists_download (h.calm fetch hfetch).capacity hwaits)
  have hstart : Retrieving streaming holds answer reply fileId items
      { session with now := max session.now download.due } :=
    ⟨h.steady, h.holds, h.awaits, h.calm, h.live, h.owed⟩
  have hpassed := changedBy_settle hstart.awaits.isRetrieval hstart.steady hstart.holds
  intro after
  rw [show after = _ from advance_eq hdue]
  obtain ⟨hgoes, hquiet⟩ := hstart.passed hpassed
  refine ⟨hgoes, ?_, ?_⟩
  · have hforall := hpassed.errand.fetch?
    rw [show Errand.fetch? _ = some fetch from hfetch, Option.toList_some] at hforall
    cases hlater : (settle { session with now := max session.now download.due }).2.errand.fetch? with
    | none => simp [hlater] at hforall
    | some later =>
      refine ⟨later, rfl, ?_⟩
      rw [hpassed.now]
      exact hquiet later hlater
  · rw [unfinished_eq_sum, unfinished_eq_sum]
    exact Nat.add_lt_add_right (sum_unfinished_lt hpassed.underWay
      ⟨other, hother, download, hdownload, Nat.le_max_right _ _⟩) 1

/-- What waiting for the next owed item finds. -/
inductive Awaited (streaming : Bool) (holds : Backend → Prop)
    (answer : String → Except ServiceError Manifest) (reply : String → Reply) (fileId : String)
    (items : List (Except RetrievalError Block)) : Poll Block × Session → Prop
  | ended {after : Session} (nothing : items = []) :
      Awaited streaming holds answer reply fileId items (.ended, after)
  | item {after : Session} {result : Except RetrievalError Block}
      {rest : List (Except RetrievalError Block)} (first : items = result :: rest)
      (retrieving : Retrieving streaming holds answer reply fileId rest after)
      (opened : ∀ stream, after.errand = .stream stream → stream.isUnopened = false) :
      Awaited streaming holds answer reply fileId items (.item result, after)

/-- Attempts and moves of the clock by turns come to the next owed item before they run out of turns. -/
theorem awaited_awaitFrom {attempt : SessionM (Poll Block)}
    (hattempt : ∀ {session : Session}, Retrieving streaming holds answer reply fileId items session →
      Attempted streaming holds answer reply fileId items session (attempt session))
    (fuel : Nat) {session : Session} (h : Retrieving streaming holds answer reply fileId items session)
    (hsettled : ∃ fetch, session.errand.fetch? = some fetch ∧ fetch.Settled session.now)
    (hfuel : session.unfinished ≤ fuel) :
    Awaited streaming holds answer reply fileId items (awaitFrom attempt fuel session) := by
  induction fuel generalizing session with
  | zero => simp [unfinished] at hfuel
  | succ fuel ih =>
    obtain ⟨before, hbefore, hquiet⟩ := hsettled
    have hfound := hattempt h
    rw [awaitFrom, Action.bind_run]
    generalize attempt session = found at hfound
    cases hfound with
    | ended nothing => exact .ended nothing
    | item first retrieving opened => exact .item first retrieving opened
    | @pending after fetch retrieving fetching waits now settled =>
      obtain ⟨hlater, hle⟩ := settled before hbefore
      obtain ⟨hgoes, hagain, hless⟩ :=
        retrieving.advance fetching (by rw [now]; exact hlater hquiet) waits
      show Awaited streaming holds answer reply fileId items
        (awaitFrom attempt fuel (Session.advance after).2)
      exact ih hgoes hagain (by omega)

/-- Waiting finds the next owed item. -/
theorem awaited_await {attempt : SessionM (Poll Block)}
    (hattempt : ∀ {session : Session}, Retrieving streaming holds answer reply fileId items session →
      Attempted streaming holds answer reply fileId items session (attempt session))
    (h : Retrieving streaming holds answer reply fileId items session) :
    Awaited streaming holds answer reply fileId items (await attempt session) := by
  have hfound := hattempt h
  rw [await, Action.bind_run]
  generalize attempt session = found at hfound
  cases hfound with
  | ended nothing => exact .ended nothing
  | item first retrieving opened => exact .item first retrieving opened
  | @pending after fetch retrieving fetching waits now settled =>
    have hpassed := changedBy_settle retrieving.awaits.isRetrieval retrieving.steady retrieving.holds
    obtain ⟨hgoes, hquiet⟩ := retrieving.passed hpassed
    have hforall := hpassed.errand.fetch?
    rw [fetching, Option.toList_some] at hforall
    simp only [Action.bind_run, Action.get_run]
    refine awaited_awaitFrom hattempt _ hgoes ?_ (Nat.le_succ _)
    cases hlater : (settle after).2.errand.fetch? with
    | none => simp [hlater] at hforall
    | some later =>
      refine ⟨later, rfl, ?_⟩
      rw [hpassed.now]
      exact hquiet later hlater

end Reassembly.Session
