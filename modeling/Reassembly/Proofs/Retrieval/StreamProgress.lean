import Reassembly.Proofs.Retrieval.Stream

/-!
# How a stream comes to its end

A stream that has not ended can go on: it can be polled with a different outcome than before, or one of
its tasks can move. Both use something up, so a schedule under which it always goes on is bounded, and
where nothing can happen any more the stream has ended.
-/

namespace Reassembly.FragmentStream

variable {supply : Supply} {stream : FragmentStream}

/-- The events that a fetch can still take part in: the steps of its tasks, and one poll for each of them
and for the end. -/
def fetchWeight (fetch : Fetch) : Nat := fetch.work + fetch.tasks.length + 1

/-- The events that a stream can still take part in. -/
def weight (supply : Supply) (stream : FragmentStream) : Nat :=
  if stream.state.isTerminal then 0
  else
    (if stream.state = .idle then 1 else 0) +
      match stream.holding with
      | .released => 1
      | .fetching fetch => fetchWeight fetch
      | .unopened =>
        match stream.opening supply.answer with
        | .error _ => 1
        | .ok (_, fetch) => fetchWeight fetch + 1

/-- A stream that has ended takes part in nothing. -/
theorem weight_of_terminal (h : stream.state.isTerminal = true) : stream.weight supply = 0 := if_pos h

/-- A stream that has not ended takes part in something. -/
theorem weight_pos (h : stream.state.isTerminal = false) : 0 < stream.weight supply := by
  rw [weight, h]
  simp only [Bool.false_eq_true, if_false, fetchWeight]
  cases stream.holding with
  | released => exact Nat.add_pos_right _ Nat.one_pos
  | fetching fetch => exact Nat.add_pos_right _ (Nat.succ_pos _)
  | unopened =>
    cases stream.opening supply.answer with
    | error error => exact Nat.add_pos_right _ Nat.one_pos
    | ok opened => exact Nat.add_pos_right _ (Nat.succ_pos _)

/-- The weight of a stream that is fetching. -/
theorem weight_fetching {fetch : Fetch} (h : stream.state.isTerminal = false)
    (hholding : stream.holding = .fetching fetch) :
    stream.weight supply = (if stream.state = .idle then 1 else 0) + fetchWeight fetch := by
  rw [weight, h, hholding]
  rfl

/-- The weight of a stream that has not been opened. -/
theorem weight_unopened (h : stream.state.isTerminal = false) (hholding : stream.holding = .unopened) :
    stream.weight supply =
      (if stream.state = .idle then 1 else 0) +
        match stream.opening supply.answer with
        | .error _ => 1
        | .ok (_, fetch) => fetchWeight fetch + 1 := by
  rw [weight, h, hholding]
  rfl

/-- A stream that holds a fetch has not ended, and the fetch has a permit or needs none. -/
def Live (stream : FragmentStream) : Prop :=
  ∀ fetch, stream.holding = .fetching fetch →
    stream.state.isTerminal = false ∧ fetch.capacity? ≠ some 0

/-- A stream that was polled while it was fetching, and has not ended: it has dropped tasks that are
done, or it waits for the first of its tasks. -/
structure Continued (stream : FragmentStream) (fetch : Fetch) (found : Poll Block × FragmentStream) :
    Prop where
  streaming : found.2.state = .streaming
  fewer : ∃ dropped rest : List FetchTask, found.2.holding = .fetching { fetch with tasks := rest } ∧
    fetch.tasks = dropped ++ rest ∧ (∀ task ∈ dropped, task.isDone = true) ∧
      (found.1 = .pending → ∃ task ∈ rest, task.isDone = false) ∧
        (dropped ≠ [] ∨ found = (.pending, { stream with holding := .fetching fetch }))

/-- A stream that has ended and let go of what it held. -/
def Over (stream : FragmentStream) : Prop :=
  stream.state.isTerminal = true ∧ stream.holding = .released

/-- A stream that is over is live. -/
theorem Over.live (h : stream.Over) : stream.Live := by
  intro fetch hholding
  rw [h.2] at hholding
  simp at hholding

/-- A poll of a stream that is fetching ends the stream, or the stream continues. -/
theorem continued_pollFetch (stream : FragmentStream) (hstate : stream.state = .streaming)
    (fetch : Fetch) :
    (stream.pollFetch fetch).2.Over ∨ Continued stream fetch (stream.pollFetch fetch) := by
  have htaken := taken_takeFragment stream.range stream.offset fetch.file (fun _ => .crashed) fetch.tasks
  rw [pollFetch]
  generalize takeFragment stream.range fetch.tasks = found at htaken
  cases htaken with
  | ended => exact .inl ⟨rfl, rfl⟩
  | error => exact .inl ⟨rfl, rfl⟩
  | @pending dropped rest split done work same =>
    refine .inr ⟨hstate, dropped, rest, rfl, split, done, fun _ => work, ?_⟩
    cases dropped with
    | nil =>
      obtain rfl : fetch.tasks = rest := split
      exact .inr rfl
    | cons task dropped => exact .inl (List.cons_ne_nil _ _)
  | @fragment dropped rest fragment split done some first =>
    exact .inr ⟨hstate, dropped, rest, rfl, split, done, by simp, .inl some⟩

/-- A stream that continues weighs no more than its fetch, and less when it has dropped a task. -/
theorem Continued.weight_le {fetch : Fetch} {found : Poll Block × FragmentStream}
    (h : Continued stream fetch found) :
    found.2.weight supply < fetchWeight fetch ∨
      found.2.weight supply = fetchWeight fetch ∧ found.2 = { stream with holding := .fetching fetch } := by
  obtain ⟨hstate, dropped, rest, hholding, hsplit, hdone, -, hcase⟩ := h
  have hweight := @weight_fetching supply found.2 _ (by rw [hstate]; rfl) hholding
  obtain ⟨hwork, -⟩ := dropped_done fetch hsplit hdone
  have hlength := congrArg List.length hsplit
  rw [List.length_append] at hlength
  simp only [hstate, reduceCtorEq, if_false, Nat.zero_add, fetchWeight, hwork] at hweight
  rcases hcase with hsome | rfl
  · have := List.length_pos_of_ne_nil hsome
    left
    rw [hweight, fetchWeight]
    omega
  · obtain rfl : fetch.tasks = rest := by simpa using congrArg Fetch.tasks (Holding.fetching.inj hholding)
    exact .inr ⟨hweight, rfl⟩

/-- What a poll of a stream that has not ended can be: it ends the stream, it waits for the manifest, or the
stream continues, with the fetch that it has or with the one that opening it begins. -/
inductive Turn (supply : Supply) (stream : FragmentStream) (answered : Bool) :
    Poll Block × FragmentStream → Prop
  | finished {found} (ended : found.2.Over) : Turn supply stream answered found
  | unanswered (unopened : stream.holding = .unopened) (silent : answered = false) :
      Turn supply stream answered (.pending, stream.polling)
  | fetching {found fetch} (holding : stream.holding = .fetching fetch)
      (continued : Continued stream.polling fetch found) : Turn supply stream answered found
  | opened {found range fetch} (unopened : stream.holding = .unopened)
      (opening : stream.opening supply.answer = .ok (range, fetch))
      (continued : Continued { stream.polling with range, layout := some fetch.file.layout } fetch found) :
      Turn supply stream answered found

/-- A poll of a stream that has not ended is one of these turns. -/
theorem turn_poll (supply : Supply) (answered : Bool) (hstate : stream.state.isTerminal = false) :
    Turn supply stream answered (stream.poll (found supply answered)) := by
  rw [poll_eq hstate]
  cases hholding : stream.holding with
  | released => exact .finished ⟨rfl, rfl⟩
  | fetching fetch =>
    rcases continued_pollFetch stream.polling rfl fetch with hover | hcontinued
    · exact .finished hover
    · exact .fetching hholding hcontinued
  | unopened =>
    cases answered with
    | false => exact .unanswered hholding rfl
    | true =>
      simp only [found, if_true]
      cases hopen : stream.opening supply.answer with
      | error error => exact .finished ⟨rfl, rfl⟩
      | ok opened =>
        rcases continued_pollFetch
            { stream.polling with range := opened.1, layout := some opened.2.file.layout } rfl opened.2
          with hover | hcontinued
        · exact .finished hover
        · exact .opened hholding hopen hcontinued

/-- A stream that has not ended is idle or streaming. -/
theorem idle_or_streaming (h : stream.state.isTerminal = false) :
    stream.state = .idle ∨ stream.state = .streaming := by
  cases hstate : stream.state with
  | idle => exact .inl rfl
  | streaming => exact .inr rfl
  | completed | failed | cancelled => simp [hstate, StreamState.isTerminal] at h

/-- Polling a stream that has not ended changes it only if it is idle. -/
theorem idle_of_polling (hstate : stream.state.isTerminal = false) (h : stream.polling ≠ stream) :
    stream.state = .idle := by
  rcases idle_or_streaming hstate with hidle | hstreaming
  · exact hidle
  · refine absurd ?_ h
    rw [polling, ← hstreaming]

/-- A poll changes nothing, or leaves a stream with less to take part in. -/
theorem weight_poll (supply : Supply) (stream : FragmentStream) (answered : Bool)
    (h : (stream.poll (found supply answered)).2 ≠ stream) :
    (stream.poll (found supply answered)).2.weight supply < stream.weight supply := by
  by_cases hterminal : stream.state.isTerminal = true
  · rw [poll, if_pos hterminal] at h
    exact absurd rfl h
  · have hstate : stream.state.isTerminal = false := by simpa using hterminal
    have hturn := turn_poll supply answered hstate
    generalize stream.poll (found supply answered) = found at h hturn
    cases hturn with
    | finished ended =>
      rw [weight_of_terminal ended.1]
      exact weight_pos hstate
    | unanswered unopened silent =>
      have hbefore := @weight_unopened supply stream hstate unopened
      have hafter := @weight_unopened supply stream.polling rfl unopened
      rw [if_pos (idle_of_polling hstate h)] at hbefore
      rw [show stream.polling.opening = stream.opening from rfl] at hafter
      simp only [polling, reduceCtorEq, if_false, Nat.zero_add] at hafter
      show stream.polling.weight supply < _
      rw [hbefore, polling, hafter]
      omega
    | @fetching _ fetch holding continued =>
      have hweight := @weight_fetching supply stream fetch hstate holding
      rcases continued.weight_le with hless | ⟨hsame, hafter⟩
      · exact Nat.lt_of_lt_of_le hless (by omega)
      · have hidle := idle_of_polling hstate fun heq => h (by rw [hafter, heq, ← holding])
        rw [if_pos hidle] at hweight
        omega
    | @opened _ range fetch unopened opening continued =>
      have hweight := @weight_unopened supply stream hstate unopened
      rw [opening] at hweight
      replace hweight : stream.weight supply =
          (if stream.state = .idle then 1 else 0) + (fetchWeight fetch + 1) := hweight
      rcases continued.weight_le with hless | ⟨hsame, -⟩
      · exact Nat.lt_of_lt_of_le hless (by omega)
      · exact Nat.lt_of_le_of_lt (Nat.le_of_eq hsame) (by omega)

/-- A move of a task changes nothing, or leaves a stream with less to take part in. -/
theorem weight_moved (supply : Supply) (stream : FragmentStream) (move : Move)
    (hterminal : stream.state.isTerminal = false) (h : stream.moved supply move ≠ stream) :
    (stream.moved supply move).weight supply < stream.weight supply := by
  cases hholding : stream.holding with
  | released | unopened => simp [moved, hholding] at h
  | fetching fetch =>
    have hmoved : stream.moved supply move =
        { stream with holding := .fetching (fetch.act supply.replies move) } := by
      rw [moved, hholding]
    rcases Fetch.act_eq_or_advance supply.replies fetch move with hsame | hadvance
    · rw [hmoved, hsame, ← hholding] at h
      exact absurd rfl h
    · have hafter := @weight_fetching supply (stream.moved supply move) _
        (by rw [hmoved]; exact hterminal) (by rw [hmoved])
      have hwork := hadvance.work_lt
      have hlength := hadvance.keeps.2
      rw [weight_fetching hterminal hholding, hafter, (moved_keeps supply stream move).1]
      simp only [fetchWeight]
      omega

/-- Whatever happens that changes a live stream leaves it with less to take part in. -/
theorem weight_step (supply : Supply) (stream : FragmentStream) (event : StreamEvent)
    (hlive : stream.Live) (h : stream.step supply event ≠ stream) :
    (stream.step supply event).weight supply < stream.weight supply := by
  cases event with
  | poll answered => exact weight_poll supply stream answered h
  | move move =>
    cases hholding : stream.holding with
    | released | unopened => simp [step, moved, hholding] at h
    | fetching fetch => exact weight_moved supply stream move (hlive fetch hholding).1 h

/-- A stream that continues is live when its fetch was. -/
theorem Continued.live {fetch : Fetch} {found : Poll Block × FragmentStream}
    (h : Continued stream fetch found) (hcapacity : fetch.capacity? ≠ some 0) : found.2.Live := by
  obtain ⟨hstate, dropped, rest, hholding, hsplit, hdone, -⟩ := h
  obtain ⟨-, hkeeps⟩ := dropped_done fetch hsplit hdone
  intro other hother
  obtain rfl : { fetch with tasks := rest } = other := by simpa [hholding] using hother
  exact ⟨by rw [hstate]; rfl, by rw [hkeeps]; exact hcapacity⟩

/-- What it takes to open a stream. -/
theorem opening_eq_ok {answer : Except ServiceError Manifest} {range : ByteRange} {fetch : Fetch}
    (h : stream.opening answer = .ok (range, fetch)) :
    ∃ file chunks, ResolvedFile.ofAnswer stream.fileId stream.credentials answer = .ok file ∧
      file.layout.selectRange stream.range = .ok (range, chunks) ∧ fetch = Fetch.start file chunks stream.limit := by
  obtain ⟨file, hfile, h⟩ := Result.bind_eq_ok_iff.mp h
  obtain ⟨⟨normalized, chunks⟩, hselected, h⟩ := Result.bind_eq_ok_iff.mp h
  obtain ⟨rfl, rfl⟩ : normalized = range ∧ Fetch.start file chunks stream.limit = fetch := by simpa using h
  exact ⟨file, chunks, hfile, hselected, rfl⟩

/-- Opening a stream begins a live fetch. -/
theorem capacity?_opening {answer : Except ServiceError Manifest} {range : ByteRange} {fetch : Fetch}
    (h : stream.opening answer = .ok (range, fetch)) : fetch.capacity? ≠ some 0 := by
  obtain ⟨file, chunks, -, -, rfl⟩ := opening_eq_ok h
  exact Fetch.capacity?_start_ne_zero file chunks stream.limit

/-- A live stream stays live. -/
theorem live_step (supply : Supply) (stream : FragmentStream) (event : StreamEvent) (h : stream.Live) :
    (stream.step supply event).Live := by
  cases event with
  | move move =>
    cases hholding : stream.holding with
    | released | unopened =>
      intro fetch hfetch
      simp [step, moved, hholding] at hfetch
    | fetching fetch =>
      obtain ⟨hstate, hcapacity⟩ := h fetch hholding
      intro after hafter
      obtain rfl : fetch.act supply.replies move = after := by
        simpa [step, moved, hholding] using hafter
      have hkeeps := Fetch.capacity?_acts supply.replies fetch [move]
      simp only [Fetch.acts, List.foldl_cons, List.foldl_nil] at hkeeps
      exact ⟨by rw [step, (moved_keeps supply stream move).1]; exact hstate, by rw [hkeeps]; exact hcapacity⟩
  | poll answered =>
    rw [step]
    by_cases hterminal : stream.state.isTerminal = true
    · rw [poll, if_pos hterminal]
      exact h
    · have hstate : stream.state.isTerminal = false := by simpa using hterminal
      have hturn := turn_poll supply answered hstate
      generalize stream.poll (found supply answered) = found at hturn
      cases hturn with
      | finished ended => exact ended.live
      | unanswered unopened silent =>
        intro fetch hfetch
        replace hfetch : stream.holding = .fetching fetch := hfetch
        simp [unopened] at hfetch
      | fetching holding continued => exact continued.live (h _ holding).2
      | opened unopened opening continued => exact continued.live (capacity?_opening opening)

/-- A live stream to which nothing can happen any more has ended. -/
theorem terminal_of_quiet (hlive : stream.Live) (hquiet : Schedule.Quiet (step supply) stream) :
    stream.state.isTerminal = true := by
  by_contra hterminal
  have hstate : stream.state.isTerminal = false := by simpa using hterminal
  have hpoll : (stream.poll (found supply true)).2 = stream := hquiet (.poll true)
  have hturn := turn_poll supply true hstate
  generalize stream.poll (found supply true) = found at hpoll hturn
  cases hturn with
  | finished ended =>
    rw [hpoll] at ended
    exact hterminal ended.1
  | unanswered unopened silent => simp at silent
  | opened unopened opening continued =>
    obtain ⟨dropped, rest, hfetching, -⟩ := continued.fewer
    rw [hpoll, unopened] at hfetching
    simp at hfetching
  | @fetching _ fetch holding continued =>
    obtain ⟨dropped, rest, hfetching, hsplit, -, hwaits, hcase⟩ := continued.fewer
    rw [hpoll, holding] at hfetching
    obtain rfl : fetch.tasks = rest := by simpa using congrArg Fetch.tasks (Holding.fetching.inj hfetching)
    rcases hcase with hsome | hsame
    · exact hsome (by simpa using hsplit)
    · have htask := hwaits (congrArg Prod.fst hsame)
      obtain ⟨move, hadvance⟩ := Fetch.exists_advance supply.replies (hlive fetch holding).2 htask
      have hmove : stream.moved supply move = stream := hquiet (.move move)
      have hstill : fetch.act supply.replies move = fetch := by
        have := congrArg FragmentStream.holding hmove
        simpa [moved, holding] using this
      have hless := hadvance.work_lt
      rw [hstill] at hless
      exact Nat.lt_irrefl _ hless

/-- A stream that has not been polled is live. -/
theorem live_of_unopened (h : stream.holding = .unopened) : stream.Live := by
  intro fetch hfetch
  simp [h] at hfetch

end Reassembly.FragmentStream
