import Reassembly.Proofs.Result
import Reassembly.Proofs.Retrieval.Fetch
import Reassembly.Proofs.Schedule

/-!
# Joining a fetch

Whoever joins a fetch asks for one result after the other and stops at the first error. Tasks move in
between, in any order and any number. What comes of the join is what fetching and decoding the chunks
one by one would give: the list of these results is the list of fates, and no move changes a fate.
-/

namespace Reassembly

/-- A join that waits for results of a fetch, with the blocks that it has, or that has ended. -/
inductive Joining
  | waiting (fetch : Fetch) (blocks : List Block)
  | ended (result : Except RetrievalError (List Block))

/-- What happens during a join: a task moves, or the next result is asked for. -/
inductive JoinEvent
  | move (move : Move)
  | take

namespace Joining

/-- Take in what was found when the next result was asked for. -/
def receive (blocks : List Block) : Poll Block × Fetch → Joining
  | (.pending, fetch) => waiting fetch blocks
  | (.ended, _) => ended (.ok blocks)
  | (.item (.ok block), fetch) => waiting fetch (blocks ++ [block])
  | (.item (.error error), _) => ended (.error error)

/-- Let something happen during a join. A join that has ended stays as it is. -/
def step (replies : Replies) : Joining → JoinEvent → Joining
  | waiting fetch blocks, .move move => waiting (fetch.act replies move) blocks
  | waiting fetch blocks, .take => receive blocks fetch.next
  | ended result, _ => ended result

/-- Let one thing after the other happen during a join. -/
def run (replies : Replies) (joining : Joining) (events : List JoinEvent) : Joining :=
  events.foldl (step replies) joining

variable {replies : Replies} {joining : Joining} {fetch : Fetch} {blocks : List Block}

/-- What comes of a join: the blocks that it has and those that are still to come, or the first error
among these. -/
def prospect (replies : Replies) : Joining → Except RetrievalError (List Block)
  | waiting fetch blocks => ((fetch.fates replies).mapM id).map (blocks ++ ·)
  | ended result => result

/-- The events that a join can still take: the steps of its tasks, and one taking for each of them and
for the end. -/
def weight : Joining → Nat
  | waiting fetch _ => fetch.work + fetch.tasks.length + 1
  | ended _ => 0

/-- Asking for a result does not change what comes of a join. -/
theorem prospect_receive (replies : Replies) (fetch : Fetch) (blocks : List Block) :
    (receive blocks fetch.next).prospect replies = (waiting fetch blocks).prospect replies := by
  rcases fetch.next_cases replies with ⟨hnil, hnext⟩ | ⟨-, hnext⟩ | ⟨result, task, rest, hnext, -, hfates, -⟩
  · rw [hnext]
    simp [receive, prospect, Fetch.fates, hnil, Except.map]
  · rw [hnext]
    rfl
  · rw [hnext]
    simp only [prospect, hfates, Result.mapM_cons]
    cases result with
    | error error => rfl
    | ok block =>
      simp only [receive, id_eq, Result.ok_bind]
      cases (({ fetch with tasks := rest } : Fetch).fates replies).mapM id with
      | error error => rfl
      | ok later => simp [Except.map]

/-- Whatever happens, the same comes of a join. -/
theorem prospect_step (replies : Replies) (joining : Joining) (event : JoinEvent) :
    (joining.step replies event).prospect replies = joining.prospect replies := by
  cases joining with
  | ended result => rfl
  | waiting fetch blocks =>
    cases event with
    | take => exact prospect_receive replies fetch blocks
    | move move =>
      have hfates := Fetch.fates_acts replies fetch [move]
      simp only [Fetch.acts, List.foldl_cons, List.foldl_nil] at hfates
      simp only [step, prospect, hfates]

/-- Whatever happens that changes a join leaves it with fewer events to take. -/
theorem weight_step (replies : Replies) (joining : Joining) (event : JoinEvent)
    (h : joining.step replies event ≠ joining) :
    (joining.step replies event).weight < joining.weight := by
  cases joining with
  | ended result => exact absurd rfl h
  | waiting fetch blocks =>
    cases event with
    | move move =>
      rcases Fetch.act_eq_or_advance replies fetch move with hsame | hadvance
      · simp only [step, hsame, ne_eq, not_true_eq_false] at h
      · have hwork := hadvance.work_lt
        have hlength := hadvance.keeps.2
        simp only [step, weight]
        omega
    | take =>
      simp only [step] at h ⊢
      rcases fetch.next_cases replies with
        ⟨-, hnext⟩ | ⟨-, hnext⟩ | ⟨result, task, rest, hnext, htasks, -, -, hwork⟩
      · simp [hnext, receive, weight]
      · simp [hnext, receive] at h
      · rw [hnext]
        cases result with
        | error error => simp [receive, weight]
        | ok block =>
          simp only [receive, weight, htasks, List.length_cons]
          omega

/-- A fetch that a join waits for has a permit, or needs none. -/
def Live : Joining → Prop
  | waiting fetch _ => fetch.capacity? ≠ some 0
  | ended _ => True

/-- A join that waits for a live fetch goes on doing so. -/
theorem live_step (replies : Replies) (joining : Joining) (event : JoinEvent) (h : joining.Live) :
    (joining.step replies event).Live := by
  cases joining with
  | ended result => trivial
  | waiting fetch blocks =>
    cases event with
    | move move =>
      have hcapacity := Fetch.capacity?_acts replies fetch [move]
      simp only [Fetch.acts, List.foldl_cons, List.foldl_nil] at hcapacity
      simp only [step, Live, hcapacity]
      exact h
    | take =>
      simp only [step]
      rcases fetch.next_cases replies with
        ⟨-, hnext⟩ | ⟨-, hnext⟩ | ⟨result, task, rest, hnext, -, -, hcapacity, -⟩
      · rw [hnext]
        trivial
      · rw [hnext]
        exact h
      · rw [hnext]
        cases result with
        | error error => trivial
        | ok block =>
          simp only [receive, Live, hcapacity]
          exact h

/-- A live join in which nothing can happen any more has ended. -/
theorem ended_of_quiet (hlive : joining.Live) (hquiet : Schedule.Quiet (step replies) joining) :
    joining = ended (joining.prospect replies) := by
  cases joining with
  | ended result => rfl
  | waiting fetch blocks =>
    exfalso
    have htake := hquiet .take
    simp only [step] at htake
    rcases fetch.next_cases replies with
      ⟨-, hnext⟩ | ⟨hwork, -⟩ | ⟨result, task, rest, hnext, -⟩
    · simp [hnext, receive] at htake
    · obtain ⟨move, hadvance⟩ := Fetch.exists_advance replies hlive hwork
      have hmove := hquiet (.move move)
      simp only [step, waiting.injEq, and_true] at hmove
      have hless := hadvance.work_lt
      rw [hmove] at hless
      exact Nat.lt_irrefl _ hless
    · rw [hnext] at htake
      cases result with
      | error error => simp [receive] at htake
      | ok block =>
        simp only [receive, waiting.injEq] at htake
        have := congrArg List.length htake.2
        simp at this

/-- Joining the fetch of some chunks gives what fetching and decoding them one by one does, if it ends;
it does end under every schedule that is not idle, and a schedule that is never idle is bounded. -/
theorem join_eq_mapM (file : ResolvedFile) (chunks : List Chunk) (limit : Nat) (replies : Replies)
    (events : List JoinEvent) :
    let joining := (waiting (Fetch.start file chunks limit) []).run replies events
    let result := chunks.mapM fun chunk => FetchTask.outcome file chunk (replies chunk)
    (∀ found, joining = ended found → found = result) ∧
      (Schedule.Quiet (step replies) joining → joining = ended result) ∧
        (Schedule.Busy (step replies) (waiting (Fetch.start file chunks limit) []) events →
          events.length ≤ 4 * chunks.length + 1) := by
  intro joining result
  have hprospect : joining.prospect replies = result := by
    rw [show joining.prospect replies = (waiting (Fetch.start file chunks limit) []).prospect replies from
      Schedule.foldl_invariant _ (prospect_step replies) events _]
    simp only [prospect, Fetch.fates_start, List.nil_append, List.mapM_map]
    show Except.map (fun blocks => blocks) result = result
    cases result <;> rfl
  have hstart : (waiting (Fetch.start file chunks limit) []).Live :=
    Fetch.capacity?_start_ne_zero file chunks limit
  have hlive : joining.Live := Schedule.foldl_induction (live_step replies) events hstart
  refine ⟨?_, ?_, ?_⟩
  · intro found hfound
    rw [← hprospect, hfound]
    rfl
  · intro hquiet
    rw [← hprospect]
    exact ended_of_quiet hlive hquiet
  · intro hbusy
    have hlength := hbusy.length_le weight Live (live_step replies)
      (fun state event _ => weight_step replies state event) hstart
    rw [weight, Fetch.work_start, show (Fetch.start file chunks limit).tasks.length = chunks.length by
      simp [Fetch.start]] at hlength
    omega

end Joining

end Reassembly
