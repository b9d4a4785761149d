/-!
# Schedules

A schedule is a list of events, and any list of events is one. Whether a system comes to its end is a
question of the schedules that do not idle: if every event that changes the state uses something up,
such a schedule has to stop, and it stops where no event changes the state any more.
-/

namespace Reassembly.Schedule

variable {σ ε : Type} {step : σ → ε → σ} {state : σ}

/-- Every event changes the state that it finds. -/
def Busy (step : σ → ε → σ) : σ → List ε → Prop
  | _, [] => True
  | state, event :: rest => step state event ≠ state ∧ Busy step (step state event) rest

/-- No event changes the state any more. -/
def Quiet (step : σ → ε → σ) (state : σ) : Prop := ∀ event, step state event = state

/-- A schedule that is never idle is no longer than there is something to use up. That every event uses
something up may rest on a property that events preserve. -/
theorem Busy.length_le (weight : σ → Nat) (keeps : σ → Prop)
    (hkeeps : ∀ state event, keeps state → keeps (step state event))
    (hless : ∀ state event, keeps state → step state event ≠ state →
      weight (step state event) < weight state)
    (hstart : keeps state) {events : List ε} (h : Busy step state events) :
    events.length ≤ weight state := by
  induction events generalizing state with
  | nil => exact Nat.zero_le _
  | cons event rest ih =>
    obtain ⟨hchange, hrest⟩ := h
    have hlater := ih (hkeeps state event hstart) hrest
    exact Nat.succ_le_of_lt (Nat.lt_of_le_of_lt hlater (hless state event hstart hchange))

/-- What an event keeps, a schedule keeps. -/
theorem foldl_invariant {α : Type} (invariant : σ → α)
    (hstep : ∀ state event, invariant (step state event) = invariant state) (events : List ε) (state : σ) :
    invariant (events.foldl step state) = invariant state := by
  induction events generalizing state with
  | nil => rfl
  | cons event rest ih => exact (ih (step state event)).trans (hstep state event)

/-- What every event preserves holds after a schedule if it held before. -/
theorem foldl_induction {motive : σ → Prop} (hstep : ∀ state event, motive state → motive (step state event))
    (events : List ε) (hstart : motive state) : motive (events.foldl step state) := by
  induction events generalizing state with
  | nil => exact hstart
  | cons event rest ih => exact ih (hstep state event hstart)

end Reassembly.Schedule
