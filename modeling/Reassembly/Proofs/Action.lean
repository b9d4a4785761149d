import Mathlib.Data.List.Forall2

/-!
# Actions on a state

What an action makes of every state with a property, for actions that are done in sequence: one for each
index below a bound, or one for each element of a list.
-/

namespace Reassembly.Action

variable {σ α β : Type}

/-- From a state with a property, an action leads to a result and a state that are related as given. -/
def Leads (act : StateM σ α) (before : σ → Prop) (after : α → σ → Prop) : Prop :=
  ∀ state, before state → after (act state).1 (act state).2

/-- Two actions in sequence: the second starts where the first has led. -/
theorem bind_run (act : StateM σ α) (next : α → StateM σ β) (state : σ) :
    (act >>= next) state = next (act state).1 (act state).2 := rfl

/-- Looking at the state leaves it. -/
theorem get_run (state : σ) : (get : StateM σ σ) state = (state, state) := rfl

/-- Changing the state. -/
theorem modify_run (change : σ → σ) (state : σ) :
    (modify change : StateM σ PUnit) state = ((), change state) := rfl

/-- Two actions in sequence lead where the second leads from where the first does. -/
theorem Leads.bind {act : StateM σ α} {next : α → StateM σ β} {before : σ → Prop}
    {middle : α → σ → Prop} {after : β → σ → Prop} (hact : Leads act before middle)
    (hnext : ∀ a, Leads (next a) (middle a) after) : Leads (act >>= next) before after :=
  fun state hstate => hnext _ _ (hact state hstate)

/-- What holds at the start, and after each index if it held before, holds after all indices below a
bound. -/
theorem foldlM_range {motive : Nat → β → σ → Prop} {f : β → Nat → StateM σ β} (bound : Nat)
    (hstep : ∀ i b, i < bound → Leads (f b i) (motive i b) (motive (i + 1))) (b : β) :
    Leads ((List.range bound).foldlM f b) (motive 0 b) (motive bound) := by
  induction bound with
  | zero => exact fun _ hstart => hstart
  | succ bound ih =>
    rw [List.range_succ, List.foldlM_append]
    refine (ih fun i b hi => hstep i b (Nat.lt_succ_of_lt hi)).bind fun middle => ?_
    have hlast := hstep bound middle (Nat.lt_succ_self bound)
    rw [List.foldlM_cons]
    exact hlast.bind fun _ _ hstate => hstate

/-- An action on every element of a list that keeps a property of the state relates the elements to the
results one by one. -/
theorem mapM_forall₂ {keeps : σ → Prop} {related : α → β → Prop} {f : α → StateM σ β}
    (h : ∀ a, Leads (f a) keeps fun b state => related a b ∧ keeps state) (as : List α) :
    Leads (as.mapM f) keeps fun bs state => List.Forall₂ related as bs ∧ keeps state := by
  induction as with
  | nil => exact fun _ hstate => ⟨.nil, hstate⟩
  | cons a rest ih =>
    rw [List.mapM_cons]
    intro state hstate
    obtain ⟨hfirst, hmiddle⟩ := h a state hstate
    obtain ⟨hrest, hlast⟩ := ih _ hmiddle
    exact ⟨.cons hfirst hrest, hlast⟩

/-- An action for every element of a list keeps what each of the actions keeps. -/
theorem forM_keeps {keeps : σ → Prop} {f : α → StateM σ Unit}
    (h : ∀ a, Leads (f a) keeps fun _ state => keeps state) (as : List α) :
    Leads (as.forM f) keeps fun _ state => keeps state := by
  induction as with
  | nil => exact fun _ hstate => hstate
  | cons a rest ih => exact (h a).bind fun _ => ih

end Reassembly.Action
