import Mathlib.Data.List.Forall2

/-!
# Results in sequence

A computation that may fail goes on only while it succeeds. These are the inversions of that rule: for
two computations one after the other, and for one computation over a list, whose first failure is the
failure of the whole.
-/

namespace Reassembly.Result

variable {ε α β : Type}

/-- Two computations in sequence succeed when both do. -/
theorem bind_eq_ok_iff {x : Except ε α} {f : α → Except ε β} {b : β} :
    x >>= f = .ok b ↔ ∃ a, x = .ok a ∧ f a = .ok b := by
  cases x <;> simp [bind, Except.bind]

/-- Two computations in sequence fail when the first does, or the second after it. -/
theorem bind_eq_error_iff {x : Except ε α} {f : α → Except ε β} {e : ε} :
    x >>= f = .error e ↔ x = .error e ∨ ∃ a, x = .ok a ∧ f a = .error e := by
  cases x <;> simp [bind, Except.bind]

/-- A success goes on. -/
@[simp] theorem ok_bind (a : α) (f : α → Except ε β) : Except.ok a >>= f = f a := rfl

/-- A failure stays. -/
@[simp] theorem error_bind (e : ε) (f : α → Except ε β) : Except.error e >>= f = .error e := rfl

/-- Throwing is failing. -/
@[simp] theorem throw_eq_error (e : ε) : (throw e : Except ε α) = .error e := rfl

/-- Returning is succeeding. -/
@[simp] theorem pure_eq_ok (a : α) : (pure a : Except ε α) = .ok a := rfl

/-- A changed result is a success when the result is. -/
theorem map_eq_ok_iff {x : Except ε α} {f : α → β} {b : β} :
    x.map f = .ok b ↔ ∃ a, x = .ok a ∧ f a = b := by
  cases x <;> simp [Except.map]

/-- A changed result is a failure when the result is. -/
theorem map_eq_error_iff {x : Except ε α} {f : α → β} {e : ε} : x.map f = .error e ↔ x = .error e := by
  cases x <;> simp [Except.map]

/-- A result with a changed error is a failure when the result is. -/
theorem mapError_eq_error_iff {ε' : Type} {x : Except ε α} {f : ε → ε'} {e : ε'} :
    x.mapError f = .error e ↔ ∃ cause, x = .error cause ∧ f cause = e := by
  cases x <;> simp [Except.mapError]

/-- Changing the error of a result leaves its success alone. -/
theorem mapError_eq_ok_iff {ε' : Type} {x : Except ε α} {f : ε → ε'} {a : α} :
    x.mapError f = .ok a ↔ x = .ok a := by
  cases x <;> simp [Except.mapError]

/-- A list is computed element by element. -/
theorem mapM_cons (f : α → Except ε β) (a : α) (rest : List α) :
    (a :: rest).mapM f = (f a >>= fun b => rest.mapM f >>= fun bs => .ok (b :: bs)) := by
  rw [List.mapM_cons]
  rfl

/-- A list succeeds when each of its elements does. -/
theorem mapM_eq_ok_iff {f : α → Except ε β} {as : List α} {bs : List β} :
    as.mapM f = .ok bs ↔ List.Forall₂ (fun a b => f a = .ok b) as bs := by
  induction as generalizing bs with
  | nil => simp [eq_comm]
  | cons a rest ih =>
    rw [mapM_cons, bind_eq_ok_iff]
    constructor
    · rintro ⟨b, hb, h⟩
      obtain ⟨later, hlater, hbs⟩ := bind_eq_ok_iff.mp h
      obtain rfl : b :: later = bs := by simpa using hbs
      exact .cons hb (ih.mp hlater)
    · rintro (_ | ⟨hb, hrest⟩)
      exact ⟨_, hb, by rw [ih.mpr hrest]; rfl⟩

/-- A list fails with the failure of its first element that fails. -/
theorem mapM_eq_error_iff {f : α → Except ε β} {as : List α} {e : ε} :
    as.mapM f = .error e ↔
      ∃ before a after, as = before ++ a :: after ∧ (∀ x ∈ before, ∃ b, f x = .ok b) ∧
        f a = .error e := by
  induction as with
  | nil => simp
  | cons first rest ih =>
    rw [mapM_cons]
    cases hfirst : f first with
    | error other =>
      constructor
      · intro h
        obtain rfl : other = e := by simpa using h
        exact ⟨[], first, rest, rfl, by simp, hfirst⟩
      · rintro ⟨before, a, after, has, hbefore, ha⟩
        cases before with
        | nil =>
          obtain ⟨rfl, -⟩ : first = a ∧ rest = after := by simpa using has
          simpa [hfirst] using ha
        | cons b before =>
          obtain ⟨rfl, -⟩ : first = b ∧ rest = before ++ a :: after := by simpa using has
          obtain ⟨c, hc⟩ := hbefore first (by simp)
          simp [hfirst] at hc
    | ok b =>
      rw [ok_bind, bind_eq_error_iff]
      simp only [reduceCtorEq, and_false, exists_false, or_false, ih]
      constructor
      · rintro ⟨before, a, after, rfl, hbefore, ha⟩
        refine ⟨first :: before, a, after, rfl, ?_, ha⟩
        intro x hx
        rcases List.mem_cons.mp hx with rfl | hx
        · exact ⟨b, hfirst⟩
        · exact hbefore x hx
      · rintro ⟨before, a, after, has, hbefore, ha⟩
        cases before with
        | nil =>
          obtain ⟨rfl, -⟩ : first = a ∧ rest = after := by simpa using has
          simp [hfirst] at ha
        | cons c before =>
          obtain ⟨rfl, rfl⟩ : first = c ∧ rest = before ++ a :: after := by simpa using has
          exact ⟨before, a, after, rfl, fun x hx => hbefore x (by simp [hx]), ha⟩

/-- When a list succeeds, so does each of its elements. -/
theorem exists_ok_of_mapM {f : α → Except ε β} {as : List α} {bs : List β} (h : as.mapM f = .ok bs) {a : α}
    (hmem : a ∈ as) : ∃ b, f a = .ok b := by
  have hall := mapM_eq_ok_iff.mp h
  clear h
  induction hall with
  | nil => simp at hmem
  | cons hfirst _ ih =>
    rcases List.mem_cons.mp hmem with rfl | hmem
    · exact ⟨_, hfirst⟩
    · exact ih hmem

/-- When every element of a list succeeds, so does the list. -/
theorem exists_mapM_eq_ok {f : α → Except ε β} {as : List α} (h : ∀ a ∈ as, ∃ b, f a = .ok b) :
    ∃ bs, as.mapM f = .ok bs := by
  cases hresult : as.mapM f with
  | ok bs => exact ⟨bs, rfl⟩
  | error e =>
    obtain ⟨before, a, after, hsplit, -, hfails⟩ := mapM_eq_error_iff.mp hresult
    obtain ⟨b, hb⟩ := h a (by rw [hsplit]; simp)
    simp [hfails] at hb

/-- Computing a list in two rounds, of which the first succeeds, is computing it in one. -/
theorem mapM_eq_mapM_bind {γ : Type} {f : α → Except ε β} {g : β → Except ε γ} {as : List α} {bs : List β}
    (h : as.mapM f = .ok bs) : bs.mapM g = as.mapM fun a => f a >>= g := by
  have hall := mapM_eq_ok_iff.mp h
  clear h
  induction hall with
  | nil => rfl
  | cons hfirst _ ih => rw [mapM_cons, mapM_cons, hfirst, ok_bind, ih]

/-- A list of successes succeeds with what they have. -/
theorem mapM_map_ok (as : List α) : (as.map fun a => (.ok a : Except ε α)).mapM id = .ok as := by
  rw [mapM_eq_ok_iff, List.forall₂_map_left_iff]
  exact List.forall₂_same.mpr fun _ _ => rfl

end Reassembly.Result
