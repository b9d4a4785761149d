/-!
# Readers

A reader takes a value off the front of a source, or finds a fault. Sources have a measure of what
is left in them; a reader that shrinks never leaves more than it found, and one that consumes
leaves less. Both properties survive sequencing, so a loop over a consuming reader ends by the
measure of its source.
-/

namespace Reassembly

/-- A source of which something is left. -/
class Source (σ : Type) where
  /-- How much is left. -/
  remaining : σ → Nat

/-- A byte string is used up byte by byte. -/
instance : Source (List UInt8) := ⟨List.length⟩

/-- A reading of a source: a value and what is left, or a fault. -/
abbrev Reader (ε σ α : Type) := StateT σ (Except ε) α

namespace Reader

variable {ε σ α β : Type}

/-- Refuse the source. -/
def refuse (fault : ε) : Reader ε σ α := fun _ => .error fault

/-- A reading followed by another comes apart into the two. -/
theorem bind_eq_ok {x : Reader ε σ α} {f : α → Reader ε σ β} {s u : σ} {b : β}
    (h : (x >>= f) s = .ok (b, u)) : ∃ a t, x s = .ok (a, t) ∧ f a t = .ok (b, u) := by
  change (x s >>= fun p => f p.1 p.2) = _ at h
  cases hx : x s with
  | error e => simp [hx, bind, Except.bind] at h
  | ok p => exact ⟨p.1, p.2, rfl, by simpa [hx, bind, Except.bind] using h⟩

/-- A reading followed by another gives what the two give. -/
theorem bind_of_ok {x : Reader ε σ α} {f : α → Reader ε σ β} {s t : σ} {a : α} (h : x s = .ok (a, t)) :
    (x >>= f) s = f a t := by
  show (x s >>= fun p => f p.1 p.2) = _
  rw [h]
  rfl

/-- A reading that is refused is followed by nothing. -/
theorem bind_of_error {x : Reader ε σ α} {f : α → Reader ε σ β} {s : σ} {fault : ε} (h : x s = .error fault) :
    (x >>= f) s = .error fault := by
  show (x s >>= fun p => f p.1 p.2) = _
  rw [h]
  rfl

/-- Readings that are the same are followed by the same. -/
theorem bind_congr {x : Reader ε σ α} {s t : σ} (h : x s = x t) (f : α → Reader ε σ β) : (x >>= f) s = (x >>= f) t := by
  show (x s >>= fun p => f p.1 p.2) = (x t >>= fun p => f p.1 p.2)
  rw [h]

/-- Reading nothing leaves everything. -/
theorem pure_eq_ok {a b : α} {s t : σ} (h : (Pure.pure a : Reader ε σ α) s = .ok (b, t)) :
    a = b ∧ s = t := by
  have same : (Except.ok (a, s) : Except ε (α × σ)) = .ok (b, t) := h
  simpa using same

variable [Source σ]

open Source

/-- A reading never leaves more than it found. -/
def Shrinks (x : Reader ε σ α) : Prop :=
  ∀ s a t, x s = .ok (a, t) → remaining t ≤ remaining s

/-- A reading leaves less than it found. -/
def Consumes (x : Reader ε σ α) : Prop :=
  ∀ s a t, x s = .ok (a, t) → remaining t < remaining s

/-- Reading nothing shrinks. -/
theorem Shrinks.pure (a : α) : Shrinks (Pure.pure a : Reader ε σ α) := by
  intro s b t h
  obtain ⟨-, rfl⟩ := pure_eq_ok h
  exact Nat.le_refl _

/-- Refusing shrinks. -/
theorem Shrinks.refuse (fault : ε) : Shrinks (refuse fault : Reader ε σ α) := by
  intro s b t h
  simp [Reader.refuse] at h

/-- Readings that shrink do so one after the other. -/
theorem Shrinks.bind {x : Reader ε σ α} {f : α → Reader ε σ β} (hx : Shrinks x)
    (hf : ∀ a, Shrinks (f a)) : Shrinks (x >>= f) := by
  intro s b u h
  obtain ⟨a, t, ha, hb⟩ := bind_eq_ok h
  exact Nat.le_trans (hf a t b u hb) (hx s a t ha)

/-- Refusing takes whatever one likes. -/
theorem Consumes.refuse (fault : ε) : Consumes (refuse fault : Reader ε σ α) := by
  intro s b t h
  simp [Reader.refuse] at h

/-- A reading that consumes still does when a shrinking one follows. -/
theorem Consumes.bind {x : Reader ε σ α} {f : α → Reader ε σ β} (hx : Consumes x)
    (hf : ∀ a, Shrinks (f a)) : Consumes (x >>= f) := by
  intro s b u h
  obtain ⟨a, t, ha, hb⟩ := bind_eq_ok h
  exact Nat.lt_of_le_of_lt (hf a t b u hb) (hx s a t ha)

/-- A reading that shrinks consumes when a consuming one follows. -/
theorem Shrinks.bind_consumes {x : Reader ε σ α} {f : α → Reader ε σ β} (hx : Shrinks x)
    (hf : ∀ a, Consumes (f a)) : Consumes (x >>= f) := by
  intro s b u h
  obtain ⟨a, t, ha, hb⟩ := bind_eq_ok h
  exact Nat.lt_of_lt_of_le (hf a t b u hb) (hx s a t ha)

/-- A reading that consumes shrinks. -/
theorem Consumes.shrinks {x : Reader ε σ α} (hx : Consumes x) : Shrinks x :=
  fun s a t h => Nat.le_of_lt (hx s a t h)

end Reader

end Reassembly
