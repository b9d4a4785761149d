/-!
# Named values

A finite collection of values under names. Each name has one value; putting another under it takes
the place of the first, and the order in which names were first used is kept.
-/

namespace Reassembly

/-- Values under names. -/
structure Named (α : Type) where
  entries : List (String × α) := []
  deriving Repr, DecidableEq

namespace Named

variable {α : Type}

instance : Inhabited (Named α) := ⟨{}⟩

/-- The value under a name. -/
def get? (values : Named α) (name : String) : Option α := values.entries.lookup name

/-- Put a value under a name into a list of entries. -/
def putInto (name : String) (value : α) : List (String × α) → List (String × α)
  | [] => [(name, value)]
  | entry :: rest => if entry.1 = name then (name, value) :: rest else entry :: putInto name value rest

/-- Put a value under a name. -/
def put (values : Named α) (name : String) (value : α) : Named α :=
  ⟨putInto name value values.entries⟩

/-- Take away the value under a name. -/
def erase (values : Named α) (name : String) : Named α :=
  ⟨values.entries.filter fun entry => entry.1 ≠ name⟩

/-- A value that was put under a name is found there. -/
@[simp] theorem get?_put_self (values : Named α) (name : String) (value : α) :
    (values.put name value).get? name = some value := by
  obtain ⟨entries⟩ := values
  simp only [get?, put]
  induction entries with
  | nil => simp [putInto]
  | cons entry rest ih =>
    obtain ⟨other, found⟩ := entry
    by_cases h : other = name
    · simp [putInto, h]
    · simpa [putInto, h, List.lookup_cons, beq_eq_false_iff_ne.2 (Ne.symm h)] using ih

/-- Putting a value under one name leaves the others alone. -/
theorem get?_put_of_ne (values : Named α) {name other : String} (value : α) (h : other ≠ name) :
    (values.put name value).get? other = values.get? other := by
  obtain ⟨entries⟩ := values
  simp only [get?, put]
  induction entries with
  | nil => simp [putInto, h]
  | cons entry rest ih =>
    obtain ⟨first, found⟩ := entry
    by_cases same : first = name
    · simp [putInto, same, List.lookup_cons, beq_eq_false_iff_ne.2 h]
    · simp only [putInto, if_neg same, List.lookup_cons, ih]

end Named

end Reassembly
