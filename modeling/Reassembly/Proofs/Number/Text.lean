import Reassembly.Number.Text

/-!
# Whole numbers are read back

The decimal digits of a number are read as that number, and nothing but digits is read as a sequence of
digits.
-/

namespace Reassembly.Number

/-- Digits are read as the number that they write. -/
theorem digitsFrom_eq {chars : List Char} (h : ∀ c ∈ chars, c.isDigit = true) (value : Nat) :
    digitsFrom value chars = some (Nat.ofDigitChars 10 chars value) := by
  induction chars generalizing value with
  | nil => rfl
  | cons c rest ih =>
    have hdigit : digit? c = some (c.toNat - '0'.toNat) := if_pos (h c List.mem_cons_self)
    rw [digitsFrom, hdigit, Nat.ofDigitChars_cons, Nat.mul_comm 10]
    exact ih (fun d hd => h d (List.mem_cons_of_mem _ hd)) _

/-- A number is written in decimal digits. -/
theorem isDigit_of_mem_toDigits {n : Nat} {c : Char} (h : c ∈ Nat.toDigits 10 n) : c.isDigit = true :=
  Nat.isDigit_of_mem_toDigits (by decide) (by decide) h

/-- A number below the bound is read back from its decimal digits. -/
theorem natural?_toDigits {bound n : Nat} (h : n < bound) : natural? bound (Nat.toDigits 10 n) = some n := by
  have hdigits : ∀ c ∈ Nat.toDigits 10 n, c.isDigit = true := fun c => isDigit_of_mem_toDigits
  have hplus : (Nat.toDigits 10 n).head? ≠ some '+' := by
    intro hhead
    have hplus := hdigits '+' (List.mem_of_head? hhead)
    simp at hplus
  have hsome : (Nat.toDigits 10 n).isEmpty = false := by
    rw [List.isEmpty_eq_false_iff]
    exact Nat.toDigits_ne_nil
  rw [natural?, if_neg hplus, digits?, hsome, digitsFrom_eq hdigits, Nat.ofDigitChars_ten_toDigits]
  exact Option.filter_eq_some_iff.mpr ⟨rfl, by simpa using h⟩

/-- What is read as digits are digits, at least one. -/
theorem isDigit_of_digits? {chars : List Char} {n : Nat} (h : digits? chars = some n) :
    chars ≠ [] ∧ ∀ c ∈ chars, c.isDigit = true := by
  have hfrom : ∀ value, (digitsFrom value chars).isSome = true → ∀ c ∈ chars, c.isDigit = true := by
    clear h
    induction chars with
    | nil => simp
    | cons first rest ih =>
      intro value hvalue c hc
      rw [digitsFrom, digit?] at hvalue
      split at hvalue
      · next d hd =>
        rcases List.mem_cons.mp hc with rfl | hrest
        · exact (Option.ite_none_right_eq_some.mp hd).1
        · exact ih _ hvalue c hrest
      · simp at hvalue
  rw [digits?] at h
  split at h
  · simp at h
  · next hsome => exact ⟨by simpa using hsome, hfrom 0 (by simp [h])⟩

/-- The digits of a number other than zero do not start with zero. -/
theorem head?_toDigits_ne {n : Nat} (h : n ≠ 0) : (Nat.toDigits 10 n).head? ≠ some '0' := by
  induction n using Nat.strongRecOn with
  | ind n ih =>
    by_cases hsmall : n < 10
    · rw [Nat.toDigits_of_lt_base hsmall, List.head?_cons]
      exact (by decide : ∀ i : Fin 10, i.val ≠ 0 → some (Nat.digitChar i) ≠ some '0') ⟨n, hsmall⟩ h
    · have hsome : (Nat.toDigits 10 (n / 10)).head?.isSome = true := by
        rw [List.isSome_head?]
        exact Nat.toDigits_ne_nil
      rw [Nat.toDigits_of_base_le (by decide) (Nat.le_of_not_lt hsmall), List.head?_append, Option.or_of_isSome hsome]
      exact ih (n / 10) (by omega) (by omega)

end Reassembly.Number
