import Mathlib.Tactic.Ring
import Mathlib.Tactic.Linarith
import Reassembly.Number.Binary

/-!
# How far rounding reaches

Rounding to a binary format keeps to powers of two: a quotient comes to at least such a power when it falls short of it
by no more than half of the last place below, for there the power lies next, and of two that are next it is the even
one. Beyond the largest power lies infinity, so what is infinite is told in the same way.
-/

namespace Reassembly.Number

/-- Rounding is cutting off, or one more. -/
theorem roundDiv_cases (num den : Nat) : roundDiv num den = num / den ∨ roundDiv num den = num / den + 1 := by
  rw [roundDiv]
  split_ifs <;> simp

/-- A rounded quotient comes to at least an even number when it falls short of it by half or less. -/
theorem le_roundDiv_iff {num den m : Nat} (hden : 0 < den) (heven : m % 2 = 0) :
    m ≤ roundDiv num den ↔ 2 * m * den ≤ 2 * num + den := by
  have hsplit := Nat.div_add_mod num den
  have hmod := Nat.mod_lt num hden
  generalize hq : num / den = q at *
  generalize hr : num % den = r at *
  have hround : roundDiv num den = if 2 * r < den ∨ 2 * r = den ∧ q % 2 = 0 then q else q + 1 := by
    simp only [roundDiv, hq, hr]
    split_ifs <;> omega
  rw [hround, ← hsplit]
  rcases Nat.lt_trichotomy m (q + 1) with hless | rfl | hmore
  · -- The quotient itself is large enough, and the number is no more than it.
    have hle : 2 * m * den ≤ 2 * q * den := Nat.mul_le_mul_right den (by omega)
    have hcomm : 2 * (den * q + r) = 2 * q * den + 2 * r := by ring
    constructor
    · intro
      omega
    · intro
      split_ifs <;> omega
  · have hcomm : 2 * (q + 1) * den = 2 * (den * q) + 2 * den := by ring
    rw [hcomm]
    constructor
    · intro hle
      split_ifs at hle with hdown
      · omega
      · have hup : den ≤ 2 * r := by
          by_contra hsmall
          exact hdown (.inl (by omega))
        omega
    · intro hle
      rw [if_neg]
      rintro (hsmall | ⟨-, hodd⟩) <;> omega
  · have hle : 2 * (q + 2) * den ≤ 2 * m * den := Nat.mul_le_mul_right den (by omega)
    have hcomm : 2 * (q + 2) * den = 2 * (den * q) + 4 * den := by ring
    constructor
    · intro
      split_ifs at * <;> omega
    · intro
      omega

/-- A number comes to at least so many of the smallest positive one of its format. -/
def Magnitude.Reaches (bound : Nat) : Magnitude → Prop
  | infinite => True
  | finite significand exponent => bound ≤ significand * 2 ^ exponent

namespace BinaryFormat

variable {format : BinaryFormat} {num den : Nat}

/-- The value of a number, counted in the smallest positive one. -/
theorem quotient_eq (format : BinaryFormat) (significand exponent : Nat) :
    format.quotient significand exponent = (significand * 2 ^ exponent, 2 ^ format.lowest) := rfl

/-- The value of a number is a quotient. -/
theorem quotient_pos (format : BinaryFormat) (significand exponent : Nat) :
    0 < (format.quotient significand exponent).2 := Nat.two_pow_pos format.lowest

/-- The number of places that rounding a quotient drops. -/
def dropped (format : BinaryFormat) (num den : Nat) : Nat :=
  (num * Nat.pow 2 format.lowest / den).log2 + 1 - format.precision

/-- What a quotient is rounded to, counted in the smallest positive number, as if there were no largest one. -/
def rounded (format : BinaryFormat) (num den : Nat) : Nat :=
  roundDiv (num * Nat.pow 2 format.lowest) (den * 2 ^ format.dropped num den) * 2 ^ format.dropped num den

/-- A quotient that is cut to its places lies below the power of two above them, and if any are dropped, not below the
next lower one. -/
theorem significand_bounds (hprecision : 0 < format.precision) (num den : Nat) :
    num * Nat.pow 2 format.lowest / (den * 2 ^ format.dropped num den) < 2 ^ format.precision ∧
      (0 < format.dropped num den →
        2 ^ (format.precision - 1) ≤ num * Nat.pow 2 format.lowest / (den * 2 ^ format.dropped num den)) := by
  rw [dropped, ← Nat.div_div_eq_div_mul]
  generalize num * Nat.pow 2 format.lowest / den = quotient
  constructor
  · rw [Nat.div_lt_iff_lt_mul (Nat.two_pow_pos _), ← Nat.pow_add]
    exact Nat.lt_of_lt_of_le Nat.lt_log2_self (Nat.pow_le_pow_right (by decide) (by omega))
  · intro hdropped
    have hne : quotient ≠ 0 := by
      rintro rfl
      simp at hdropped
      omega
    rw [Nat.le_div_iff_mul_le (Nat.two_pow_pos _), ← Nat.pow_add]
    exact (Nat.pow_le_pow_right (by decide) (by omega)).trans (Nat.log2_self_le hne)

/-- Rounding to a format is rounding without a largest number, and infinity where that comes to the power of two beyond
the largest number. -/
theorem round_cases (hprecision : 0 < format.precision) (num den : Nat) :
    format.round num den = .infinite ∧
        2 ^ (format.precision + (format.lowest + format.highest)) ≤ format.rounded num den ∨
      ∃ significand exponent, format.round num den = .finite significand exponent ∧
        significand * 2 ^ exponent = format.rounded num den ∧ significand < 2 ^ format.precision ∧
        format.rounded num den < 2 ^ (format.precision + (format.lowest + format.highest)) := by
  obtain ⟨hhigh, hlow⟩ := significand_bounds hprecision num den
  have hround : format.round num den = format.normalize
      (roundDiv (num * Nat.pow 2 format.lowest) (den * 2 ^ format.dropped num den)) (format.dropped num den) := rfl
  have hcases := roundDiv_cases (num * Nat.pow 2 format.lowest) (den * 2 ^ format.dropped num den)
  rw [hround, rounded]
  generalize roundDiv (num * Nat.pow 2 format.lowest) (den * 2 ^ format.dropped num den) = significand at *
  generalize format.dropped num den = places at *
  have hpow : Nat.pow 2 format.precision = 2 ^ format.precision := rfl
  rw [normalize, hpow]
  by_cases hcarry : significand = 2 ^ format.precision
  · have hhalf : 2 ^ format.precision / 2 = 2 ^ (format.precision - 1) := by
      rw [← Nat.pow_div (by omega) (by decide), Nat.pow_one]
    simp only [hcarry, if_true, hhalf]
    split
    · next hlarge =>
      refine .inl ⟨rfl, ?_⟩
      rw [← Nat.pow_add]
      exact Nat.pow_le_pow_right (by decide) (by omega)
    · next hsmall =>
      refine .inr ⟨_, _, rfl, ?_, Nat.pow_lt_pow_right (by decide) (by omega), ?_⟩
      · rw [← Nat.pow_add, ← Nat.pow_add]
        congr 1
        omega
      · rw [← Nat.pow_add]
        exact Nat.pow_lt_pow_right (by decide) (by omega)
  · have hless : significand < 2 ^ format.precision := by omega
    simp only [hcarry, if_false]
    split
    · next hlarge =>
      refine .inl ⟨rfl, ?_⟩
      have hfull : 2 ^ (format.precision - 1) ≤ significand := by
        have := hlow (by omega)
        omega
      refine le_trans ?_ (Nat.mul_le_mul_right _ hfull)
      rw [← Nat.pow_add]
      exact Nat.pow_le_pow_right (by decide) (by omega)
    · next hsmall =>
      refine .inr ⟨_, _, rfl, rfl, hless, ?_⟩
      refine lt_of_lt_of_le ((Nat.mul_lt_mul_right (Nat.two_pow_pos _)).mpr hless) ?_
      rw [← Nat.pow_add]
      exact Nat.pow_le_pow_right (by decide) (by omega)

section Powers

variable {places : Nat}

/-- A quotient of few places lies at least one power below, and is not rounded up to more than that. -/
theorem rounded_lt (hprecision : 0 < format.precision) (hden : 0 < den) (hfew : format.dropped num den ≤ places) :
    format.rounded num den < 2 ^ (format.precision + (places + 1)) ∧
      num * Nat.pow 2 format.lowest < (2 ^ (format.precision + (places + 1)) - 2 ^ places) * den := by
  obtain ⟨hhigh, -⟩ := significand_bounds hprecision num den
  have hcases := roundDiv_cases (num * Nat.pow 2 format.lowest) (den * 2 ^ format.dropped num den)
  have hdropped : 2 ^ format.dropped num den ≤ 2 ^ places := Nat.pow_le_pow_right (by decide) hfew
  have hpos : 0 < 2 ^ places := Nat.two_pow_pos places
  have hfull : 2 ^ places ≤ 2 ^ format.precision * 2 ^ places := Nat.le_mul_of_pos_left _ (Nat.two_pow_pos _)
  have htop : 2 ^ (format.precision + (places + 1)) = 2 * (2 ^ format.precision * 2 ^ places) := by ring
  have hnext : num * Nat.pow 2 format.lowest <
      (num * Nat.pow 2 format.lowest / (den * 2 ^ format.dropped num den) + 1) * (den * 2 ^ format.dropped num den) :=
    Nat.lt_mul_of_div_lt (Nat.lt_succ_self _) (Nat.mul_pos hden (Nat.two_pow_pos _))
  rw [rounded, htop]
  generalize roundDiv (num * Nat.pow 2 format.lowest) (den * 2 ^ format.dropped num den) = significand at *
  generalize num * Nat.pow 2 format.lowest = scaled at *
  generalize scaled / (den * 2 ^ format.dropped num den) = quotient at *
  generalize 2 ^ format.dropped num den = unit at *
  constructor
  · have hsignificand : significand * unit ≤ 2 ^ format.precision * 2 ^ places :=
      Nat.mul_le_mul (by omega) hdropped
    omega
  · have hlow : 2 ^ format.precision * 2 ^ places * den ≤
        (2 * (2 ^ format.precision * 2 ^ places) - 2 ^ places) * den := Nat.mul_le_mul_right den (by omega)
    have hhigh : (quotient + 1) * (den * unit) ≤ 2 ^ format.precision * (den * 2 ^ places) :=
      Nat.mul_le_mul (by omega) (Nat.mul_le_mul_left den hdropped)
    have hcomm : 2 ^ format.precision * (den * 2 ^ places) = 2 ^ format.precision * 2 ^ places * den := by ring
    omega

/-- A quotient of many places is at least the power, and rounding it is at least cutting it off. -/
theorem le_rounded (hprecision : 0 < format.precision) (hmany : places + 2 ≤ format.dropped num den) :
    2 ^ (format.precision + (places + 1)) ≤ format.rounded num den ∧
      (2 ^ (format.precision + (places + 1)) - 2 ^ places) * den ≤ num * Nat.pow 2 format.lowest := by
  obtain ⟨-, hlow⟩ := significand_bounds hprecision num den
  have hfull := hlow (by omega)
  have hcases := roundDiv_cases (num * Nat.pow 2 format.lowest) (den * 2 ^ format.dropped num den)
  have hdropped : 4 * 2 ^ places ≤ 2 ^ format.dropped num den :=
    (show 4 * 2 ^ places = 2 ^ (places + 2) by ring) ▸ Nat.pow_le_pow_right (by decide) hmany
  have htop : 2 ^ (format.precision + (places + 1)) = 2 ^ (format.precision - 1) * (4 * 2 ^ places) := by
    rw [show format.precision + (places + 1) = format.precision - 1 + (2 + places) by omega, Nat.pow_add, Nat.pow_add]
  have hquotient := Nat.div_mul_le_self (num * Nat.pow 2 format.lowest) (den * 2 ^ format.dropped num den)
  rw [rounded, htop]
  generalize roundDiv (num * Nat.pow 2 format.lowest) (den * 2 ^ format.dropped num den) = significand at *
  generalize num * Nat.pow 2 format.lowest = scaled at *
  generalize scaled / (den * 2 ^ format.dropped num den) = quotient at *
  generalize 2 ^ format.dropped num den = unit at *
  refine ⟨Nat.mul_le_mul (by omega) hdropped, ?_⟩
  calc (2 ^ (format.precision - 1) * (4 * 2 ^ places) - 2 ^ places) * den
      ≤ 2 ^ (format.precision - 1) * (4 * 2 ^ places) * den := Nat.mul_le_mul_right den (Nat.sub_le _ _)
    _ = 2 ^ (format.precision - 1) * (den * (4 * 2 ^ places)) := by ring
    _ ≤ quotient * (den * unit) := Nat.mul_le_mul hfull (Nat.mul_le_mul_left den hdropped)
    _ ≤ scaled := hquotient

/-- A quotient is rounded to at least a power of two when it falls short of it by no more than half of the last place
that is kept below. -/
theorem pow_le_rounded_iff (hprecision : 0 < format.precision) (hden : 0 < den) :
    2 ^ (format.precision + (places + 1)) ≤ format.rounded num den ↔
      (2 ^ (format.precision + (places + 1)) - 2 ^ places) * den ≤ num * Nat.pow 2 format.lowest := by
  rcases Nat.lt_trichotomy (format.dropped num den) (places + 1) with hfew | hequal | hmany
  · obtain ⟨hless, hlow⟩ := rounded_lt hprecision hden (Nat.le_of_lt_succ hfew)
    omega
  · -- The power is the first number with one place more, and its significand is even.
    have heven : 2 ^ format.precision % 2 = 0 := by
      obtain ⟨more, hmore⟩ := Nat.exists_eq_succ_of_ne_zero hprecision.ne'
      rw [hmore, Nat.pow_succ, Nat.mul_mod_left]
    have hleft : 2 * 2 ^ format.precision * (den * 2 ^ (places + 1)) =
        2 * (2 * (2 ^ format.precision * 2 ^ places) * den) := by ring
    have hright : den * 2 ^ (places + 1) = 2 * (2 ^ places * den) := by ring
    have htop : 2 ^ format.precision * 2 ^ (places + 1) = 2 * (2 ^ format.precision * 2 ^ places) := by ring
    rw [rounded, hequal, Nat.pow_add, Nat.mul_le_mul_right_iff (Nat.two_pow_pos _),
      le_roundDiv_iff (Nat.mul_pos hden (Nat.two_pow_pos _)) heven, hleft, hright, htop, Nat.sub_mul]
    omega
  · obtain ⟨hle, hhigh⟩ := le_rounded hprecision hmany
    exact iff_of_true hle hhigh

end Powers

/-- Numbers with so many places lie apart: what is below a power of two is below it by a last place. -/
theorem add_le_of_lt {significand exponent precision places : Nat} (hsignificand : significand < 2 ^ precision)
    (hless : significand * 2 ^ exponent < 2 ^ precision * 2 ^ places) :
    significand * 2 ^ exponent + 2 ^ places ≤ 2 ^ precision * 2 ^ places := by
  rcases Nat.le_total places exponent with hle | hle
  · obtain ⟨more, rfl⟩ := Nat.exists_eq_add_of_le hle
    have hsplit : significand * 2 ^ (places + more) = significand * 2 ^ more * 2 ^ places := by ring
    rw [hsplit] at hless ⊢
    have hfull : significand * 2 ^ more + 1 ≤ 2 ^ precision := Nat.lt_of_mul_lt_mul_right hless
    calc significand * 2 ^ more * 2 ^ places + 2 ^ places = (significand * 2 ^ more + 1) * 2 ^ places := by ring
      _ ≤ 2 ^ precision * 2 ^ places := Nat.mul_le_mul_right _ hfull
  · calc significand * 2 ^ exponent + 2 ^ places ≤ significand * 2 ^ places + 2 ^ places :=
          Nat.add_le_add_right (Nat.mul_le_mul_left _ (Nat.pow_le_pow_right (by decide) hle)) _
      _ = (significand + 1) * 2 ^ places := by ring
      _ ≤ 2 ^ precision * 2 ^ places := Nat.mul_le_mul_right _ hsignificand

/-- Whether the rounded quotient reaches a power of two of the format. -/
theorem reaches_round_iff (hprecision : 0 < format.precision) (hden : 0 < den) {places : Nat}
    (hplaces : places < format.lowest + format.highest) :
    (format.round num den).Reaches (2 ^ (format.precision + (places + 1))) ↔
      (2 ^ (format.precision + (places + 1)) - 2 ^ places) * den ≤ num * Nat.pow 2 format.lowest := by
  rw [← pow_le_rounded_iff hprecision hden]
  rcases round_cases hprecision num den with ⟨hinfinite, hlarge⟩ | ⟨significand, exponent, hfinite, hvalue, -, -⟩
  · rw [hinfinite]
    refine ⟨fun _ => le_trans (Nat.pow_le_pow_right (by decide) (by omega)) hlarge, fun _ => trivial⟩
  · rw [hfinite, Magnitude.Reaches, hvalue]

/-- Where a whole power of two begins, counted in the smallest positive number and as it stands. -/
theorem scaled_le_iff (num den precision places lowest : Nat) :
    2 ^ (precision + (places + lowest + 1)) = 2 ^ (precision + (places + 1)) * 2 ^ lowest ∧
      ((2 ^ (precision + (places + lowest + 1)) - 2 ^ (places + lowest)) * den ≤ num * Nat.pow 2 lowest ↔
        (2 ^ (precision + (places + 1)) - 2 ^ places) * den ≤ num) := by
  have htop : 2 ^ (precision + (places + lowest + 1)) = 2 ^ (precision + (places + 1)) * 2 ^ lowest := by ring
  have hcomm : (2 ^ (precision + (places + 1)) - 2 ^ places) * 2 ^ lowest * den =
      (2 ^ (precision + (places + 1)) - 2 ^ places) * den * 2 ^ lowest := by ring
  refine ⟨htop, ?_⟩
  rw [htop, Nat.pow_add 2 places, ← Nat.sub_mul, hcomm]
  exact Nat.mul_le_mul_right_iff (Nat.two_pow_pos lowest)

/-- Whether the rounded quotient reaches a whole power of two. -/
theorem reaches_round_whole_iff (hprecision : 0 < format.precision) (hden : 0 < den) {places : Nat}
    (hplaces : places < format.highest) :
    (format.round num den).Reaches (2 ^ (format.precision + (places + 1)) * 2 ^ format.lowest) ↔
      (2 ^ (format.precision + (places + 1)) - 2 ^ places) * den ≤ num := by
  obtain ⟨htop, hscaled⟩ := scaled_le_iff num den format.precision places format.lowest
  rw [← htop, reaches_round_iff hprecision hden (by omega), hscaled]

/-- A quotient is rounded to infinity when it reaches the power of two beyond the largest number. -/
theorem round_eq_infinite_iff (hprecision : 0 < format.precision) : format.round num den = .infinite ↔
    (format.round num den).Reaches (2 ^ (format.precision + (format.lowest + format.highest))) := by
  rcases round_cases hprecision num den with ⟨hinfinite, -⟩ | ⟨significand, exponent, hfinite, hvalue, -, hless⟩
  · simp [hinfinite, Magnitude.Reaches]
  · rw [hfinite, Magnitude.Reaches, hvalue]
    simpa using hless

/-- The numbers that are written in so many digits. -/
theorem width_bounds {digits : Nat} (hdigits : digits ≠ 0) :
    10 ^ ((Nat.toDigits 10 digits).length - 1) ≤ digits ∧ digits < 10 ^ (Nat.toDigits 10 digits).length := by
  have hpos : 0 < (Nat.toDigits 10 digits).length := Nat.length_toDigits_pos
  refine ⟨?_, (Nat.length_toDigits_le_iff (by decide) hpos).mp (Nat.le_refl _)⟩
  rcases Nat.lt_or_ge 1 (Nat.toDigits 10 digits).length with hmany | hone
  · by_contra hless
    have hle := (Nat.length_toDigits_le_iff (by decide) (by omega)).mpr (Nat.lt_of_not_le hless)
    omega
  · rw [show (Nat.toDigits 10 digits).length - 1 = 0 by omega]
    omega

/-- A format ends, at both its ends, within the powers of ten beyond which decimal numbers are not computed. -/
structure InReach (format : BinaryFormat) : Prop where
  precision_pos : 0 < format.precision
  lowest_le : 2 ^ format.lowest ≤ 10 ^ decimalReach
  highest_le : 2 ^ (format.precision + format.highest) ≤ 10 ^ decimalReach

section Decimal

variable {digits up down places : Nat}

/-- A decimal number that is not computed for its size is larger than all powers of two of the format. -/
theorem InReach.le_of_wide (h : format.InReach) (hplaces : places < format.lowest + format.highest)
    (hdigits : digits ≠ 0) (hwide : down + decimalReach < (Nat.toDigits 10 digits).length + up) :
    (2 ^ (format.precision + (places + 1)) - 2 ^ places) * 10 ^ down ≤ digits * 10 ^ up * 2 ^ format.lowest := by
  have hlow := (width_bounds hdigits).1
  have hpos : 0 < (Nat.toDigits 10 digits).length := Nat.length_toDigits_pos
  generalize (Nat.toDigits 10 digits).length = width at *
  calc (2 ^ (format.precision + (places + 1)) - 2 ^ places) * 10 ^ down
      ≤ 2 ^ (format.precision + format.highest + format.lowest) * 10 ^ down :=
        Nat.mul_le_mul_right _ ((Nat.sub_le _ _).trans (Nat.pow_le_pow_right (by decide) (by omega)))
    _ = 2 ^ (format.precision + format.highest) * 10 ^ down * 2 ^ format.lowest := by ring
    _ ≤ 10 ^ decimalReach * 10 ^ down * 2 ^ format.lowest :=
        Nat.mul_le_mul_right _ (Nat.mul_le_mul_right _ h.highest_le)
    _ = 10 ^ (decimalReach + down) * 2 ^ format.lowest := by ring
    _ ≤ 10 ^ (width - 1 + up) * 2 ^ format.lowest :=
        Nat.mul_le_mul_right _ (Nat.pow_le_pow_right (by decide) (by omega))
    _ ≤ digits * 10 ^ up * 2 ^ format.lowest := by
        rw [Nat.pow_add]
        exact Nat.mul_le_mul_right _ (Nat.mul_le_mul_right _ hlow)

/-- A decimal number that is not computed for its smallness is less than all of them. -/
theorem InReach.lt_of_narrow (h : format.InReach) (hdigits : digits ≠ 0)
    (hnarrow : (Nat.toDigits 10 digits).length + up + decimalReach < down) :
    digits * 10 ^ up * 2 ^ format.lowest < (2 ^ (format.precision + (places + 1)) - 2 ^ places) * 10 ^ down := by
  have hhigh := (width_bounds hdigits).2
  have hless : 2 ^ places < 2 ^ (format.precision + (places + 1)) := Nat.pow_lt_pow_right (by decide) (by omega)
  generalize (Nat.toDigits 10 digits).length = width at *
  calc digits * 10 ^ up * 2 ^ format.lowest
      < 10 ^ width * 10 ^ up * 2 ^ format.lowest :=
        Nat.mul_lt_mul_of_pos_right (Nat.mul_lt_mul_of_pos_right hhigh (Nat.pow_pos (by decide))) (Nat.two_pow_pos _)
    _ ≤ 10 ^ width * 10 ^ up * 10 ^ decimalReach := Nat.mul_le_mul_left _ h.lowest_le
    _ = 10 ^ (width + up + decimalReach) := by ring
    _ ≤ 10 ^ down := Nat.pow_le_pow_right (by decide) (by omega)
    _ ≤ (2 ^ (format.precision + (places + 1)) - 2 ^ places) * 10 ^ down := Nat.le_mul_of_pos_left _ (by omega)

/-- Whether a decimal number reaches a power of two of the format, when it is rounded. -/
theorem InReach.reaches_ofDecimal_iff (h : format.InReach) (hplaces : places < format.lowest + format.highest) :
    (format.ofDecimal digits up down).Reaches (2 ^ (format.precision + (places + 1))) ↔
      (2 ^ (format.precision + (places + 1)) - 2 ^ places) * 10 ^ down ≤
        digits * 10 ^ up * Nat.pow 2 format.lowest := by
  have hten : ∀ n, 0 < 10 ^ n := fun n => Nat.pow_pos (by decide)
  have hpow : ∀ n, Nat.pow 10 n = 10 ^ n := fun _ => rfl
  have hlowest : Nat.pow 2 format.lowest = 2 ^ format.lowest := rfl
  have hplace : 0 < 2 ^ places := Nat.two_pow_pos places
  have hless : 2 ^ places < 2 ^ (format.precision + (places + 1)) := Nat.pow_lt_pow_right (by decide) (by omega)
  rw [ofDecimal]
  by_cases hzero : digits = 0
  · have hpos : 0 < (2 ^ (format.precision + (places + 1)) - 2 ^ places) * 10 ^ down :=
      Nat.mul_pos (by omega) (hten down)
    simp only [hzero, if_true, Magnitude.Reaches, Nat.zero_mul]
    omega
  simp only [hzero, if_false, hpow]
  split
  · next hwide => exact iff_of_true trivial (h.le_of_wide hplaces hzero hwide)
  split
  · next hnarrow =>
    simp only [Magnitude.Reaches, Nat.zero_mul]
    exact iff_of_false (by omega) (Nat.not_le.mpr (h.lt_of_narrow hzero hnarrow))
  split
  · next hup =>
    have hsplit : digits * 10 ^ up * 2 ^ format.lowest =
        digits * 10 ^ (up - down) * 2 ^ format.lowest * 10 ^ down := by
      rw [← Nat.sub_add_cancel hup, Nat.pow_add, Nat.add_sub_cancel]
      ring
    rw [reaches_round_iff h.precision_pos (by decide) hplaces, hlowest, hsplit, Nat.mul_one,
      Nat.mul_le_mul_right_iff (hten down)]
  · next hdown =>
    have hsplit : (2 ^ (format.precision + (places + 1)) - 2 ^ places) * 10 ^ down =
        (2 ^ (format.precision + (places + 1)) - 2 ^ places) * 10 ^ (down - up) * 10 ^ up := by
      rw [Nat.mul_assoc, ← Nat.pow_add, Nat.sub_add_cancel (by omega)]
    have hcomm : digits * 10 ^ up * 2 ^ format.lowest = digits * 2 ^ format.lowest * 10 ^ up := by ring
    rw [reaches_round_iff h.precision_pos (hten _) hplaces, hlowest, hsplit, hcomm, Nat.mul_le_mul_right_iff (hten up)]

/-- Whether a decimal number reaches a whole power of two, when it is rounded. -/
theorem InReach.reaches_ofDecimal_whole_iff (h : format.InReach)
    (hplaces : places < format.highest) :
    (format.ofDecimal digits up down).Reaches (2 ^ (format.precision + (places + 1)) * 2 ^ format.lowest) ↔
      (2 ^ (format.precision + (places + 1)) - 2 ^ places) * 10 ^ down ≤ digits * 10 ^ up := by
  obtain ⟨htop, hscaled⟩ := scaled_le_iff (digits * 10 ^ up) (10 ^ down) format.precision places format.lowest
  rw [← htop, h.reaches_ofDecimal_iff (by omega), hscaled]

/-- A decimal number is rounded to infinity when it comes as close to the power of two beyond the largest number as to
the largest number. -/
theorem InReach.ofDecimal_eq_infinite_iff (h : format.InReach)
    (hplaces : format.highest = places + 1) :
    format.ofDecimal digits up down = .infinite ↔
      (2 ^ (format.precision + (places + 1)) - 2 ^ places) * 10 ^ down ≤ digits * 10 ^ up := by
  have hbeyond : format.ofDecimal digits up down = .infinite ↔
      (format.ofDecimal digits up down).Reaches (2 ^ (format.precision + (format.lowest + format.highest))) := by
    rw [ofDecimal]
    split_ifs
    · simp [Magnitude.Reaches]
    · simp [Magnitude.Reaches]
    · simp [Magnitude.Reaches]
    · exact round_eq_infinite_iff h.precision_pos
    · exact round_eq_infinite_iff h.precision_pos
  obtain ⟨htop, -⟩ := scaled_le_iff 0 0 format.precision places format.lowest
  rw [hbeyond, show format.lowest + format.highest = places + format.lowest + 1 by omega, htop,
    h.reaches_ofDecimal_whole_iff (by omega)]

/-- The significand of a rounded decimal number has the places of the format. -/
theorem InReach.significand_lt (h : format.InReach) {significand exponent : Nat}
    (hfinite : format.ofDecimal digits up down = .finite significand exponent) :
    significand < 2 ^ format.precision := by
  have hround : ∀ num den, format.round num den = .finite significand exponent →
      significand < 2 ^ format.precision := by
    intro num den hround
    rcases round_cases h.precision_pos num den with ⟨hinfinite, -⟩ | ⟨_, _, hother, -, hless, -⟩
    · simp [hround] at hinfinite
    · obtain ⟨rfl, -⟩ := Magnitude.finite.inj (hround.symm.trans hother)
      exact hless
  rw [ofDecimal] at hfinite
  split_ifs at hfinite
  · obtain ⟨rfl, -⟩ := Magnitude.finite.inj hfinite
    exact Nat.two_pow_pos _
  · obtain ⟨rfl, -⟩ := Magnitude.finite.inj hfinite
    exact Nat.two_pow_pos _
  · exact hround _ _ hfinite
  · exact hround _ _ hfinite

end Decimal

end BinaryFormat

/-- The powers of two that a power of ten exceeds. -/
theorem two_pow_le_ten_pow {n m : Nat} (h : n ≤ 3 * m) : 2 ^ n ≤ 10 ^ m :=
  calc 2 ^ n ≤ 2 ^ (3 * m) := Nat.pow_le_pow_right (by decide) h
    _ = 8 ^ m := Nat.pow_mul 2 3 m
    _ ≤ 10 ^ m := Nat.pow_le_pow_left (by decide) m

/-- Numbers of 64 bits are in reach. -/
theorem inReach_binary64 : binary64.InReach where
  precision_pos := by decide
  lowest_le := two_pow_le_ten_pow (by decide)
  highest_le := two_pow_le_ten_pow (by decide)

end Reassembly.Number
