import Reassembly.Duration
import Reassembly.Proofs.Number.Binary
import Reassembly.Proofs.Number.Grammar
import Reassembly.Proofs.Text.Split

/-!
# Which texts write durations

A text that writes a number of units writes a duration, unless the span is too long. The number is one of 64 bits, and
so is the span in seconds, so that 2^64 seconds are reached by all spans that fall short of them by no more than 2^10
seconds: these lie as close to 2^64 as to the number of 64 bits below. All other texts write nothing.
-/

namespace Reassembly.Duration

open Number

variable {text : String} {significand exponent : Nat} {unit : Nat × Nat}

/-- A text spells a number of units: between the blanks at its ends, a decimal number without an exponent, and behind
it the name of the unit. -/
def Spells (text : String) (significand exponent : Nat) (unit : Nat × Nat) : Prop :=
  -- The number goes as far as digits and points do, so that no other split of the text counts.
  ∃ number rest, Text.trim text.toList = number ++ rest ∧ (∀ c ∈ number, c.isDigit = true ∨ c = '.') ∧
    (∀ c, rest.head? = some c → ¬ (c.isDigit = true ∨ c = '.')) ∧
    IsDecimal binary64 number (.finite significand exponent) ∧ unit? (String.ofList (Text.trim rest)) = some unit

/-- The number of seconds from which on a span is rounded to no less than 2^64 of them. -/
def limit : Nat := 0x10000000000000000 - 0x400

/-- So many units are at least as many seconds as the limit. -/
def Exceeds (significand exponent : Nat) (unit : Nat × Nat) : Prop :=
  limit * ((binary64.quotient significand exponent).2 * unit.2) ≤ (binary64.quotient significand exponent).1 * unit.1

/-- A text spells a span that is too long to be a duration. -/
def Overlong (text : String) : Prop :=
  ∃ significand exponent unit, Spells text significand exponent unit ∧ Exceeds significand exponent unit

/-- A text writes a duration: the span that it spells, in seconds of 64 bits, is rounded to the nearest nanosecond. -/
def Writes (text : String) (duration : Duration) : Prop :=
  ∃ significand exponent unit, Spells text significand exponent unit ∧ ¬ Exceeds significand exponent unit ∧
    ∃ rounded places, inSeconds significand exponent unit = .finite rounded places ∧
      duration = ⟨roundDiv ((binary64.quotient rounded places).1 * perSecond) (binary64.quotient rounded places).2⟩

/-- A text spells what is read of its parts. -/
theorem spells_iff :
    Spells text significand exponent unit ↔
      decimal? binary64 ((Text.trim text.toList).takeWhile fun c => c.isDigit || c = '.') =
          some (.finite significand exponent) ∧
        unit? (String.ofList (Text.trim ((Text.trim text.toList).dropWhile fun c => c.isDigit || c = '.'))) =
          some unit := by
  constructor
  · rintro ⟨number, rest, hsplit, hnumber, hrest, hdecimal, hunit⟩
    obtain ⟨htake, hdrop⟩ : (number ++ rest).takeWhile (fun c => c.isDigit || c = '.') = number ∧
        (number ++ rest).dropWhile (fun c => c.isDigit || c = '.') = rest :=
      span_append (by simpa using hnumber) fun c hc => by simpa using hrest c hc
    rw [hsplit, htake, hdrop]
    exact ⟨decimal?_eq_some_iff.mpr hdecimal, hunit⟩
  · rintro ⟨hdecimal, hunit⟩
    refine ⟨_, _, List.takeWhile_append_dropWhile.symm, fun c hc => ?_, fun c hc => ?_,
      decimal?_eq_some_iff.mp hdecimal, hunit⟩
    · simpa using List.mem_takeWhile_imp hc
    · have hend := List.head?_dropWhile_not (fun c : Char => c.isDigit || c = '.') (Text.trim text.toList)
      rw [hc] at hend
      simpa using hend

/-- A text spells one span at most. -/
theorem Spells.unique (h : Spells text significand exponent unit) {significand' exponent' : Nat} {unit' : Nat × Nat}
    (h' : Spells text significand' exponent' unit') :
    significand = significand' ∧ exponent = exponent' ∧ unit = unit' := by
  obtain ⟨hdecimal, hunit⟩ := spells_iff.mp h
  obtain ⟨hdecimal', hunit'⟩ := spells_iff.mp h'
  obtain ⟨rfl, rfl⟩ := Magnitude.finite.inj (Option.some.inj (hdecimal.symm.trans hdecimal'))
  exact ⟨rfl, rfl, Option.some.inj (hunit.symm.trans hunit')⟩

/-- No unit divides by zero. -/
theorem unit_pos {name : String} (h : unit? name = some unit) : 0 < unit.2 := by
  rw [unit?] at h
  split_ifs at h <;>
  · obtain rfl := Option.some.inj h
    decide

/-- A number of units is scaled to seconds and rounded. -/
theorem inSeconds_eq (significand exponent : Nat) (unit : Nat × Nat) : inSeconds significand exponent unit =
    binary64.round ((binary64.quotient significand exponent).1 * unit.1)
      ((binary64.quotient significand exponent).2 * unit.2) := by
  rw [inSeconds]

/-- A span exceeds the limit when it is rounded to 2^64 seconds or more. -/
theorem exceeds_iff (hunit : 0 < unit.2) :
    Exceeds significand exponent unit ↔
      (inSeconds significand exponent unit).Reaches (0x10000000000000000 * 2 ^ binary64.lowest) := by
  have hden : 0 < (binary64.quotient significand exponent).2 * unit.2 :=
    Nat.mul_pos (binary64.quotient_pos significand exponent) hunit
  have hplaces : 10 < binary64.highest := by decide
  have hpow : 2 ^ (binary64.precision + (10 + 1)) = 0x10000000000000000 := by decide
  have hlimit : 0x10000000000000000 - 2 ^ 10 = limit := by decide
  rw [inSeconds_eq, ← hpow, BinaryFormat.reaches_round_whole_iff inReach_binary64.precision_pos hden hplaces, hpow,
    hlimit, Exceeds]

/-- A number of 64 bits that lies below 2^64 lies below it by 2^11 or more. -/
theorem add_le_of_lt (exponent lowest : Nat) (hplaces : significand < 2 ^ 53)
    (hless : significand * 2 ^ exponent < 0x10000000000000000 * 2 ^ lowest) :
    significand * 2 ^ exponent + 0x800 * 2 ^ lowest ≤ 0x10000000000000000 * 2 ^ lowest := by
  have htop : 2 ^ 53 * 2 ^ (11 + lowest) = 0x10000000000000000 * 2 ^ lowest := by rw [Nat.pow_add]; ring
  have hplace : 2 ^ (11 + lowest) = 0x800 * 2 ^ lowest := by rw [Nat.pow_add]
  rw [← htop] at hless ⊢
  rw [← hplace]
  exact BinaryFormat.add_le_of_lt hplaces hless

/-- As many nanoseconds as 2^64 seconds are made by no fewer seconds of 64 bits, whatever is rounded. -/
theorem le_nanoseconds_iff {lowest : Nat} (hplaces : significand < 2 ^ 53) :
    0x10000000000000000 * perSecond ≤ roundDiv (significand * 2 ^ exponent * perSecond) (2 ^ lowest) ↔
      0x10000000000000000 * 2 ^ lowest ≤ significand * 2 ^ exponent := by
  have hpos : 0 < 2 ^ lowest := Nat.two_pow_pos lowest
  -- Rounding to nanoseconds moves a value by half of one at most, and the gap below 2^64 is 2^11 seconds wide.
  have hgap := add_le_of_lt exponent lowest hplaces
  rw [le_roundDiv_iff hpos (by decide), perSecond]
  generalize significand * 2 ^ exponent = value at *
  generalize 2 ^ lowest = unit at *
  omega

/-- A number of seconds makes a duration unless it reaches 2^64. -/
theorem ofFloating_finite (hplaces : significand < 2 ^ binary64.precision) :
    ofFloating (.finite significand exponent) =
      if 0x10000000000000000 * 2 ^ binary64.lowest ≤ significand * 2 ^ exponent then .error .mk
      else .ok ⟨roundDiv ((binary64.quotient significand exponent).1 * perSecond)
        (binary64.quotient significand exponent).2⟩ := by
  have hlong : ∀ nanoseconds, longest.nanoseconds < nanoseconds ↔ 0x10000000000000000 * perSecond ≤ nanoseconds := by
    intro nanoseconds
    have hlongest : longest.nanoseconds = 0x10000000000000000 * perSecond - 1 := rfl
    rw [hlongest, perSecond]
    omega
  have hvalue : binary64.quotient significand exponent = (significand * 2 ^ exponent, 2 ^ binary64.lowest) :=
    BinaryFormat.quotient_eq binary64 significand exponent
  rw [ofFloating, hvalue]
  simp only [hlong, le_nanoseconds_iff hplaces]

/-- A span that exceeds the limit is too long, and another one is rounded to nanoseconds. -/
theorem ofFloating_inSeconds (hunit : 0 < unit.2) :
    Exceeds significand exponent unit ∧ ofFloating (inSeconds significand exponent unit) = .error .mk ∨
      ¬ Exceeds significand exponent unit ∧ ∃ rounded places,
        inSeconds significand exponent unit = .finite rounded places ∧
          ofFloating (inSeconds significand exponent unit) =
            .ok ⟨roundDiv ((binary64.quotient rounded places).1 * perSecond) (binary64.quotient rounded places).2⟩ := by
  have hcases := BinaryFormat.round_cases inReach_binary64.precision_pos
    ((binary64.quotient significand exponent).1 * unit.1) ((binary64.quotient significand exponent).2 * unit.2)
  rw [exceeds_iff hunit]
  rcases hcases with ⟨hinfinite, -⟩ | ⟨rounded, places, hfinite, -, hless, -⟩
  · rw [inSeconds_eq, hinfinite]
    exact .inl ⟨trivial, rfl⟩
  · rw [inSeconds_eq, hfinite, ofFloating_finite hless, Magnitude.Reaches]
    by_cases hlong : 0x10000000000000000 * 2 ^ binary64.lowest ≤ rounded * 2 ^ places
    · exact .inl ⟨hlong, if_pos hlong⟩
    · exact .inr ⟨hlong, rounded, places, rfl, if_neg hlong⟩

/-- The span that a text spells is scaled and rounded. -/
theorem read_of_spells (h : Spells text significand exponent unit) :
    read text = (ofFloating (inSeconds significand exponent unit)).map some := by
  obtain ⟨hdecimal, hunit⟩ := spells_iff.mp h
  rw [read]
  simp only [hdecimal, hunit]

/-- Nothing is read of a text that spells no span. -/
theorem read_of_not_spells (h : ∀ significand exponent unit, ¬ Spells text significand exponent unit) :
    read text = .ok none := by
  rw [read]
  split
  · next hdecimal hunit => exact absurd (spells_iff.mpr ⟨hdecimal, hunit⟩) (h _ _ _)
  · rfl

/-- A span that is too long is no duration. -/
theorem Writes.not_overlong {duration : Duration} (h : Writes text duration) : ¬ Overlong text := by
  obtain ⟨_, _, _, hspells, hshort, -⟩ := h
  rintro ⟨_, _, _, hspells', hlong⟩
  obtain ⟨rfl, rfl, rfl⟩ := hspells.unique hspells'
  exact hshort hlong

/-- A text writes one duration at most. -/
theorem Writes.unique {duration duration' : Duration} (h : Writes text duration) (h' : Writes text duration') :
    duration = duration' := by
  obtain ⟨_, _, _, hspells, -, rounded, places, hfinite, rfl⟩ := h
  obtain ⟨_, _, _, hspells', -, rounded', places', hfinite', rfl⟩ := h'
  obtain ⟨rfl, rfl, rfl⟩ := hspells.unique hspells'
  obtain ⟨rfl, rfl⟩ := Magnitude.finite.inj (hfinite.symm.trans hfinite')
  rfl

/-- What is read of any text. -/
theorem read_cases (text : String) :
    Overlong text ∧ read text = .error .mk ∨
      (∃ duration, Writes text duration ∧ read text = .ok (some duration)) ∨
      (∀ significand exponent unit, ¬ Spells text significand exponent unit) ∧ read text = .ok none := by
  by_cases hspells : ∃ significand exponent unit, Spells text significand exponent unit
  · obtain ⟨significand, exponent, unit, hspells⟩ := hspells
    rw [read_of_spells hspells]
    rcases ofFloating_inSeconds (unit_pos (spells_iff.mp hspells).2) with
      ⟨hlong, herror⟩ | ⟨hshort, rounded, places, hfinite, hok⟩
    · rw [herror]
      exact .inl ⟨⟨significand, exponent, unit, hspells, hlong⟩, rfl⟩
    · rw [hok]
      exact .inr (.inl ⟨_, ⟨significand, exponent, unit, hspells, hshort, rounded, places, hfinite, rfl⟩, rfl⟩)
  · have hnone : ∀ significand exponent unit, ¬ Spells text significand exponent unit :=
      fun significand exponent unit h => hspells ⟨significand, exponent, unit, h⟩
    exact .inr (.inr ⟨hnone, read_of_not_spells hnone⟩)

/-- Reading a text fails when the span that it spells is too long. -/
theorem read_eq_error_iff : read text = .error .mk ↔ Overlong text := by
  rcases read_cases text with ⟨hlong, hread⟩ | ⟨duration, hwrites, hread⟩ | ⟨hnone, hread⟩
  · exact iff_of_true hread hlong
  · exact iff_of_false (by simp [hread]) hwrites.not_overlong
  · exact iff_of_false (by simp [hread]) fun ⟨_, _, _, hspells, _⟩ => hnone _ _ _ hspells

/-- Reading a text finds the duration that it writes. -/
theorem read_eq_some_iff {duration : Duration} : read text = .ok (some duration) ↔ Writes text duration := by
  rcases read_cases text with ⟨hlong, hread⟩ | ⟨found, hwrites, hread⟩ | ⟨hnone, hread⟩
  · exact iff_of_false (by simp [hread]) fun hwrites => hwrites.not_overlong hlong
  · rw [hread]
    constructor
    · intro h
      obtain rfl := Option.some.inj (Except.ok.inj h)
      exact hwrites
    · intro h
      rw [hwrites.unique h]
  · exact iff_of_false (by simp [hread]) fun ⟨_, _, _, hspells, _⟩ => hnone _ _ _ hspells

section Seconds

/-- Decimal seconds exceed the limit as they are written. -/
theorem exceeds_seconds_iff {digits down : Nat} (h : binary64.ofDecimal digits 0 down = .finite significand exponent) :
    Exceeds significand exponent (1, 1) ↔ limit * 10 ^ down ≤ digits := by
  have hplaces : 10 < binary64.highest := by decide
  have hpow : 2 ^ (binary64.precision + (10 + 1)) = 0x10000000000000000 := by decide
  have hlimit : 0x10000000000000000 - 2 ^ 10 = limit := by decide
  have hreaches : (binary64.ofDecimal digits 0 down).Reaches (0x10000000000000000 * 2 ^ binary64.lowest) ↔
      limit * 10 ^ down ≤ digits := by
    rw [← hpow, inReach_binary64.reaches_ofDecimal_whole_iff hplaces, hpow, hlimit, Nat.pow_zero, Nat.mul_one]
  rw [← hreaches, h, Exceeds, BinaryFormat.quotient_eq, Nat.mul_one, Nat.mul_one, Magnitude.Reaches, limit]
  have hpos : 0 < 2 ^ binary64.lowest := Nat.two_pow_pos _
  have hgap := add_le_of_lt exponent binary64.lowest (inReach_binary64.significand_lt h)
  generalize significand * 2 ^ exponent = value at *
  generalize 2 ^ binary64.lowest = unit at *
  omega

variable {n : Nat}

/-- The digits of a number are all of its text. -/
theorem spells_toString_iff : Spells (toString n) significand exponent unit ↔
    binary64.ofDecimal n 0 0 = .finite significand exponent ∧ (1, 1) = unit := by
  have hdigits : ∀ c ∈ Nat.toDigits 10 n, c.isDigit = true := fun c => isDigit_of_mem_toDigits
  have htext : (toString n).toList = Nat.toDigits 10 n := Nat.toList_repr
  have htrim : Text.trim (Nat.toDigits 10 n) = Nat.toDigits 10 n := Text.trim_digits hdigits
  obtain ⟨htake, hdrop⟩ :
      (Nat.toDigits 10 n ++ []).takeWhile (fun c : Char => c.isDigit || c = '.') = Nat.toDigits 10 n ∧
        (Nat.toDigits 10 n ++ []).dropWhile (fun c : Char => c.isDigit || c = '.') = [] :=
    span_append (fun c hc => by simp [hdigits c hc]) (by simp)
  have hdecimal : decimal? binary64 (Nat.toDigits 10 n) = some (binary64.ofDecimal n 0 0) := by
    have hwritten : IsDigits (Nat.toDigits 10 n ++ []) n := by
      rw [List.append_nil]
      exact ⟨Nat.toDigits_ne_nil, hdigits, Nat.ofDigitChars_ten_toDigits⟩
    have hup : IsDecimal binary64 (Nat.toDigits 10 n ++ ([] ++ [])) (binary64.ofDecimal n 0 0) :=
      .up .none hwritten .none
    rw [List.append_nil, List.append_nil] at hup
    exact decimal?_eq_some_iff.mpr hup
  have hunit : unit? (String.ofList (Text.trim [])) = some (1, 1) := by decide
  rw [List.append_nil] at htake hdrop
  rw [spells_iff, htext, htrim, htake, hdrop, hdecimal, hunit, Option.some.injEq, Option.some.injEq]

/-- The whole numbers of seconds that are too long. What is larger still is no number of 64 bits. -/
theorem overlong_toString_iff : Overlong (toString n) ↔ limit ≤ n ∧ n < 2 ^ 1024 - 2 ^ 970 := by
  have hexponent : binary64.precision + (970 + 1) = 1024 := by decide
  have hhighest : binary64.highest = 970 + 1 := by decide
  have hinfinite : binary64.ofDecimal n 0 0 = .infinite ↔ 2 ^ 1024 - 2 ^ 970 ≤ n := by
    rw [inReach_binary64.ofDecimal_eq_infinite_iff hhighest, hexponent, Nat.pow_zero, Nat.mul_one, Nat.mul_one]
  rw [← Nat.not_le, ← hinfinite]
  constructor
  · rintro ⟨_, _, _, hspells, hlong⟩
    obtain ⟨hfinite, rfl⟩ := spells_toString_iff.mp hspells
    rw [exceeds_seconds_iff hfinite, Nat.pow_zero, Nat.mul_one] at hlong
    exact ⟨hlong, by simp [hfinite]⟩
  · rintro ⟨hlong, hfinite⟩
    cases hvalue : binary64.ofDecimal n 0 0 with
    | infinite => exact absurd hvalue hfinite
    | finite significand exponent =>
      refine ⟨significand, exponent, _, spells_toString_iff.mpr ⟨hvalue, rfl⟩, ?_⟩
      rwa [exceeds_seconds_iff hvalue, Nat.pow_zero, Nat.mul_one]

end Seconds

end Reassembly.Duration
