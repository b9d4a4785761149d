import Mathlib.Data.List.TakeWhile
import Reassembly.Proofs.Number.Text

/-!
# How numbers are written

The texts that write numbers, told apart from how they are read: whole numbers by their digits and a sign, and
floating-point numbers by digits on the sides of a point, an exponent, or a word. Reading finds the number that a text
writes, and nothing in any other text.
-/

namespace Reassembly.Number

variable {chars : List Char} {format : BinaryFormat}

/-- Some characters are the decimal digits of a number, at least one. -/
def IsDigits (chars : List Char) (n : Nat) : Prop :=
  chars ≠ [] ∧ (∀ c ∈ chars, c.isDigit = true) ∧ Nat.ofDigitChars 10 chars 0 = n

/-- Digits are read as the number of which they are the digits. -/
theorem digits?_eq_some_iff {n : Nat} : digits? chars = some n ↔ IsDigits chars n := by
  constructor
  · intro h
    obtain ⟨hne, hdigits⟩ := isDigit_of_digits? h
    refine ⟨hne, hdigits, ?_⟩
    rw [digits?, List.isEmpty_eq_false_iff.mpr hne, digitsFrom_eq hdigits] at h
    exact Option.some.inj h
  · rintro ⟨hne, hdigits, rfl⟩
    rw [digits?, List.isEmpty_eq_false_iff.mpr hne, digitsFrom_eq hdigits]
    rfl

/-- The first of some digits is one. -/
theorem IsDigits.head {c : Char} {n : Nat} (h : IsDigits chars n) (hhead : chars.head? = some c) : c.isDigit = true :=
  h.2.1 c (List.mem_of_head? hhead)

/-- Some characters write a number below a bound: its digits, perhaps behind a plus. -/
inductive IsNatural (bound : Nat) : List Char → Nat → Prop
  | bare {digits : List Char} {n : Nat} (written : IsDigits digits n) (less : n < bound) : IsNatural bound digits n
  | plus {digits : List Char} {n : Nat} (written : IsDigits digits n) (less : n < bound) :
      IsNatural bound ('+' :: digits) n

/-- A number below a bound is read from what writes it. -/
theorem natural?_eq_some_iff {bound n : Nat} : natural? bound chars = some n ↔ IsNatural bound chars n := by
  rw [natural?, Option.filter_eq_some_iff, decide_eq_true_iff, digits?_eq_some_iff]
  constructor
  · rintro ⟨hdigits, hless⟩
    split at hdigits
    · next hplus =>
      obtain ⟨rest, rfl⟩ := List.head?_eq_some_iff.mp hplus
      exact .plus hdigits hless
    · exact .bare hdigits hless
  · rintro (⟨hdigits, hless⟩ | ⟨hdigits, hless⟩)
    · have hplus : chars.head? ≠ some '+' := fun hhead => absurd (hdigits.head hhead) (by decide)
      rw [if_neg hplus]
      exact ⟨hdigits, hless⟩
    · exact ⟨hdigits, hless⟩

/-- Some characters write a number at least `-bound` and below `bound`. -/
inductive IsInteger (bound : Nat) : List Char → Int → Prop
  | natural {chars : List Char} {n : Nat} (written : IsNatural bound chars n) : IsInteger bound chars n
  | minus {digits : List Char} {n : Nat} (written : IsDigits digits n) (le : n ≤ bound) :
      IsInteger bound ('-' :: digits) (-n)

/-- What writes a number below a bound does not start with a minus. -/
theorem IsNatural.head?_ne {bound n : Nat} (h : IsNatural bound chars n) : chars.head? ≠ some '-' := by
  intro hminus
  cases h with
  | bare written => exact absurd (written.head hminus) (by decide)
  | plus => simp at hminus

/-- A number between two bounds is read from what writes it. -/
theorem integer?_eq_some_iff {bound : Nat} {value : Int} :
    integer? bound chars = some value ↔ IsInteger bound chars value := by
  rw [integer?]
  constructor
  · intro h
    split at h
    · next hminus =>
      obtain ⟨rest, rfl⟩ := List.head?_eq_some_iff.mp hminus
      obtain ⟨i, hi, rfl⟩ := Option.map_eq_some_iff.mp h
      obtain ⟨n, hn, hcast⟩ := Option.bind_eq_some_iff.mp hi
      obtain rfl : (n : Int) = i := Option.some.inj hcast
      obtain ⟨hdigits, hle⟩ := Option.filter_eq_some_iff.mp hn
      exact .minus (digits?_eq_some_iff.mp hdigits) (of_decide_eq_true hle)
    · obtain ⟨n, hn, rfl⟩ := Option.map_eq_some_iff.mp h
      exact .natural (natural?_eq_some_iff.mp hn)
  · rintro (hnatural | ⟨hdigits, hle⟩)
    · rw [if_neg hnatural.head?_ne, natural?_eq_some_iff.mpr hnatural]
      rfl
    · rw [if_pos List.head?_cons, List.tail_cons, digits?_eq_some_iff.mpr hdigits, Option.filter_some,
        if_pos (decide_eq_true hle)]
      rfl

/-- Some characters write an exponent, or are none. -/
inductive IsExponent : List Char → (negative : Bool) → Nat → Prop
  | none : IsExponent [] false 0
  | bare {mark : Char} {digits : List Char} {n : Nat} (marked : mark = 'e' ∨ mark = 'E')
      (written : IsDigits digits n) : IsExponent (mark :: digits) false n
  | plus {mark : Char} {digits : List Char} {n : Nat} (marked : mark = 'e' ∨ mark = 'E')
      (written : IsDigits digits n) : IsExponent (mark :: '+' :: digits) false n
  | minus {mark : Char} {digits : List Char} {n : Nat} (marked : mark = 'e' ∨ mark = 'E')
      (written : IsDigits digits n) : IsExponent (mark :: '-' :: digits) true n

/-- An exponent is read from what writes it. -/
theorem exponent?_eq_some_iff {negative : Bool} {n : Nat} :
    exponent? chars = some (negative, n) ↔ IsExponent chars negative n := by
  constructor
  · intro h
    cases chars with
    | nil =>
      obtain ⟨rfl, rfl⟩ := Prod.mk.inj (Option.some.inj h)
      exact .none
    | cons mark rest =>
      simp only [exponent?.eq_def] at h
      split at h
      · next hmark =>
        split at h <;>
          obtain ⟨m, hm, hpair⟩ := Option.map_eq_some_iff.mp h <;>
          obtain ⟨rfl, rfl⟩ := Prod.mk.inj hpair
        · exact .minus hmark (digits?_eq_some_iff.mp hm)
        · exact .plus hmark (digits?_eq_some_iff.mp hm)
        · exact .bare hmark (digits?_eq_some_iff.mp hm)
      · simp at h
  · rintro (_ | ⟨hmark, hdigits⟩ | ⟨hmark, hdigits⟩ | ⟨hmark, hdigits⟩)
    · rfl
    · rename_i mark digits
      simp only [exponent?.eq_def, if_pos hmark]
      split
      · exact absurd (hdigits.head List.head?_cons) (by decide)
      · exact absurd (hdigits.head List.head?_cons) (by decide)
      · rw [digits?_eq_some_iff.mpr hdigits]
        rfl
    · simp only [exponent?.eq_def, if_pos hmark, digits?_eq_some_iff.mpr hdigits, Option.map_some]
    · simp only [exponent?.eq_def, if_pos hmark, digits?_eq_some_iff.mpr hdigits, Option.map_some]

/-- Some characters write the digits behind a point with the point, or neither is there. -/
inductive IsFraction : List Char → List Char → Prop
  | none : IsFraction [] []
  | point {digits : List Char} : IsFraction ('.' :: digits) digits

/-- Some characters write a decimal number, which is rounded to a format: digits before a point and behind it, at least
one in all, and an exponent. -/
inductive IsDecimal (format : BinaryFormat) : List Char → Magnitude → Prop
  | up {whole point fraction tail : List Char} {digits n : Nat} (pointed : IsFraction point fraction)
      (written : IsDigits (whole ++ fraction) digits) (exponent : IsExponent tail false n) :
      IsDecimal format (whole ++ (point ++ tail)) (format.ofDecimal digits n fraction.length)
  | down {whole point fraction tail : List Char} {digits n : Nat} (pointed : IsFraction point fraction)
      (written : IsDigits (whole ++ fraction) digits) (exponent : IsExponent tail true n) :
      IsDecimal format (whole ++ (point ++ tail)) (format.ofDecimal digits 0 (fraction.length + n))

/-- No digit and no point starts an exponent. -/
theorem IsExponent.head {negative : Bool} {n : Nat} (h : IsExponent chars negative n) {c : Char}
    (hhead : chars.head? = some c) : c.isDigit = false ∧ c ≠ '.' := by
  cases h with
  | none => simp at hhead
  | bare marked | plus marked | minus marked =>
    obtain rfl := Option.some.inj hhead
    rcases marked with rfl | rfl <;> decide

/-- A list is taken apart where characters of a kind end. -/
theorem span_append {kind : Char → Bool} {front back : List Char} (hfront : ∀ c ∈ front, kind c = true)
    (hback : ∀ c, back.head? = some c → kind c = false) :
    (front ++ back).takeWhile kind = front ∧ (front ++ back).dropWhile kind = back := by
  rw [List.takeWhile_append_of_pos hfront, List.dropWhile_append_of_pos hfront]
  cases back with
  | nil => simp
  | cons c rest =>
    have hc : ¬ kind c = true := by simp [hback c rfl]
    rw [List.takeWhile_cons_of_neg hc, List.dropWhile_cons_of_neg hc, List.append_nil]
    exact ⟨rfl, rfl⟩

/-- The digits behind a point, and what follows them. -/
def fractionOf (rest : List Char) : List Char × List Char :=
  match rest with
  | '.' :: rest => (rest.takeWhile Char.isDigit, rest.dropWhile Char.isDigit)
  | rest => ([], rest)

/-- The parts in which a decimal number is read. -/
theorem decimal?_eq (format : BinaryFormat) (chars : List Char) : decimal? format chars =
    match digits? (chars.takeWhile Char.isDigit ++ (fractionOf (chars.dropWhile Char.isDigit)).1),
      exponent? (fractionOf (chars.dropWhile Char.isDigit)).2 with
    | some digits, some (false, up) =>
      some (format.ofDecimal digits up (fractionOf (chars.dropWhile Char.isDigit)).1.length)
    | some digits, some (true, down) =>
      some (format.ofDecimal digits 0 ((fractionOf (chars.dropWhile Char.isDigit)).1.length + down))
    | _, _ => none := rfl

/-- The point and the digits behind it are told from what follows. -/
theorem fractionOf_append {point fraction tail : List Char} (hpoint : IsFraction point fraction)
    (hdigits : ∀ c ∈ fraction, c.isDigit = true) (htail : ∀ c, tail.head? = some c → c.isDigit = false ∧ c ≠ '.') :
    fractionOf (point ++ tail) = (fraction, tail) := by
  cases hpoint with
  | none =>
    rw [List.nil_append, fractionOf.eq_def]
    split
    · exact absurd rfl (htail '.' List.head?_cons).2
    · rfl
  | point =>
    obtain ⟨htake, hdrop⟩ := span_append hdigits fun c hc => (htail c hc).1
    exact Prod.ext htake hdrop

/-- There is a point and digits behind it, or neither. -/
theorem isFraction_fractionOf (rest : List Char) :
    ∃ point, IsFraction point (fractionOf rest).1 ∧ point ++ (fractionOf rest).2 = rest := by
  rw [fractionOf.eq_def]
  split
  · next rest =>
    refine ⟨_, .point, ?_⟩
    rw [List.cons_append, List.takeWhile_append_dropWhile]
  · exact ⟨_, .none, rfl⟩

/-- A decimal number is taken apart into the parts that it is written in. -/
theorem parts_of_written {whole point fraction tail : List Char} {digits n : Nat} {negative : Bool}
    (hpoint : IsFraction point fraction) (hdigits : IsDigits (whole ++ fraction) digits)
    (hexponent : IsExponent tail negative n) :
    (whole ++ (point ++ tail)).takeWhile Char.isDigit = whole ∧
      fractionOf ((whole ++ (point ++ tail)).dropWhile Char.isDigit) = (fraction, tail) := by
  have hhead : ∀ c, (point ++ tail).head? = some c → c.isDigit = false := by
    intro c hc
    cases hpoint with
    | none => exact (hexponent.head hc).1
    | point =>
      obtain rfl := Option.some.inj hc
      rfl
  obtain ⟨htake, hdrop⟩ := span_append (fun c hc => hdigits.2.1 c (List.mem_append_left _ hc)) hhead
  rw [htake, hdrop]
  exact ⟨rfl, fractionOf_append hpoint (fun c hc => hdigits.2.1 c (List.mem_append_right _ hc)) fun c => hexponent.head⟩

/-- A decimal number is read from what writes it. -/
theorem decimal?_eq_some_iff {magnitude : Magnitude} :
    decimal? format chars = some magnitude ↔ IsDecimal format chars magnitude := by
  constructor
  · intro h
    have hsplit := List.takeWhile_append_dropWhile (p := Char.isDigit) (l := chars)
    obtain ⟨point, hpoint, hrest⟩ := isFraction_fractionOf (chars.dropWhile Char.isDigit)
    rw [decimal?_eq] at h
    rw [← hsplit, ← hrest]
    split at h
    · next digits n hdigits hexponent =>
      obtain rfl := Option.some.inj h
      exact .up hpoint (digits?_eq_some_iff.mp hdigits) (exponent?_eq_some_iff.mp hexponent)
    · next digits n hdigits hexponent =>
      obtain rfl := Option.some.inj h
      exact .down hpoint (digits?_eq_some_iff.mp hdigits) (exponent?_eq_some_iff.mp hexponent)
    · simp at h
  · rintro (⟨hpoint, hdigits, hexponent⟩ | ⟨hpoint, hdigits, hexponent⟩)
    · obtain ⟨hwhole, hfraction⟩ := parts_of_written hpoint hdigits hexponent
      rw [decimal?_eq, hwhole, hfraction, digits?_eq_some_iff.mpr hdigits, exponent?_eq_some_iff.mpr hexponent]
    · obtain ⟨hwhole, hfraction⟩ := parts_of_written hpoint hdigits hexponent
      rw [decimal?_eq, hwhole, hfraction, digits?_eq_some_iff.mpr hdigits, exponent?_eq_some_iff.mpr hexponent]

/-- A decimal number starts with a digit or a point. -/
theorem IsDecimal.exists_head {magnitude : Magnitude} (h : IsDecimal format chars magnitude) :
    ∃ c, chars.head? = some c ∧ (c.isDigit = true ∨ c = '.') := by
  have hparts : ∀ {whole point fraction tail : List Char} {digits : Nat}, IsFraction point fraction →
      IsDigits (whole ++ fraction) digits →
        ∃ c, (whole ++ (point ++ tail)).head? = some c ∧ (c.isDigit = true ∨ c = '.') := by
    intro whole point fraction tail digits hpoint hdigits
    cases whole with
    | cons c rest => exact ⟨c, rfl, .inl (hdigits.2.1 c List.mem_cons_self)⟩
    | nil =>
      cases hpoint with
      | none => exact absurd rfl hdigits.1
      | point => exact ⟨'.', rfl, .inr rfl⟩
  cases h with
  | up pointed written | down pointed written => exact hparts pointed written

/-- Some characters write a floating-point number without its sign: a word for infinity or for none, in any case, or a
decimal number. -/
inductive IsUnsigned (format : BinaryFormat) (negative : Bool) (chars : List Char) : Floating → Prop
  | infinite (word : String.ofList (chars.map Char.toLower) = "inf" ∨
      String.ofList (chars.map Char.toLower) = "infinity") :
      IsUnsigned format negative chars (.signed negative .infinite)
  | nan (word : String.ofList (chars.map Char.toLower) = "nan") : IsUnsigned format negative chars .nan
  | decimal {magnitude : Magnitude} (written : IsDecimal format chars magnitude) :
      IsUnsigned format negative chars (.signed negative magnitude)

/-- A text that is a word in lower case starts with its letter. -/
theorem head?_of_word {first : Char} {word : String} (h : String.ofList (chars.map Char.toLower) = word)
    (hfirst : word.toList.head? = some first) : ∃ c, chars.head? = some c ∧ c.toLower = first := by
  rw [← h, String.toList_ofList, List.head?_map, Option.map_eq_some_iff] at hfirst
  exact hfirst

/-- A digit has no case, and neither has a point. -/
theorem toLower_eq {c : Char} (h : c.isDigit = true ∨ c = '.') : c.toLower = c := by
  rcases h with h | rfl
  · delta Char.toLower
    simp only [Char.isDigit, Bool.and_eq_true, decide_eq_true_eq] at h
    rw [dif_neg]
    rintro ⟨hlow, -⟩
    exact absurd (UInt32.le_trans hlow h.2) (by decide)
  · rfl

/-- A decimal number is no word. -/
theorem IsDecimal.ne_word {magnitude : Magnitude} (h : IsDecimal format chars magnitude) {first : Char} {word : String}
    (hfirst : word.toList.head? = some first) (hletter : ¬ (first.isDigit = true ∨ first = '.')) :
    String.ofList (chars.map Char.toLower) ≠ word := by
  intro hword
  obtain ⟨c, hc, hcase⟩ := h.exists_head
  obtain ⟨other, hother, rfl⟩ := head?_of_word hword hfirst
  obtain rfl : c = other := Option.some.inj (hc.symm.trans hother)
  exact hletter ((toLower_eq hcase).symm ▸ hcase)

/-- A floating-point number without its sign is read from what writes it. -/
theorem unsigned?_eq_some_iff {negative : Bool} {value : Floating} :
    unsigned? format negative chars = some value ↔ IsUnsigned format negative chars value := by
  rw [unsigned?]
  constructor
  · intro h
    split at h
    · next hword =>
      obtain rfl := Option.some.inj h
      exact .infinite hword
    · split at h
      · next hword =>
        obtain rfl := Option.some.inj h
        exact .nan hword
      · obtain ⟨magnitude, hmagnitude, rfl⟩ := Option.map_eq_some_iff.mp h
        exact .decimal (decimal?_eq_some_iff.mp hmagnitude)
  · rintro (hword | hword | hwritten)
    · exact if_pos hword
    · have hother : ¬ ("nan" = "inf" ∨ "nan" = "infinity") := by decide
      simp only [hword, if_neg hother, if_true]
    · have hinfinite : ¬ (String.ofList (chars.map Char.toLower) = "inf" ∨
          String.ofList (chars.map Char.toLower) = "infinity") :=
        not_or.mpr ⟨hwritten.ne_word rfl (by decide), hwritten.ne_word rfl (by decide)⟩
      have hnan : String.ofList (chars.map Char.toLower) ≠ "nan" := hwritten.ne_word rfl (by decide)
      simp only [if_neg hinfinite, if_neg hnan, decimal?_eq_some_iff.mpr hwritten, Option.map_some]

/-- Some characters write a floating-point number, perhaps with a sign. -/
inductive IsFloating (format : BinaryFormat) : List Char → Floating → Prop
  | bare {chars : List Char} {value : Floating} (written : IsUnsigned format false chars value) :
      IsFloating format chars value
  | plus {chars : List Char} {value : Floating} (written : IsUnsigned format false chars value) :
      IsFloating format ('+' :: chars) value
  | minus {chars : List Char} {value : Floating} (written : IsUnsigned format true chars value) :
      IsFloating format ('-' :: chars) value

/-- A number without its sign starts with none. -/
theorem IsUnsigned.head?_ne {negative : Bool} {value : Floating} (h : IsUnsigned format negative chars value) :
    chars.head? ≠ some '-' ∧ chars.head? ≠ some '+' := by
  have hletter : ∀ {first : Char} {word : String}, word.toList.head? = some first → first ≠ '-' ∧ first ≠ '+' →
      String.ofList (chars.map Char.toLower) = word → chars.head? ≠ some '-' ∧ chars.head? ≠ some '+' := by
    intro first word hfirst hsign hword
    obtain ⟨c, hc, rfl⟩ := head?_of_word hword hfirst
    constructor <;>
    · rw [hc]
      rintro ⟨⟩
      simp at hsign
  cases h with
  | infinite word =>
    rcases word with word | word
    · exact hletter rfl (by decide) word
    · exact hletter rfl (by decide) word
  | nan word => exact hletter rfl (by decide) word
  | decimal written =>
    obtain ⟨c, hc, hcase⟩ := written.exists_head
    constructor <;>
    · rw [hc]
      rintro ⟨⟩
      simp at hcase

/-- A floating-point number is read from what writes it. -/
theorem floating?_eq_some_iff {value : Floating} :
    floating? format chars = some value ↔ IsFloating format chars value := by
  constructor
  · intro h
    rw [floating?.eq_def] at h
    split at h
    · exact .minus (unsigned?_eq_some_iff.mp h)
    · exact .plus (unsigned?_eq_some_iff.mp h)
    · exact .bare (unsigned?_eq_some_iff.mp h)
  · rintro (hwritten | hwritten | hwritten)
    · obtain ⟨hminus, hplus⟩ := hwritten.head?_ne
      rw [floating?.eq_def]
      split
      · exact absurd rfl hminus
      · exact absurd rfl hplus
      · exact unsigned?_eq_some_iff.mpr hwritten
    · exact unsigned?_eq_some_iff.mpr hwritten
    · exact unsigned?_eq_some_iff.mpr hwritten

end Reassembly.Number
