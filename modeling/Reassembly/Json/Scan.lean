import Reassembly.Bytes
import Reassembly.Number.Binary
import Reassembly.Reader

/-!
# Scanning JSON

The lexical layer of a reader that goes through a JSON text from left to right and stops at the
first fault. A value is either kept or skipped. A kept string must decode: its escapes must name
characters and its bytes must be UTF-8. A skipped string may hold any bytes that are not controls,
and any escape of the right shape. A skipped value may nest to any depth; the open brackets are
kept on a stack.
-/

namespace Reassembly.Json

open Reader

/-- What the first fault of a text is: it breaks the grammar, it holds a value of a kind that is not
wanted there, or it ends too early. -/
inductive Fault
  | malformed
  | mistyped
  | truncated
  deriving Repr, DecidableEq

/-- The wording of a fault. -/
def Fault.message : Fault → String
  | .malformed => "the text is not well-formed"
  | .mistyped => "a value is not of the expected type"
  | .truncated => "the text ends too early"

/-- A reading of a JSON text. -/
abbrev JsonReader (α : Type) := Reader Fault (List UInt8) α

/-- Whether the value of a string or number is wanted. -/
inductive Use
  | kept
  | skipped
  deriving Repr, DecidableEq

/-- A byte between the parts of a text. -/
def isSpace (b : UInt8) : Bool := b == 0x20 || b == 0x09 || b == 0x0a || b == 0x0d

/-- A decimal digit. -/
def isDigit (b : UInt8) : Bool := 0x30 ≤ b && b ≤ 0x39

/-- Go to the next part of the text. -/
def space : JsonReader Unit := fun s => .ok ((), s.dropWhile isSpace)

/-- Look at the next byte. -/
def peek : JsonReader (Option UInt8) := fun s => .ok (s.head?, s)

/-- Take the next byte. -/
def next : JsonReader UInt8
  | [] => .error .truncated
  | b :: rest => .ok (b, rest)

/-- Go to the next part of the text and look at its first byte. -/
def nextPart : JsonReader (Option UInt8) := do
  space
  peek

/-- Going on shrinks. -/
theorem shrinks_space : Shrinks space := by
  intro s a t h
  obtain ⟨-, rfl⟩ : a = () ∧ s.dropWhile isSpace = t := by simpa [space, eq_comm] using h
  exact (List.dropWhile_suffix _).length_le

/-- Looking shrinks. -/
theorem shrinks_peek : Shrinks peek := by
  intro s a t h
  obtain ⟨-, rfl⟩ : s.head? = a ∧ s = t := by simpa [peek] using h
  exact Nat.le_refl _

/-- Taking a byte consumes. -/
theorem consumes_next : Consumes next := by
  intro s a t h
  cases s with
  | nil => simp [next] at h
  | cons b rest =>
    simp only [next, Except.ok.injEq, Prod.mk.injEq] at h
    obtain ⟨-, rfl⟩ := h
    simp [Source.remaining]

/-- Going on and looking shrinks. -/
theorem shrinks_nextPart : Shrinks nextPart := shrinks_space.bind fun _ => shrinks_peek

/-- Take the given bytes; the first that differs is a fault. -/
def literal : Bytes → JsonReader Unit
  | [] => pure ()
  | expected :: rest => do
    let b ← next
    if b = expected then literal rest else refuse .malformed

/-- Taking bytes shrinks. -/
theorem shrinks_literal (word : Bytes) : Shrinks (literal word) := by
  induction word with
  | nil => exact Shrinks.pure _
  | cons expected rest ih =>
    refine consumes_next.shrinks.bind fun b => ?_
    split
    · exact ih
    · exact Shrinks.refuse _

/-- The rest of `null`. -/
def nullRest : Bytes := [0x75, 0x6c, 0x6c]

/-- The rest of `true`. -/
def trueRest : Bytes := [0x72, 0x75, 0x65]

/-- The rest of `false`. -/
def falseRest : Bytes := [0x61, 0x6c, 0x73, 0x65]

/-! ## Strings -/

/-- The value of a hexadecimal digit of either case. -/
def hexValue? (b : UInt8) : Option Nat :=
  let n := b.toNat
  if 0x30 ≤ n ∧ n ≤ 0x39 then some (n - 0x30)
  else if 0x61 ≤ n ∧ n ≤ 0x66 then some (n - 0x61 + 10)
  else if 0x41 ≤ n ∧ n ≤ 0x46 then some (n - 0x41 + 10)
  else none

/-- Read four hexadecimal digits. A text that ends before the fourth is too short, whatever the
digits are. -/
def hex4 : JsonReader Nat
  | a :: b :: c :: d :: rest =>
    match hexValue? a, hexValue? b, hexValue? c, hexValue? d with
    | some a, some b, some c, some d => .ok (((a * 16 + b) * 16 + c) * 16 + d, rest)
    | _, _, _, _ => .error .malformed
  | _ => .error .truncated

/-- Reading four digits shrinks. -/
theorem shrinks_hex4 : Shrinks hex4 := by
  intro s n t h
  unfold hex4 at h
  split at h
  · split at h
    · simp only [Except.ok.injEq, Prod.mk.injEq] at h
      obtain ⟨-, rfl⟩ := h
      simp only [Source.remaining, List.length_cons]
      omega
    · simp at h
  · simp at h

/-- The number is the first half of a surrogate pair. -/
def isHighSurrogate (n : Nat) : Bool := 0xd800 ≤ n && n ≤ 0xdbff

/-- The number is the second half of a surrogate pair. -/
def isLowSurrogate (n : Nat) : Bool := 0xdc00 ≤ n && n ≤ 0xdfff

/-- The UTF-8 encoding of the character with the given number. -/
def encodeScalar (n : Nat) : Bytes := String.utf8EncodeChar (Char.ofNat n)

/-- Read the character behind the `u` of an escape whose value is kept. A pair of surrogates is
written as two escapes; half a pair names no character. -/
def unicodeEscape : JsonReader Bytes := do
  let high ← hex4
  if isLowSurrogate high then refuse .malformed
  else if isHighSurrogate high then do
    literal [0x5c, 0x75]
    let low ← hex4
    if isLowSurrogate low then
      return encodeScalar (0x10000 + (high - 0xd800) * 0x400 + (low - 0xdc00))
    else refuse .malformed
  else return encodeScalar high

/-- Reading a character escape shrinks. -/
theorem shrinks_unicodeEscape : Shrinks unicodeEscape := by
  refine shrinks_hex4.bind fun high => ?_
  split
  · exact Shrinks.refuse _
  · split
    · refine (shrinks_literal _).bind fun _ => shrinks_hex4.bind fun low => ?_
      split
      · exact Shrinks.pure _
      · exact Shrinks.refuse _
    · exact Shrinks.pure _

/-- The byte that a one-letter escape stands for. -/
def shortEscape? (b : UInt8) : Option UInt8 :=
  if b = 0x22 ∨ b = 0x5c ∨ b = 0x2f then some b
  else if b = 0x62 then some 0x08
  else if b = 0x66 then some 0x0c
  else if b = 0x6e then some 0x0a
  else if b = 0x72 then some 0x0d
  else if b = 0x74 then some 0x09
  else none

/-- Read what stands behind a backslash. -/
def escape (use : Use) : JsonReader Bytes := do
  let b ← next
  match shortEscape? b with
  | some c => return [c]
  | none =>
    if b = 0x75 then
      match use with
      | .kept => unicodeEscape
      | .skipped => do
        let _ ← hex4
        return []
    else refuse .malformed

/-- Reading an escape consumes. -/
theorem consumes_escape (use : Use) : Consumes (escape use) := by
  refine consumes_next.bind fun b => ?_
  split
  · exact Shrinks.pure _
  · split
    · cases use
      · exact shrinks_unicodeEscape
      · exact shrinks_hex4.bind fun _ => Shrinks.pure _
    · exact Shrinks.refuse _

/-- Read the bytes of a string up to its closing quotation mark, behind those read so far. -/
def stringBytes (use : Use) (read : Array UInt8) : JsonReader (Array UInt8) := fun s =>
  match s with
  | [] => .error .truncated
  | b :: rest =>
    if b = 0x22 then .ok (read, rest)
    else if b = 0x5c then
      match h : escape use rest with
      | .error fault => .error fault
      | .ok (decoded, rest') =>
        have : rest'.length < rest.length := consumes_escape use _ _ _ h
        stringBytes use (read ++ decoded) rest'
    else if b < 0x20 then .error .malformed
    else stringBytes use (read.push b) rest
termination_by s => s.length
decreasing_by all_goals simp only [List.length_cons]; omega

/-- Reading the bytes of a string consumes. -/
theorem consumes_stringBytes (use : Use) (read : Array UInt8) : Consumes (stringBytes use read) := by
  intro s a t h
  simp only [Source.remaining]
  fun_induction stringBytes use read s with
  | case1 => simp at h
  | case2 read rest =>
    simp only [Except.ok.injEq, Prod.mk.injEq] at h
    obtain ⟨-, rfl⟩ := h
    simp
  | case3 => simp at h
  | case4 read rest _ decoded rest' _ _ ih =>
    have := ih h
    simp only [List.length_cons] at *
    omega
  | case5 => simp at h
  | case6 read b rest _ _ _ ih =>
    have := ih h
    simp only [List.length_cons]
    omega

/-- Read a string behind its opening quotation mark and keep its text. -/
def stringRest : JsonReader String := do
  let read ← stringBytes .kept #[]
  match String.fromUTF8? ⟨read⟩ with
  | some text => return text
  | none => refuse .malformed

/-- Reading a string consumes. -/
theorem consumes_stringRest : Consumes stringRest := by
  refine (consumes_stringBytes _ _).bind fun read => ?_
  split
  · exact Shrinks.pure _
  · exact Shrinks.refuse _

/-- Read a string behind its opening quotation mark and forget it. -/
def skipStringRest : JsonReader Unit := do
  let _ ← stringBytes .skipped #[]

/-- Skipping a string consumes. -/
theorem consumes_skipStringRest : Consumes skipStringRest :=
  (consumes_stringBytes _ _).bind fun _ => Shrinks.pure _

/-! ## Numbers -/

/-- The parts of a number as it is written. -/
structure NumberText where
  negative : Bool
  whole : Bytes
  /-- The digits behind the point, if there is one. -/
  fraction : Option Bytes
  /-- The sign and the digits behind the exponent mark, if there is one. -/
  exponent : Option (Bool × Bytes)

/-- Take all digits that follow. -/
def digits : JsonReader Bytes := fun s => .ok (s.takeWhile isDigit, s.dropWhile isDigit)

/-- The fault of a number that breaks off: one that is kept may be too short, one that is skipped is
always malformed. -/
def breakFault (use : Use) (following : Option UInt8) : Fault :=
  match use, following with
  | .kept, none => .truncated
  | _, _ => .malformed

/-- Take at least one digit. -/
def someDigits (use : Use) : JsonReader Bytes := do
  let first ← peek
  let found ← digits
  if found = [] then refuse (breakFault use first) else return found

/-- Taking at least one digit consumes. -/
theorem consumes_someDigits (use : Use) : Consumes (someDigits use) := by
  intro s found t h
  obtain ⟨first, u, hu, h⟩ := bind_eq_ok h
  obtain ⟨-, rfl⟩ : s.head? = first ∧ s = u := by simpa [peek] using hu
  obtain ⟨taken, v, hv, h⟩ := bind_eq_ok h
  obtain ⟨rfl, rfl⟩ : s.takeWhile isDigit = taken ∧ s.dropWhile isDigit = v := by
    simpa [digits] using hv
  by_cases empty : s.takeWhile isDigit = []
  · simp [empty, refuse] at h
  · rw [if_neg empty] at h
    obtain ⟨rfl, rfl⟩ := pure_eq_ok h
    have whole := congrArg List.length (List.takeWhile_append_dropWhile (p := isDigit) (l := s))
    have := List.length_pos_iff.mpr empty
    simp only [List.length_append] at whole
    simp only [Source.remaining]
    omega

/-- Read the digits before the point: one zero, or digits that do not start with zero. -/
def wholeDigits (use : Use) : JsonReader Bytes := do
  let found ← someDigits use
  if found.head? = some 0x30 ∧ found.length ≠ 1 then refuse .malformed else return found

/-- Read the point and the digits behind it, if there is a point. -/
def fractionDigits (use : Use) : JsonReader (Option Bytes) := do
  if (← peek) = some 0x2e then
    let _ ← next
    return some (← someDigits use)
  else return none

/-- Read the sign of an exponent, if there is one. -/
def exponentSign : JsonReader Bool := do
  let b ← peek
  if b = some 0x2d then
    let _ ← next
    return true
  else if b = some 0x2b then
    let _ ← next
    return false
  else return false

/-- Read the exponent mark and what it announces, if there is a mark. -/
def exponentDigits (use : Use) : JsonReader (Option (Bool × Bytes)) := do
  let b ← peek
  if b = some 0x65 ∨ b = some 0x45 then
    let _ ← next
    let negative ← exponentSign
    return some (negative, ← someDigits use)
  else return none

/-- Read a number behind its sign. -/
def unsignedNumber (use : Use) (negative : Bool) : JsonReader NumberText := do
  let whole ← wholeDigits use
  let fraction ← fractionDigits use
  let exponent ← exponentDigits use
  return ⟨negative, whole, fraction, exponent⟩

/-- Read a number. -/
def numberText (use : Use) : JsonReader NumberText := do
  if (← peek) = some 0x2d then
    let _ ← next
    unsignedNumber use true
  else unsignedNumber use false

/-- Reading a number behind its sign consumes. -/
theorem consumes_unsignedNumber (use : Use) (negative : Bool) :
    Consumes (unsignedNumber use negative) := by
  have whole : Consumes (wholeDigits use) := by
    refine (consumes_someDigits use).bind fun found => ?_
    split
    · exact Shrinks.refuse _
    · exact Shrinks.pure _
  have fraction : Shrinks (fractionDigits use) := by
    refine shrinks_peek.bind fun b => ?_
    split
    · exact consumes_next.shrinks.bind fun _ =>
        (consumes_someDigits use).shrinks.bind fun _ => Shrinks.pure _
    · exact Shrinks.pure _
  have sign : Shrinks exponentSign := by
    refine shrinks_peek.bind fun b => ?_
    split
    · exact consumes_next.shrinks.bind fun _ => Shrinks.pure _
    · split
      · exact consumes_next.shrinks.bind fun _ => Shrinks.pure _
      · exact Shrinks.pure _
  have exponent : Shrinks (exponentDigits use) := by
    refine shrinks_peek.bind fun b => ?_
    split
    · exact consumes_next.shrinks.bind fun _ => sign.bind fun _ =>
        (consumes_someDigits use).shrinks.bind fun _ => Shrinks.pure _
    · exact Shrinks.pure _
  exact whole.bind fun _ => fraction.bind fun _ => exponent.bind fun _ => Shrinks.pure _

/-- Reading a number consumes. -/
theorem consumes_numberText (use : Use) : Consumes (numberText use) := by
  refine shrinks_peek.bind_consumes fun b => ?_
  split
  · exact consumes_next.bind fun _ => (consumes_unsignedNumber use _).shrinks
  · exact consumes_unsignedNumber use _

end Reassembly.Json
