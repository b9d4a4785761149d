import Reassembly.Json.Scan

/-!
# The structure of JSON texts

Arrays, objects and values of every kind, on top of the lexical layer. Members of an object and
elements of an array are handed to a reader of the caller's; values that nobody wants are skipped.
A value of the wrong kind is a fault as soon as it is known to be well formed, and an array or an
object at its bracket.
-/

namespace Reassembly.Json

open Reader

/-- Go to the next part of the text, which must start with the given byte, and take it. -/
def expect (b : UInt8) : JsonReader Unit := do
  space
  let c ← next
  if c = b then return () else refuse .malformed

/-- Taking an expected byte consumes. -/
theorem consumes_expect (b : UInt8) : Consumes (expect b) := by
  refine shrinks_space.bind_consumes fun _ => consumes_next.bind fun c => ?_
  split
  · exact Shrinks.pure _
  · exact Shrinks.refuse _

/-! ## Skipping -/

/-- A bracket that has been opened. -/
inductive Frame
  | list
  | object
  deriving Repr, DecidableEq

/-- The byte that closes a bracket. -/
def Frame.close : Frame → UInt8
  | .list => 0x5d
  | .object => 0x7d

/-- Skip the name of a member and the colon behind it. -/
def skipName : JsonReader Unit := do
  expect 0x22
  skipStringRest
  expect 0x3a

/-- Skipping a name consumes. -/
theorem consumes_skipName : Consumes skipName :=
  (consumes_expect _).bind fun _ => consumes_skipStringRest.shrinks.bind fun _ =>
    (consumes_expect _).shrinks

/-- Skip a value that is no array and no object; `b` is its first byte, which has been looked at. -/
def skipScalar (b : UInt8) : JsonReader Unit :=
  if b = 0x6e then do
    let _ ← next
    literal nullRest
  else if b = 0x74 then do
    let _ ← next
    literal trueRest
  else if b = 0x66 then do
    let _ ← next
    literal falseRest
  else if b = 0x22 then do
    let _ ← next
    skipStringRest
  else if b = 0x2d ∨ isDigit b then do
    let _ ← numberText .skipped
  else refuse .malformed

/-- Skipping a scalar consumes. -/
theorem consumes_skipScalar (b : UInt8) : Consumes (skipScalar b) := by
  unfold skipScalar
  split
  · exact consumes_next.bind fun _ => shrinks_literal _
  split
  · exact consumes_next.bind fun _ => shrinks_literal _
  split
  · exact consumes_next.bind fun _ => shrinks_literal _
  split
  · exact consumes_next.bind fun _ => consumes_skipStringRest.shrinks
  split
  · exact (consumes_numberText _).bind fun _ => Shrinks.pure _
  · exact Consumes.refuse _

/-- Where a skipping reader stands: in front of a value, or behind one. -/
inductive Stand
  | before
  | behind
  deriving Repr, DecidableEq

/-- One step of skipping inside the given open brackets: a scalar, a bracket, or a separator with
the name that follows it. -/
def skipStep (stack : List Frame) : Stand → JsonReader (List Frame × Stand)
  | .before => do
    match ← nextPart with
    | none => refuse .truncated
    | some b =>
      if b = 0x5b then do
        let _ ← next
        if (← nextPart) = some 0x5d then
          let _ ← next
          return (stack, .behind)
        else return (.list :: stack, .before)
      else if b = 0x7b then do
        let _ ← next
        if (← nextPart) = some 0x7d then
          let _ ← next
          return (stack, .behind)
        else do
          skipName
          return (.object :: stack, .before)
      else do
        skipScalar b
        return (stack, .behind)
  | .behind =>
    match stack with
    | [] => refuse .malformed
    | frame :: outer => do
      space
      let b ← next
      if b = 0x2c then
        match frame with
        | .list => return (stack, .before)
        | .object => do
          skipName
          return (stack, .before)
      else if b = frame.close then return (outer, .behind)
      else refuse .malformed

/-- A step of skipping consumes. -/
theorem consumes_skipStep (stack : List Frame) (stand : Stand) :
    Consumes (skipStep stack stand) := by
  cases stand with
  | before =>
    refine shrinks_nextPart.bind_consumes fun b => ?_
    split
    · exact Consumes.refuse _
    · split
      · refine consumes_next.bind fun _ => shrinks_nextPart.bind fun _ => ?_
        split
        · exact consumes_next.shrinks.bind fun _ => Shrinks.pure _
        · exact Shrinks.pure _
      · split
        · refine consumes_next.bind fun _ => shrinks_nextPart.bind fun _ => ?_
          split
          · exact consumes_next.shrinks.bind fun _ => Shrinks.pure _
          · exact consumes_skipName.shrinks.bind fun _ => Shrinks.pure _
        · exact (consumes_skipScalar _).bind fun _ => Shrinks.pure _
  | behind =>
    cases stack with
    | nil => exact Consumes.refuse _
    | cons frame outer =>
      refine shrinks_space.bind_consumes fun _ => consumes_next.bind fun b => ?_
      split
      · cases frame
        · exact Shrinks.pure _
        · exact consumes_skipName.shrinks.bind fun _ => Shrinks.pure _
      · split
        · exact Shrinks.pure _
        · exact Shrinks.refuse _

/-- Skip until all open brackets are closed and no value is waited for. -/
def skipFrom (stack : List Frame) (stand : Stand) : JsonReader Unit := fun s =>
  if stack = [] ∧ stand = .behind then .ok ((), s)
  else
    match h : skipStep stack stand s with
    | .error fault => .error fault
    | .ok ((stack', stand'), rest) =>
      have : rest.length < s.length := consumes_skipStep _ _ _ _ _ h
      skipFrom stack' stand' rest
termination_by s => s.length

/-- Skip one value. -/
def skipValue : JsonReader Unit := skipFrom [] .before

/-- Skipping shrinks. -/
theorem shrinks_skipFrom (stack : List Frame) (stand : Stand) : Shrinks (skipFrom stack stand) := by
  intro s a t h
  simp only [Source.remaining]
  fun_induction skipFrom stack stand s with
  | case1 =>
    simp only [Except.ok.injEq, Prod.mk.injEq] at h
    obtain ⟨-, rfl⟩ := h
    exact Nat.le_refl _
  | case2 => simp at h
  | case3 stack stand s _ stack' stand' rest _ shorter ih =>
    exact Nat.le_trans (ih h) (Nat.le_of_lt shorter)

/-- Skipping a value shrinks. -/
theorem shrinks_skipValue : Shrinks skipValue := shrinks_skipFrom _ _

/-! ## Wanted values -/

/-- Wanted numbers lie below this bound of 64 bits. -/
def naturalBound : Nat := 0x10000000000000000

/-- Take digits into a number while it stays below `naturalBound`, and count the digits that are
left from the first that would not fit. -/
def significand : (n : Nat) → Bytes → Nat × Nat
  | n, [] => (n, 0)
  | n, d :: rest =>
    let n' := n * 10 + (d.toNat - 0x30)
    if n' < naturalBound then significand n' rest else (n, rest.length + 1)

/-- The number that digits write. -/
def natOfDigits (found : Bytes) : Nat := found.foldl (fun n d => n * 10 + (d.toNat - 0x30)) 0

/-- The largest power of ten that a significand is multiplied with at once. -/
def largestPower : Nat := 308

/-- A number below `naturalBound` times a power of ten is beyond the largest 64-bit float, both factors
being rounded to floats before they are multiplied. -/
def productOverflows (n power : Nat) : Bool :=
  if n = 0 then false
  else if largestPower < power then true
  else
    match Number.binary64.round n 1, Number.binary64.round (Nat.pow 10 power) 1 with
    | .finite s e, .finite s' e' =>
      let lowest := Number.binary64.lowest
      Number.binary64.round (s * Nat.pow 2 e * (s' * Nat.pow 2 e')) (Nat.pow 2 (2 * lowest)) = .infinite
    | _, _ => true

/-- The value of a number is beyond the largest 64-bit float. -/
def NumberText.overflows (text : NumberText) : Bool :=
  let (n, dropped) := significand 0 text.whole
  let (n, taken) :=
    match text.fraction with
    | none => (n, 0)
    | some fraction =>
      let (n', left) := significand n fraction
      (n', fraction.length - left)
  match text.exponent with
  | none => taken ≤ dropped && productOverflows n (dropped - taken)
  | some (negative, found) =>
    let exponent := natOfDigits found
    if negative then
      taken + exponent ≤ dropped && productOverflows n (dropped - taken - exponent)
    else taken ≤ dropped + exponent && productOverflows n (dropped + exponent - taken)

/-- Read a number that is wanted. The result is its value when it is written without sign, point
and exponent and lies below `naturalBound`. A number beyond all floats is malformed. -/
def number : JsonReader (Option Nat) := do
  let text ← numberText .kept
  if text.fraction.isNone ∧ text.exponent.isNone then
    let value := natOfDigits text.whole
    if value < naturalBound then return if text.negative then none else some value
    else if text.overflows then refuse .malformed
    else return none
  else if text.overflows then refuse .malformed
  else return none

/-- Reading a wanted number consumes. -/
theorem consumes_number : Consumes number := by
  refine (consumes_numberText _).bind fun text => ?_
  split
  · dsimp only
    split
    · exact Shrinks.pure _
    · split
      · exact Shrinks.refuse _
      · exact Shrinks.pure _
  · split
    · exact Shrinks.refuse _
    · exact Shrinks.pure _

/-- Refuse the next value for its kind. A scalar is read first and may turn out malformed; an array
or an object is refused at its bracket. -/
def refuseKind {α : Type} : JsonReader α := do
  match ← peek with
  | none => refuse .truncated
  | some b =>
    if b = 0x6e then
      let _ ← next
      literal nullRest
      refuse .mistyped
    else if b = 0x74 then
      let _ ← next
      literal trueRest
      refuse .mistyped
    else if b = 0x66 then
      let _ ← next
      literal falseRest
      refuse .mistyped
    else if b = 0x22 then
      let _ ← next
      let _ ← stringRest
      refuse .mistyped
    else if b = 0x2d ∨ isDigit b then
      let _ ← number
      refuse .mistyped
    else if b = 0x5b ∨ b = 0x7b then refuse .mistyped
    else refuse .malformed

/-- No source comes through a refusal of a kind. -/
theorem refuseKind_ne_ok {α : Type} {s t : List UInt8} {a : α} :
    (refuseKind : JsonReader α) s ≠ .ok (a, t) := by
  intro h
  obtain ⟨b, u, -, h⟩ := bind_eq_ok h
  split at h
  · simp [refuse] at h
  · repeat' split at h
    all_goals
      first
        | simp [refuse] at h
        | (obtain ⟨_, _, -, h⟩ := bind_eq_ok h
           first
             | simp [refuse] at h
             | (obtain ⟨_, _, -, h⟩ := bind_eq_ok h
                simp [refuse] at h))

/-- A refusal of a kind consumes whatever one likes. -/
theorem consumes_refuseKind {α : Type} : Consumes (refuseKind : JsonReader α) :=
  fun _ _ _ h => absurd h refuseKind_ne_ok

/-- Read a string. -/
def string : JsonReader String := do
  match ← nextPart with
  | none => refuse .truncated
  | some b =>
    if b = 0x22 then
      let _ ← next
      stringRest
    else refuseKind

/-- Reading a string consumes. -/
theorem consumes_string : Consumes string := by
  refine shrinks_nextPart.bind_consumes fun b => ?_
  split
  · exact Consumes.refuse _
  · split
    · exact consumes_next.bind fun _ => consumes_stringRest.shrinks
    · exact consumes_refuseKind

/-- Read a truth value. -/
def boolean : JsonReader Bool := do
  match ← nextPart with
  | none => refuse .truncated
  | some b =>
    if b = 0x74 then
      let _ ← next
      literal trueRest
      return true
    else if b = 0x66 then
      let _ ← next
      literal falseRest
      return false
    else refuseKind

/-- Reading a truth value consumes. -/
theorem consumes_boolean : Consumes boolean := by
  refine shrinks_nextPart.bind_consumes fun b => ?_
  split
  · exact Consumes.refuse _
  · split
    · exact consumes_next.bind fun _ => (shrinks_literal _).bind fun _ => Shrinks.pure _
    · split
      · exact consumes_next.bind fun _ => (shrinks_literal _).bind fun _ => Shrinks.pure _
      · exact consumes_refuseKind

/-- Read a natural number below `naturalBound`. -/
def natural : JsonReader Nat := do
  match ← nextPart with
  | none => refuse .truncated
  | some b =>
    if b = 0x2d ∨ isDigit b then
      match ← number with
      | some n => return n
      | none => refuse .mistyped
    else refuseKind

/-- Reading a natural number consumes. -/
theorem consumes_natural : Consumes natural := by
  refine shrinks_nextPart.bind_consumes fun b => ?_
  split
  · exact Consumes.refuse _
  · split
    · refine consumes_number.bind fun n => ?_
      split
      · exact Shrinks.pure _
      · exact Shrinks.refuse _
    · exact consumes_refuseKind

/-! ## Arrays and objects -/

/-- Go to the next element of an array, or to its closing bracket, which is left in place. -/
def nextElement (first : Bool) : JsonReader Bool := do
  match ← nextPart with
  | none => refuse .truncated
  | some b =>
    if b = 0x5d then return false
    else if first then return true
    else if b = 0x2c then
      let _ ← next
      match ← nextPart with
      | none => refuse .truncated
      | some b => if b = 0x5d then refuse .malformed else return true
    else refuse .malformed

/-- Going to an element shrinks. -/
theorem shrinks_nextElement (first : Bool) : Shrinks (nextElement first) := by
  refine shrinks_nextPart.bind fun b => ?_
  split
  · exact Shrinks.refuse _
  · split
    · exact Shrinks.pure _
    · split
      · exact Shrinks.pure _
      · split
        · refine consumes_next.shrinks.bind fun _ => shrinks_nextPart.bind fun b => ?_
          split
          · exact Shrinks.refuse _
          · split
            · exact Shrinks.refuse _
            · exact Shrinks.pure _
        · exact Shrinks.refuse _

/-- Read the next element of an array, if there is one. -/
def element? {α : Type} (first : Bool) (element : JsonReader α) : JsonReader (Option α) := do
  if ← nextElement first then return some (← element) else return none

/-- Reading an element, if there is one, shrinks. -/
theorem shrinks_element? {α : Type} (first : Bool) {element : JsonReader α}
    (shrinks : Shrinks element) : Shrinks (element? first element) := by
  refine (shrinks_nextElement _).bind fun more => ?_
  split
  · exact shrinks.bind fun _ => Shrinks.pure _
  · exact Shrinks.pure _

/-- Read elements up to the closing bracket, which is left in place. `earlier` holds those read so
far, latest first. -/
def elementsFrom {α : Type} (element : JsonReader α) (consumes : Consumes element) (first : Bool)
    (earlier : List α) : JsonReader (List α) := fun s =>
  match h : nextElement first s with
  | .error fault => .error fault
  | .ok (false, rest) => .ok (earlier.reverse, rest)
  | .ok (true, rest) =>
    match h' : element rest with
    | .error fault => .error fault
    | .ok (a, rest') =>
      have : rest'.length < s.length :=
        Nat.lt_of_lt_of_le (consumes _ _ _ h') (shrinks_nextElement _ _ _ _ h)
      elementsFrom element consumes false (a :: earlier) rest'
termination_by s => s.length

/-- Reading elements shrinks. -/
theorem shrinks_elementsFrom {α : Type} (element : JsonReader α) (consumes : Consumes element)
    (first : Bool) (earlier : List α) : Shrinks (elementsFrom element consumes first earlier) := by
  intro s a t h
  simp only [Source.remaining]
  fun_induction elementsFrom element consumes first earlier s with
  | case1 => simp at h
  | case2 first earlier s rest found =>
    simp only [Except.ok.injEq, Prod.mk.injEq] at h
    obtain ⟨-, rfl⟩ := h
    exact shrinks_nextElement _ _ _ _ found
  | case3 => simp at h
  | case4 first earlier s rest found b rest' _ shorter ih =>
    exact Nat.le_trans (ih h) (Nat.le_of_lt shorter)

/-- Close an array. -/
def endArray : JsonReader Unit := expect 0x5d

/-- Read an array, all of whose elements are of one kind. -/
def array {α : Type} (element : JsonReader α) (consumes : Consumes element) :
    JsonReader (List α) := do
  match ← nextPart with
  | none => refuse .truncated
  | some b =>
    if b = 0x5b then
      let _ ← next
      let elements ← elementsFrom element consumes true []
      endArray
      return elements
    else refuseKind

/-- Reading an array consumes. -/
theorem consumes_array {α : Type} (element : JsonReader α) (consumes : Consumes element) :
    Consumes (array element consumes) := by
  refine shrinks_nextPart.bind_consumes fun b => ?_
  split
  · exact Consumes.refuse _
  · split
    · exact consumes_next.bind fun _ => (shrinks_elementsFrom _ _ _ _).bind fun _ =>
        (consumes_expect _).shrinks.bind fun _ => Shrinks.pure _
    · exact consumes_refuseKind

/-- Read the name of a member. -/
def memberName : JsonReader String := do
  let b ← next
  if b = 0x22 then stringRest else refuse .malformed

/-- Reading a name consumes. -/
theorem consumes_memberName : Consumes memberName := by
  refine consumes_next.bind fun b => ?_
  split
  · exact consumes_stringRest.shrinks
  · exact Shrinks.refuse _

/-- Go to the name of the next member of an object and read it. There is none in front of the
closing brace, which is left in place. -/
def nextName (first : Bool) : JsonReader (Option String) := do
  match ← nextPart with
  | none => refuse .truncated
  | some b =>
    if b = 0x7d then return none
    else if first then return some (← memberName)
    else if b = 0x2c then
      let _ ← next
      space
      return some (← memberName)
    else refuse .malformed

/-- Going to a name shrinks. -/
theorem shrinks_nextName (first : Bool) : Shrinks (nextName first) := by
  refine shrinks_nextPart.bind fun b => ?_
  split
  · exact Shrinks.refuse _
  · split
    · exact Shrinks.pure _
    · split
      · exact consumes_memberName.shrinks.bind fun _ => Shrinks.pure _
      · split
        · exact consumes_next.shrinks.bind fun _ => shrinks_space.bind fun _ =>
            consumes_memberName.shrinks.bind fun _ => Shrinks.pure _
        · exact Shrinks.refuse _

/-- Read the members of an object up to its closing brace, which is left in place. Each member is
handed to a reader that starts in front of its colon and takes what it reads into a state. -/
def membersFrom {α : Type} (member : String → α → JsonReader α)
    (consumes : ∀ name a, Consumes (member name a)) (first : Bool) (a : α) : JsonReader α := fun s =>
  match h : nextName first s with
  | .error fault => .error fault
  | .ok (none, rest) => .ok (a, rest)
  | .ok (some name, rest) =>
    match h' : member name a rest with
    | .error fault => .error fault
    | .ok (a', rest') =>
      have : rest'.length < s.length :=
        Nat.lt_of_lt_of_le (consumes _ _ _ _ _ h') (shrinks_nextName _ _ _ _ h)
      membersFrom member consumes false a' rest'
termination_by s => s.length

/-- Reading members shrinks. -/
theorem shrinks_membersFrom {α : Type} (member : String → α → JsonReader α)
    (consumes : ∀ name a, Consumes (member name a)) (first : Bool) (a : α) :
    Shrinks (membersFrom member consumes first a) := by
  intro s b t h
  simp only [Source.remaining]
  fun_induction membersFrom member consumes first a s with
  | case1 => simp at h
  | case2 first a s rest found =>
    simp only [Except.ok.injEq, Prod.mk.injEq] at h
    obtain ⟨-, rfl⟩ := h
    exact shrinks_nextName _ _ _ _ found
  | case3 => simp at h
  | case4 first a s name rest found a' rest' _ shorter ih =>
    exact Nat.le_trans (ih h) (Nat.le_of_lt shorter)

/-- Read the colon of a member and its value. -/
def memberValue {α : Type} (value : JsonReader α) : JsonReader α := do
  expect 0x3a
  value

/-- Reading the value of a member consumes. -/
theorem consumes_memberValue {α : Type} {value : JsonReader α} (shrinks : Shrinks value) :
    Consumes (memberValue value) := (consumes_expect _).bind fun _ => shrinks

/-- A place in a state for the value of the member with a label. -/
structure Place (α : Type) where
  label : String
  Value : Type
  read : JsonReader Value
  found : α → Option Value
  keep : α → Value → α
  shrinks_read : Shrinks read
  found_keep : ∀ a v, found (keep a v) = some v

/-- Take a member into the place with its label. A place that is filled refuses the member in front
of its value, and the value of a member without a place is skipped. -/
def takeInto {α : Type} : (places : List (Place α)) → (name : String) → α → JsonReader α
  | [], _, a => do
    memberValue skipValue
    return a
  | place :: places, name, a =>
    if name = place.label then
      if (place.found a).isSome then refuse .mistyped
      else do
        let v ← memberValue place.read
        return place.keep a v
    else takeInto places name a

/-- Taking a member consumes. -/
theorem consumes_takeInto {α : Type} (places : List (Place α)) (name : String) (a : α) :
    Consumes (takeInto places name a) := by
  induction places with
  | nil => exact (consumes_memberValue shrinks_skipValue).bind fun _ => Shrinks.pure _
  | cons place places ih =>
    rw [takeInto]
    split
    · split
      · exact Consumes.refuse _
      · exact (consumes_memberValue place.shrinks_read).bind fun _ => Shrinks.pure _
    · exact ih

/-- Read a record, which is written as an object or as an array of its fields. -/
def record {α : Type} (ofObject ofArray : JsonReader α) : JsonReader α := do
  match ← nextPart with
  | none => refuse .truncated
  | some b =>
    if b = 0x7b then
      let _ ← next
      let a ← ofObject
      expect 0x7d
      return a
    else if b = 0x5b then
      let _ ← next
      let a ← ofArray
      endArray
      return a
    else refuseKind

/-- Reading a record consumes. -/
theorem consumes_record {α : Type} {ofObject ofArray : JsonReader α} (object : Shrinks ofObject)
    (array : Shrinks ofArray) : Consumes (record ofObject ofArray) := by
  refine shrinks_nextPart.bind_consumes fun b => ?_
  split
  · exact Consumes.refuse _
  · split
    · exact consumes_next.bind fun _ => object.bind fun _ =>
        (consumes_expect _).shrinks.bind fun _ => Shrinks.pure _
    · split
      · exact consumes_next.bind fun _ => array.bind fun _ =>
          (consumes_expect _).shrinks.bind fun _ => Shrinks.pure _
      · exact consumes_refuseKind

/-- Read a text that holds one value and nothing else but space. -/
def whole {α : Type} (value : JsonReader α) (text : Bytes) : Except Fault α :=
  match value text with
  | .error fault => .error fault
  | .ok (a, rest) => if rest.dropWhile isSpace = [] then .ok a else .error .malformed

end Reassembly.Json
