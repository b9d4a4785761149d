import Reassembly.Bytes

/-!
# Base64

The standard alphabet with mandatory canonical padding. Encoding takes three bytes to four
symbols. Decoding refuses everything that encoding does not write, and says what it refused: the
text is split into whole quads and a last group of at most four symbols, the quads are read
first, and the last group is then judged for stray padding, for its size and for unused bits.
-/

namespace Reassembly.Base64

/-- Why a text is not Base64. Offsets count symbols from the start of the text. -/
inductive Fault
  /-- A byte that may not stand where it stands. -/
  | invalidSymbol (symbol : UInt8) (offset : Nat)
  /-- The last group holds fewer than two symbols; the number counts symbols without padding. -/
  | invalidLength (symbols : Nat)
  /-- The padding does not fill the last group. -/
  | invalidPadding
  /-- The last symbol carries bits that belong to no byte. -/
  | invalidLastSymbol (symbol : UInt8) (offset : Nat)
  deriving Repr, DecidableEq

/-- The wording of a fault. -/
def Fault.message : Fault → String
  | .invalidSymbol symbol offset => s!"Invalid symbol {symbol.toNat}, offset {offset}."
  | .invalidLength symbols => s!"Invalid input length: {symbols}"
  | .invalidPadding => "Invalid padding"
  | .invalidLastSymbol symbol offset => s!"Invalid last symbol {symbol.toNat}, offset {offset}."

/-- The padding symbol. -/
def pad : UInt8 := 0x3d

/-- The symbol of a six-bit value. -/
def symbolOf (v : Nat) : UInt8 :=
  if v < 26 then UInt8.ofNat (v + 0x41)
  else if v < 52 then UInt8.ofNat (v - 26 + 0x61)
  else if v < 62 then UInt8.ofNat (v - 52 + 0x30)
  else if v = 62 then 0x2b
  else 0x2f

/-- The six-bit value of a symbol of the alphabet. -/
def valueOf? (symbol : UInt8) : Option Nat :=
  let n := symbol.toNat
  if 0x41 ≤ n ∧ n ≤ 0x5a then some (n - 0x41)
  else if 0x61 ≤ n ∧ n ≤ 0x7a then some (n - 0x61 + 26)
  else if 0x30 ≤ n ∧ n ≤ 0x39 then some (n - 0x30 + 52)
  else if n = 0x2b then some 62
  else if n = 0x2f then some 63
  else none

/-- Every six-bit value is read back from its symbol. -/
theorem valueOf?_symbolOf {v : Nat} (h : v < 64) : valueOf? (symbolOf v) = some v := by
  have all : ∀ v : Fin 64, valueOf? (symbolOf v) = some v.val := by decide
  exact all ⟨v, h⟩

/-- The three bytes of four six-bit values. -/
def bytesOfQuad (a b c d : Nat) : Bytes :=
  [UInt8.ofNat (a * 4 + b / 16), UInt8.ofNat (b % 16 * 16 + c / 4), UInt8.ofNat (c % 4 * 64 + d)]

/-- Encode a byte string, padding the last group to four symbols. -/
def encode : Bytes → Bytes
  | [] => []
  | [x] => [symbolOf (x.toNat / 4), symbolOf (x.toNat % 4 * 16), pad, pad]
  | [x, y] =>
    [symbolOf (x.toNat / 4), symbolOf (x.toNat % 4 * 16 + y.toNat / 16),
      symbolOf (y.toNat % 16 * 4), pad]
  | x :: y :: z :: rest =>
    symbolOf (x.toNat / 4) :: symbolOf (x.toNat % 4 * 16 + y.toNat / 16) ::
      symbolOf (y.toNat % 16 * 4 + z.toNat / 64) :: symbolOf (z.toNat % 64) :: encode rest

/-- Read symbols that stand before the last group; padding has no place there. -/
def readSymbols : Bytes → (offset : Nat) → Except Fault (List Nat)
  | [], _ => .ok []
  | symbol :: rest, offset =>
    match valueOf? symbol with
    | none => .error (.invalidSymbol symbol offset)
    | some v => do return v :: (← readSymbols rest (offset + 1))

/-- The bytes of whole quads of values. -/
def bytesOfQuads : List Nat → Bytes
  | a :: b :: c :: d :: rest => bytesOfQuad a b c d ++ bytesOfQuads rest
  | _ => []

/-- A last group as read: its values, the offset of its first padding symbol, and how many
padding symbols it has. -/
structure LastGroup where
  values : List Nat
  pads : Nat

/-- Read the last group from left to right. Padding may stand only behind two symbols, and no
symbol may follow it. -/
def readLastGroup : Bytes → (position offset : Nat) → (firstPad : Option Nat) →
    Except Fault LastGroup
  | [], _, _, _ => .ok ⟨[], 0⟩
  | symbol :: rest, position, offset, firstPad =>
    if symbol = pad then
      if position < 2 then .error (.invalidSymbol pad offset)
      else do
        let group ← readLastGroup rest (position + 1) (offset + 1) (firstPad.or (some offset))
        return { group with pads := group.pads + 1 }
    else
      match firstPad with
      | some padOffset => .error (.invalidSymbol pad padOffset)
      | none =>
        match valueOf? symbol with
        | none => .error (.invalidSymbol symbol offset)
        | some v => do
          let group ← readLastGroup rest (position + 1) (offset + 1) none
          return { group with values := v :: group.values }

/-- The bytes of a last group that starts at `offset`, after its size and its unused bits have
been checked. -/
def LastGroup.decode (group : LastGroup) (offset : Nat) : Except Fault Bytes :=
  if (group.values.length + group.pads) % 4 ≠ 0 then .error .invalidPadding
  else
    match group.values with
    | [a, b] =>
      if b % 16 ≠ 0 then .error (.invalidLastSymbol (symbolOf b) (offset + 1))
      else .ok [UInt8.ofNat (a * 4 + b / 16)]
    | [a, b, c] =>
      if c % 4 ≠ 0 then .error (.invalidLastSymbol (symbolOf c) (offset + 2))
      else .ok [UInt8.ofNat (a * 4 + b / 16), UInt8.ofNat (b % 16 * 16 + c / 4)]
    | [a, b, c, d] => .ok (bytesOfQuad a b c d)
    | _ => .ok []

/-- A text one symbol longer than whole quads is refused for that symbol when it is neither
padding nor in the alphabet, before anything else is looked at. -/
def checkDanglingSymbol (text : Bytes) : Except Fault Unit :=
  if text.length % 4 = 1 then
    match text.getLast? with
    | some symbol =>
      if symbol ≠ pad ∧ (valueOf? symbol).isNone then
        .error (.invalidSymbol symbol (text.length - 1))
      else .ok ()
    | none => .ok ()
  else .ok ()

/-- The number of symbols before the last group: all quads but the last when there are whole
quads only, and all whole quads otherwise. -/
def headLength (length : Nat) : Nat :=
  if length % 4 = 0 then length - 4 else length - length % 4

/-- Decode a text that is canonical Base64. -/
def decode (text : Bytes) : Except Fault Bytes := do
  checkDanglingSymbol text
  let start := headLength text.length
  let head ← readSymbols (text.take start) 0
  let group ← readLastGroup (text.drop start) 0 start none
  if text ≠ [] ∧ group.values.length < 2 then
    .error (.invalidLength (start + group.values.length))
  let last ← group.decode start
  return bytesOfQuads head ++ last

end Reassembly.Base64
