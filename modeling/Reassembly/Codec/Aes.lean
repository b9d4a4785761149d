import Reassembly.Bytes

/-!
# The AES block cipher

The cipher works on a state of four columns of four bytes. A round substitutes every byte, shifts
the rows, mixes each column over GF(2⁸) and adds a round key; the last round does not mix.
Decryption undoes the steps in reverse order under the same round keys. Keys of 16, 24 and 32
bytes are expanded to 11, 13 and 15 round keys.

The substitution is defined by its algebra, inversion in GF(2⁸) followed by an affine map, and
tabulated once.
-/

namespace Reassembly.Aes

/-- Multiplication by `x` in GF(2⁸) modulo `x⁸ + x⁴ + x³ + x + 1`. -/
def double (b : UInt8) : UInt8 := (b <<< 1) ^^^ (if b < 0x80 then 0 else 0x1b)

/-- Multiplication in GF(2⁸) by a number of at most `bits` bits. -/
def mulBits : (bits : Nat) → (a b : UInt8) → UInt8
  | 0, _, _ => 0
  | bits + 1, a, b => (if b &&& 1 = 0 then 0 else a) ^^^ mulBits bits (double a) (b >>> 1)

/-- Multiplication in GF(2⁸). -/
def mul (a b : UInt8) : UInt8 := mulBits 8 a b

/-- The inverse in GF(2⁸), which is the 254th power; zero is sent to itself. -/
def inverse (b : UInt8) : UInt8 :=
  let b2 := mul b b
  let b3 := mul b2 b
  let b6 := mul b3 b3
  let b12 := mul b6 b6
  let b15 := mul b12 b3
  let b30 := mul b15 b15
  let b60 := mul b30 b30
  let b120 := mul b60 b60
  let b126 := mul b120 b6
  let b127 := mul b126 b
  mul b127 b127

/-- Rotation of a byte towards its high end. -/
def rotate (b places : UInt8) : UInt8 := (b <<< places) ||| (b >>> (8 - places))

/-- The substitution of a byte: inversion, then an affine map. -/
def substitution (b : UInt8) : UInt8 :=
  let i := inverse b
  i ^^^ rotate i 1 ^^^ rotate i 2 ^^^ rotate i 3 ^^^ rotate i 4 ^^^ 0x63

/-- The byte that is substituted by the given one: the affine map undone, then inversion. -/
def substitutionInverse (b : UInt8) : UInt8 :=
  inverse (rotate b 1 ^^^ rotate b 3 ^^^ rotate b 6 ^^^ 0x05)

/-- A function on bytes, tabulated. -/
def tabulate (f : UInt8 → UInt8) : Vector UInt8 256 := Vector.ofFn fun i => f (UInt8.ofNat i)

/-- Look a byte up in a table. -/
def lookup (table : Vector UInt8 256) (b : UInt8) : UInt8 :=
  have _inside : b.toNat < 256 := UInt8.toNat_lt b
  table[b.toNat]

/-- A tabulated function is read back from its table. -/
theorem lookup_tabulate (f : UInt8 → UInt8) (b : UInt8) : lookup (tabulate f) b = f b := by
  simp [lookup, tabulate]

/-- The table of the substitution. -/
def substitutionTable : Vector UInt8 256 := tabulate substitution

/-- The table of the inverse substitution. -/
def substitutionInverseTable : Vector UInt8 256 := tabulate substitutionInverse

/-- Substitute a byte. -/
def substitute (b : UInt8) : UInt8 := lookup substitutionTable b

/-- Undo the substitution of a byte. -/
def unsubstitute (b : UInt8) : UInt8 := lookup substitutionInverseTable b

/-- Four bytes of the state, top row first. -/
@[ext] structure Column where
  a : UInt8
  b : UInt8
  c : UInt8
  d : UInt8
  deriving Repr, DecidableEq

namespace Column

/-- The column that addition leaves unchanged. -/
def zero : Column := ⟨0, 0, 0, 0⟩

/-- Addition in GF(2⁸), byte by byte. -/
def add (v w : Column) : Column := ⟨v.a ^^^ w.a, v.b ^^^ w.b, v.c ^^^ w.c, v.d ^^^ w.d⟩

/-- Apply a function to every byte. -/
def map (f : UInt8 → UInt8) (v : Column) : Column := ⟨f v.a, f v.b, f v.c, f v.d⟩

/-- Move the top byte to the bottom. -/
def rotate (v : Column) : Column := ⟨v.b, v.c, v.d, v.a⟩

/-- The product of a row of coefficients with a column. -/
def dot (p q r s : UInt8) (v : Column) : UInt8 :=
  mulBits 4 v.a p ^^^ mulBits 4 v.b q ^^^ mulBits 4 v.c r ^^^ mulBits 4 v.d s

/-- Multiply a column by the circulant matrix of 2, 3, 1, 1. -/
def mix (v : Column) : Column :=
  ⟨dot 2 3 1 1 v, dot 1 2 3 1 v, dot 1 1 2 3 v, dot 3 1 1 2 v⟩

/-- Multiply a column by the inverse matrix, the circulant of 14, 11, 13, 9. -/
def unmix (v : Column) : Column :=
  ⟨dot 14 11 13 9 v, dot 9 14 11 13 v, dot 13 9 14 11 v, dot 11 13 9 14 v⟩

end Column

/-- The cipher's state, one column after the other. -/
@[ext] structure State where
  p : Column
  q : Column
  r : Column
  s : Column
  deriving Repr, DecidableEq

namespace State

/-- The state that addition leaves unchanged. -/
def zero : State := ⟨.zero, .zero, .zero, .zero⟩

/-- Addition of two states, which is how keys are added and blocks are chained. -/
def add (v w : State) : State := ⟨v.p.add w.p, v.q.add w.q, v.r.add w.r, v.s.add w.s⟩

/-- Apply a function to every byte. -/
def map (f : UInt8 → UInt8) (v : State) : State := ⟨v.p.map f, v.q.map f, v.r.map f, v.s.map f⟩

/-- Shift row `i` left by `i` places. -/
def shiftRows (v : State) : State :=
  ⟨⟨v.p.a, v.q.b, v.r.c, v.s.d⟩, ⟨v.q.a, v.r.b, v.s.c, v.p.d⟩,
    ⟨v.r.a, v.s.b, v.p.c, v.q.d⟩, ⟨v.s.a, v.p.b, v.q.c, v.r.d⟩⟩

/-- Shift row `i` right by `i` places. -/
def unshiftRows (v : State) : State :=
  ⟨⟨v.p.a, v.s.b, v.r.c, v.q.d⟩, ⟨v.q.a, v.p.b, v.s.c, v.r.d⟩,
    ⟨v.r.a, v.q.b, v.p.c, v.s.d⟩, ⟨v.s.a, v.r.b, v.q.c, v.p.d⟩⟩

/-- Mix every column. -/
def mixColumns (v : State) : State := ⟨v.p.mix, v.q.mix, v.r.mix, v.s.mix⟩

/-- Undo the mixing of every column. -/
def unmixColumns (v : State) : State := ⟨v.p.unmix, v.q.unmix, v.r.unmix, v.s.unmix⟩

/-- The sixteen bytes of a state, column by column. -/
def toBytes (v : State) : Bytes :=
  [v.p.a, v.p.b, v.p.c, v.p.d, v.q.a, v.q.b, v.q.c, v.q.d,
    v.r.a, v.r.b, v.r.c, v.r.d, v.s.a, v.s.b, v.s.c, v.s.d]

end State

/-- The columns of a byte string; up to three bytes at its end belong to none. -/
def columns : Bytes → List Column
  | a :: b :: c :: d :: rest => ⟨a, b, c, d⟩ :: columns rest
  | _ => []

/-- Four columns at a time make a state; up to three columns at the end belong to none. -/
def statesOfColumns : List Column → List State
  | p :: q :: r :: s :: rest => ⟨p, q, r, s⟩ :: statesOfColumns rest
  | _ => []

/-- The sixteen-byte blocks of a byte string; up to fifteen bytes at its end belong to none. -/
def blocks (bytes : Bytes) : List State := statesOfColumns (columns bytes)

/-- The bytes of a sequence of blocks. -/
def unblocks (states : List State) : Bytes := states.flatMap State.toBytes

/-- The number of bytes in a block. -/
def blockSize : Nat := 16

/-- The round constant of the `i`-th expansion of the key, counted from one. -/
def roundConstant : Nat → UInt8
  | 0 => 0x8d
  | i + 1 => double (roundConstant i)

/-- The next column of the expansion of a key of `keyColumns` columns, from the columns before it,
latest first. `i` is the new column's place. -/
def nextKeyColumn (keyColumns i : Nat) (earlier : List Column) : Column :=
  let last := earlier.headD .zero
  let step :=
    if i % keyColumns = 0 then
      (last.rotate.map substitute).add ⟨roundConstant (i / keyColumns), 0, 0, 0⟩
    else if keyColumns > 6 ∧ i % keyColumns = 4 then last.map substitute
    else last
  (earlier.getD (keyColumns - 1) .zero).add step

/-- The round keys of a key of whole columns: six more of them than the key has columns, and one
to begin with. -/
def expandKey (key : Bytes) : List State :=
  let keyColumns := key.length / 4
  let total := 4 * (keyColumns + 7)
  let expanded := (List.range' keyColumns (total - keyColumns)).foldl
    (fun earlier i => nextKeyColumn keyColumns i earlier :: earlier) (columns key).reverse
  statesOfColumns expanded.reverse

/-- An expanded key. -/
structure Key where
  roundKeys : List State

/-- Expand a key of 16, 24 or 32 bytes; no other length is a key. -/
def Key.ofBytes? (key : Bytes) : Option Key :=
  if key.length = 16 ∨ key.length = 24 ∨ key.length = 32 then some ⟨expandKey key⟩ else none

/-- The rounds after the first key addition; the last round does not mix. -/
def encryptRounds : List State → State → State
  | [], v => v
  | [k], v => (v.map substitute).shiftRows.add k
  | k :: ks, v => encryptRounds ks ((v.map substitute).shiftRows.mixColumns.add k)

/-- Undo the rounds after the first key addition, last round first. -/
def decryptRounds : List State → State → State
  | [], v => v
  | [k], v => (v.add k).unshiftRows.map unsubstitute
  | k :: ks, v => ((decryptRounds ks v).add k).unmixColumns.unshiftRows.map unsubstitute

/-- Encrypt one block. -/
def Key.encrypt (key : Key) (v : State) : State :=
  match key.roundKeys with
  | [] => v
  | k :: ks => encryptRounds ks (v.add k)

/-- Decrypt one block. -/
def Key.decrypt (key : Key) (v : State) : State :=
  match key.roundKeys with
  | [] => v
  | k :: ks => (decryptRounds ks v).add k

/-- Encrypt blocks one by one, each chained to the ciphertext before it. -/
def Key.encryptChained (key : Key) : (previous : State) → List State → List State
  | _, [] => []
  | previous, v :: rest =>
    let c := key.encrypt (v.add previous)
    c :: key.encryptChained c rest

/-- Decrypt blocks one by one, each unchained from the ciphertext before it. -/
def Key.decryptChained (key : Key) : (previous : State) → List State → List State
  | _, [] => []
  | previous, c :: rest => (key.decrypt c).add previous :: key.decryptChained c rest

/-- Fill the last block: `n` bytes of value `n`, at least one and at most a whole block. -/
def padding (length : Nat) : Bytes :=
  let n := blockSize - length % blockSize
  List.replicate n (UInt8.ofNat n)

end Reassembly.Aes
