import Reassembly.Proofs.Codec.Snappy

/-!
# The length of a raw Snappy block

A copy is written in fewer bytes than it stands for, and a literal in few more than it has. The search puts
a copy between any two literals of a piece, so that a block is hardly longer than its data.
-/

namespace Reassembly.Snappy

/-- The most bytes that a block of so many bytes of data may take. -/
def longestBlock (length : Nat) : Nat := 32 + length + length / 6

section Costs

/-- A group more or less does not change that numbers are short. -/
theorem length_writeVarint_le (groups n : Nat) : (writeVarint groups n).length ≤ groups := by
  induction groups generalizing n with
  | zero => exact Nat.le_refl 0
  | succ groups ih =>
    rw [writeVarint]
    split
    · exact Nat.succ_le_succ (Nat.zero_le groups)
    · exact Nat.succ_le_succ (ih _)

/-- A literal takes one byte more than it has, and one in 32 when it is long. -/
theorem length_writeLiteral_le (data : Bytes) : 32 * (writeLiteral data).length ≤ 33 * data.length + 32 := by
  rw [writeLiteral]
  split
  · simp
  · next n hn =>
    split
    · simp only [List.length_cons]
      omega
    split
    · simp only [List.length_cons, List.length_append, Bytes.length_ofNatLittleEndian]
      omega
    split
    · simp only [List.length_cons, List.length_append, Bytes.length_ofNatLittleEndian]
      omega
    split
    · simp only [List.length_cons, List.length_append, Bytes.length_ofNatLittleEndian]
      omega
    · simp only [List.length_cons, List.length_append, Bytes.length_ofNatLittleEndian]
      omega

/-- A far copy takes three bytes. -/
theorem length_writeFarCopy (offset length : Nat) : (writeFarCopy offset length).length = 3 := by
  rw [writeFarCopy, List.length_cons, Bytes.length_ofNatLittleEndian]

/-- A short copy takes at most three bytes. -/
theorem length_writeShortCopy_le (offset length : Nat) : (writeShortCopy offset length).length ≤ 3 := by
  rw [writeShortCopy]
  split
  · exact Nat.le_succ 2
  · exact Nat.le_of_eq (length_writeFarCopy offset length)

/-- A copy takes fewer bytes than it stands for. -/
theorem length_writeCopy_lt {offset length : Nat} (h : 4 ≤ length) : (writeCopy offset length).length < length := by
  induction length using Nat.strongRecOn with
  | ind length ih =>
    rw [writeCopy]
    have hshort := length_writeShortCopy_le offset
    split
    · have hrest := ih (length - 64) (by omega) (by omega)
      rw [List.length_append, length_writeFarCopy]
      omega
    split
    · have hrest := hshort (length - 60)
      rw [List.length_append, length_writeFarCopy]
      omega
    · exact Nat.lt_of_le_of_lt (hshort length) h

end Costs

section Search

/-- The bytes that elements take. -/
def costOf (elements : List Element) : Nat := (elements.map fun element => element.encode.length).sum

/-- The bytes that elements stand for. -/
def lengthOf (elements : List Element) : Nat := (elements.map Element.length).sum

/-- Elements take one byte in 32 more than they stand for, and some slack. -/
def Within (slack : Nat) (elements : List Element) : Prop := 32 * costOf elements ≤ 33 * lengthOf elements + slack

variable {elements : List Element}

/-- A literal in front takes up the slack of a byte. -/
theorem Within.literal (h : Within 0 elements) (data : Bytes) : Within 32 (.literal data :: elements) := by
  have hcost := length_writeLiteral_le data
  simp only [Within, costOf, lengthOf, List.map_cons, List.sum_cons, Element.encode, Element.length] at h ⊢
  omega

/-- A copy in front gives the slack of a byte. -/
theorem Within.copy (h : Within 32 elements) (offset : Nat) {length : Nat} (hlong : 4 ≤ length) :
    Within 0 (.copy offset length :: elements) := by
  have hcost : (writeCopy offset length).length < length := length_writeCopy_lt hlong
  simp only [Within, costOf, lengthOf, List.map_cons, List.sum_cons, Element.encode, Element.length] at h ⊢
  omega

/-- More slack does not hurt. -/
theorem Within.loosen (h : Within 0 elements) : Within 32 elements := by
  rw [Within] at h ⊢
  omega

/-- The literal between two positions takes up the slack of a byte. -/
theorem Within.pieceLiteral (h : Within 0 elements) (piece : Piece) (start stop : Nat) :
    Within 32 (piece.literal start stop elements) := by
  rw [Piece.literal]
  split
  · exact h.literal _
  · exact h.loosen

/-- The slack of the elements in front of a pursuit: a literal has just been planned when a repetition is
followed. -/
def Pursuit.slack : Pursuit → Nat
  | seek .. => 0
  | follow _ => 32

/-- The search goes on within the slack. -/
theorem within_search (piece : Piece) (table : Array Nat) (s emitted : Nat) (pursuit : Pursuit)
    (earlier : List Element) (h : Within pursuit.slack earlier) :
    Within 32 (search piece table s emitted pursuit earlier) := by
  have hcopy : ∀ {elements : List Element} (offset common : Nat), Within 32 elements →
      Within 0 (.copy offset (4 + common) :: elements) :=
    fun offset common hbefore => hbefore.copy offset (Nat.le_add_right 4 common)
  fun_induction search piece table s emitted pursuit earlier with
  | case1 table s emitted earlier skip next ahead hahead candidate after hsame ih =>
    exact ih (Within.pieceLiteral h piece emitted s)
  | case2 table s emitted earlier skip next ahead hahead candidate after hother ih => exact ih h
  | case3 table s emitted earlier skip next ahead hend => exact Within.pieceLiteral h piece emitted _
  | case4 table s emitted earlier candidate length stop copied hstop _ _ _ _ _ ih =>
    exact ih (hcopy _ _ h).loosen
  | case5 table s emitted earlier candidate length stop copied hstop _ _ _ _ _ ih => exact ih (hcopy _ _ h)
  | case6 table s emitted earlier candidate length stop copied hend =>
    exact Within.pieceLiteral (hcopy _ _ h) piece stop _

/-- The order of elements does not count. -/
theorem Within.reverse {slack : Nat} (h : Within slack elements) : Within slack elements.reverse := by
  simp only [Within, costOf, lengthOf, List.map_reverse, List.sum_reverse] at h ⊢
  exact h

/-- The elements of a piece are within the slack. -/
theorem within_planPiece (data : Array UInt8) : Within 32 (planPiece data) := by
  have hnone : Within 0 [] := Nat.le_refl 0
  rw [planPiece]
  split
  · exact hnone.pieceLiteral _ _ _
  · exact Within.reverse (within_search _ _ _ _ _ _ hnone)

/-- The elements of pieces are within the slack of all of them. -/
theorem within_flatMap (pieces : List Bytes) :
    Within (32 * pieces.length) (pieces.flatMap fun piece => planPiece piece.toArray) := by
  induction pieces with
  | nil => exact Nat.le_refl 0
  | cons piece rest ih =>
    have hpiece := within_planPiece piece.toArray
    simp only [Within, costOf, lengthOf, List.flatMap_cons, List.map_append, List.sum_append,
      List.length_cons] at ih hpiece ⊢
    omega

end Search

section Length

/-- Data has at most one part more than it has whole parts. -/
theorem length_split_le (size : Nat) (data : Bytes) :
    size * (split size data).length ≤ data.length + size := by
  fun_induction split size data with
  | case1 => exact Nat.zero_le _
  | case2 data hsome ih =>
    rw [List.length_cons, Nat.mul_succ]
    rcases Nat.le_total size data.length with hlong | hshort
    · rw [List.length_drop] at ih
      omega
    · have hlast : data.drop size = [] := List.drop_eq_nil_of_le hshort
      rw [hlast, split, if_pos (.inl rfl), List.length_nil, Nat.mul_zero, Nat.zero_add]
      exact Nat.le_add_left _ _

/-- The bytes of elements are those of each of them. -/
theorem length_flatMap_encode (elements : List Element) :
    (elements.flatMap Element.encode).length = costOf elements := by
  induction elements with
  | nil => rfl
  | cons element rest ih =>
    rw [List.flatMap_cons, List.length_append, ih]
    rfl

/-- The elements of a block take hardly more bytes than its data. -/
theorem costOf_elementsOf_le (data : Bytes) :
    32 * costOf (elementsOf data) ≤ 33 * data.length + 32 * (data.length / pieceSize + 1) := by
  rw [elementsOf]
  split
  · next hsound =>
    have hlength : lengthOf (plan data) = data.length := by
      have htotal := sum_length_elementsOf data
      rwa [elementsOf, if_pos hsound] at htotal
    have hcount : (split pieceSize data).length ≤ data.length / pieceSize + 1 := by
      have hsplit := length_split_le pieceSize data
      rw [pieceSize] at hsplit ⊢
      omega
    have hwithin := within_flatMap (split pieceSize data)
    rw [← plan, Within, hlength] at hwithin
    omega
  · split
    · exact Nat.zero_le _
    · have hcost := length_writeLiteral_le data
      rw [costOf, List.map_singleton, List.sum_singleton, Element.encode, pieceSize]
      omega

/-- A block is not much longer than its data. -/
theorem length_encode_le (data : Bytes) : (encode data).length ≤ longestBlock data.length := by
  have hvarint : (writeVarint maxGroups data.length).length ≤ 5 := length_writeVarint_le maxGroups _
  have hcost := costOf_elementsOf_le data
  rw [pieceSize] at hcost
  rw [encode, List.length_append, length_flatMap_encode, longestBlock]
  omega

end Length

end Reassembly.Snappy
