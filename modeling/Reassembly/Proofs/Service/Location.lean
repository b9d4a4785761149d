import Reassembly.Proofs.Number.Text
import Reassembly.Proofs.Text.Split
import Reassembly.Service.Location

/-!
# Locations are read back

A location leads to the file and the index that it was made of. The name of the file may be anything, for
the index has no slash in it.
-/

namespace Reassembly

namespace Location

/-- The characters of a location. -/
theorem toList_ofChunk (fileId : String) (index : Nat) :
    (ofChunk fileId index).toList = scheme.toList ++ (fileId.toList ++ '/' :: Nat.toDigits 10 index) := by
  have hindex : (toString index).toList = Nat.toDigits 10 index := Nat.toList_repr
  have hslash : "/".toList = ['/'] := rfl
  show (scheme ++ fileId ++ "/" ++ toString index).toList = _
  rw [String.toList_append, String.toList_append, String.toList_append, hindex, hslash]
  simp

/-- A location leads to its file and its index. -/
theorem read_ofChunk (fileId : String) {index : Nat} (h : index < indexBound) :
    read (ofChunk fileId index) = .ok (fileId, index) := by
  have hslash : ∀ c ∈ Nat.toDigits 10 index, (fun c => decide (c = '/')) c = false := by
    intro c hc
    have hdigit := Number.isDigit_of_mem_toDigits hc
    apply decide_eq_false
    rintro rfl
    simp at hdigit
  have hread : read? (ofChunk fileId index) = some (fileId, index) := by
    rw [read?, toList_ofChunk, Text.isPrefixOf?_append]
    show (Text.splitLast? _ _ >>= _) = _
    rw [Text.splitLast?_append hslash (by decide)]
    show (Number.natural? indexBound _ >>= _) = _
    rw [Number.natural?_toDigits h]
    show some (String.ofList fileId.toList, index) = _
    rw [String.ofList_toList]
  rw [read, hread]

/-- A location is not empty. -/
theorem ofChunk_ne_empty (fileId : String) (index : Nat) : ofChunk fileId index ≠ "" := by
  intro hempty
  have hlist := toList_ofChunk fileId index
  rw [hempty] at hlist
  simp [scheme] at hlist

end Location

end Reassembly
