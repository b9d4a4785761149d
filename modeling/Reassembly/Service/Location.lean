import Reassembly.Number.Text
import Reassembly.Service.Error
import Reassembly.Text.Split

/-!
# Locations in a depot

A depot hands out locations of the form `local://FILE/INDEX`. The index is what follows the last
slash, so that the name of a file may itself have slashes in it.
-/

namespace Reassembly.Location

/-- The scheme of the locations of a depot. -/
def scheme : String := "local://"

/-- Indices of chunks lie below this bound of 64 bits. -/
def indexBound : Nat := 0x10000000000000000

/-- The location of a chunk, counted from zero. -/
def ofChunk (fileId : String) (index : Nat) : String := s!"{scheme}{fileId}/{index}"

/-- The file and chunk that a location names. -/
def read? (location : String) : Option (String × Nat) := do
  let rest ← scheme.toList.isPrefixOf? location.toList
  let (fileId, index) ← Text.splitLast? (· = '/') rest
  let index ← Number.natural? indexBound index
  return (String.ofList fileId, index)

/-- The file and chunk that a location names, or the refusal of it. -/
def read (location : String) : Except ServiceError (String × Nat) :=
  match read? location with
  | some place => .ok place
  | none => .error (.invalidArguments s!"not a local chunk location: {location}")

end Reassembly.Location
