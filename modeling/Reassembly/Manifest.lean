import Reassembly.Codec.Compression
import Reassembly.Text.Quoted

/-!
# Manifests

A manifest is what the metadata service answers for a file: whether the file is encrypted and
under which wrapped key, the name of its compression, and for every chunk where to download it and
how long its data is. Names and lengths are kept as received; laying out a file checks them.
-/

namespace Reassembly

/-- Whether a file is encrypted, and its wrapped content key. -/
structure Encryption where
  encrypted : Bool := false
  wrappedKey : String := ""
  deriving Repr, DecidableEq, Inhabited

/-- One chunk as announced: where it is stored, and the length of its data. -/
structure ManifestEntry where
  location : String
  length : Nat
  deriving Repr, DecidableEq

/-- The answer of the metadata service for one file. -/
structure Manifest where
  encryption : Encryption := {}
  compression : String := Compression.none.name
  entries : List ManifestEntry := []
  deriving Repr, DecidableEq, Inhabited

/-- The wording for a compression that is not known, named in upper case. -/
def unknownCompression (name : String) : String :=
  s!"unknown compression type {Text.quoted (name.map Char.toUpper)}"

/-- The compression that a manifest names. -/
def Manifest.compression? (manifest : Manifest) : Option Compression :=
  Compression.ofName? manifest.compression

end Reassembly
