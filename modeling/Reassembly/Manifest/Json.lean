import Reassembly.Json.Structure
import Reassembly.Manifest

/-!
# The JSON form of manifests

A manifest is an object of three members, each of which may be missing. Records may also be
written as arrays of their fields in order. Members with other names are skipped; a known member
that stands twice is refused in front of its second value. Writing gives every member, in order
and without space.
-/

namespace Reassembly

open Json Reader

namespace Encryption

/-- The members of an encryption record that have been read. -/
structure Members where
  encrypted : Option Bool := none
  wrappedKey : Option String := none

/-- The places of an encryption record. -/
def Members.places : List (Place Members) :=
  [⟨"data_encrypted", Bool, boolean, encrypted, fun members b => { members with encrypted := some b },
      consumes_boolean.shrinks, fun _ _ => rfl⟩,
    ⟨"wrapped_key", String, string, wrappedKey, fun members text => { members with wrappedKey := some text },
      consumes_string.shrinks, fun _ _ => rfl⟩]

/-- The record of the members that have been read; a missing one takes its default. -/
def Members.toEncryption (members : Members) : Encryption :=
  ⟨members.encrypted.getD false, members.wrappedKey.getD ""⟩

/-- Read an encryption record from an object. -/
def ofObject : JsonReader Encryption := do
  let members ← membersFrom (takeInto Members.places) (consumes_takeInto _) true {}
  return members.toEncryption

/-- Read an encryption record from an array. -/
def ofArray : JsonReader Encryption := do
  let encrypted ← element? true boolean
  let wrappedKey ← if encrypted.isSome then element? false string else pure none
  return (⟨encrypted, wrappedKey⟩ : Members).toEncryption

/-- Read an encryption record. -/
def json : JsonReader Encryption := record ofObject ofArray

end Encryption

/-- Reading an encryption record consumes. -/
theorem Encryption.consumes_json : Consumes Encryption.json := by
  refine consumes_record ?_ ?_
  · exact (shrinks_membersFrom _ _ _ _).bind fun _ => Shrinks.pure _
  · refine (shrinks_element? _ consumes_boolean.shrinks).bind fun encrypted => ?_
    dsimp only
    split
    · exact (shrinks_element? _ consumes_string.shrinks).bind fun _ => Shrinks.pure _
    · exact (Shrinks.pure _).bind fun _ => Shrinks.pure _

namespace ManifestEntry

/-- The members of an entry that have been read. -/
structure Members where
  location : Option String := none
  length : Option Nat := none

/-- The places of an entry. -/
def Members.places : List (Place Members) :=
  [⟨"url", String, string, location, fun members text => { members with location := some text },
      consumes_string.shrinks, fun _ _ => rfl⟩,
    ⟨"len", Nat, natural, length, fun members n => { members with length := some n },
      consumes_natural.shrinks, fun _ _ => rfl⟩]

/-- The entry of the members that have been read. Neither may be missing. -/
def Members.toEntry (members : Members) : JsonReader ManifestEntry :=
  match members with
  | ⟨some location, some length⟩ => pure ⟨location, length⟩
  | _ => refuse .mistyped

/-- Making an entry shrinks. -/
theorem Members.shrinks_toEntry (members : Members) : Shrinks members.toEntry := by
  unfold Members.toEntry
  split
  · exact Shrinks.pure _
  · exact Shrinks.refuse _

/-- Read an entry from an object. -/
def ofObject : JsonReader ManifestEntry := do
  let members ← membersFrom (takeInto Members.places) (consumes_takeInto _) true {}
  members.toEntry

/-- Read an entry from an array. -/
def ofArray : JsonReader ManifestEntry := do
  match ← element? true string with
  | none => refuse .mistyped
  | some location =>
    match ← element? false natural with
    | none => refuse .mistyped
    | some length => return ⟨location, length⟩

/-- Read an entry. -/
def json : JsonReader ManifestEntry := record ofObject ofArray

/-- Reading an entry consumes. -/
theorem consumes_json : Consumes json := by
  refine consumes_record ?_ ?_
  · exact (shrinks_membersFrom _ _ _ _).bind fun members => members.shrinks_toEntry
  · refine (shrinks_element? _ consumes_string.shrinks).bind fun location => ?_
    split
    · exact Shrinks.refuse _
    · refine (shrinks_element? _ consumes_natural.shrinks).bind fun length => ?_
      split
      · exact Shrinks.refuse _
      · exact Shrinks.pure _

end ManifestEntry

namespace Manifest

/-- The members of a manifest that have been read. -/
structure Members where
  encryption : Option Encryption := none
  compression : Option String := none
  entries : Option (List ManifestEntry) := none

/-- Read the entries of a manifest. -/
def entriesJson : JsonReader (List ManifestEntry) :=
  array ManifestEntry.json ManifestEntry.consumes_json

/-- Reading entries consumes. -/
theorem consumes_entriesJson : Consumes entriesJson := consumes_array _ _

/-- The places of a manifest. -/
def Members.places : List (Place Members) :=
  [⟨"encrypt_info", Encryption, Encryption.json, encryption,
      fun members record => { members with encryption := some record }, Encryption.consumes_json.shrinks,
      fun _ _ => rfl⟩,
    ⟨"compression_type", String, string, compression,
      fun members name => { members with compression := some name }, consumes_string.shrinks, fun _ _ => rfl⟩,
    ⟨"chunks", List ManifestEntry, entriesJson, entries,
      fun members found => { members with entries := some found }, consumes_entriesJson.shrinks,
      fun _ _ => rfl⟩]

/-- The manifest of the members that have been read; a missing one takes its default. -/
def Members.toManifest (members : Members) : Manifest :=
  ⟨members.encryption.getD {}, members.compression.getD Compression.none.name,
    members.entries.getD []⟩

/-- Read a manifest from an object. -/
def ofObject : JsonReader Manifest := do
  let members ← membersFrom (takeInto Members.places) (consumes_takeInto _) true {}
  return members.toManifest

/-- Read a manifest from an array. -/
def ofArray : JsonReader Manifest := do
  let encryption ← element? true Encryption.json
  let compression ← if encryption.isSome then element? false string else pure none
  let entries ← if compression.isSome then element? false entriesJson else pure none
  return (⟨encryption, compression, entries⟩ : Members).toManifest

/-- Read a manifest from a text that holds nothing else. -/
def parse (text : Bytes) : Except Json.Fault Manifest := Json.whole (record ofObject ofArray) text

end Manifest

/-! ## Writing -/

namespace Json

/-- A character inside a written string. Quotation marks, backslashes and controls are escaped. -/
def escaped (c : Char) : String :=
  if c = '"' then "\\\""
  else if c = '\\' then "\\\\"
  else if c = '\x08' then "\\b"
  else if c = '\x0c' then "\\f"
  else if c = '\n' then "\\n"
  else if c = '\r' then "\\r"
  else if c = '\t' then "\\t"
  else if c.toNat < 0x20 then
    "\\u00" ++ String.ofList [Nat.digitChar (c.toNat / 16), Nat.digitChar (c.toNat % 16)]
  else c.toString

/-- Write a string. -/
def writeString (text : String) : String := "\"" ++ String.join (text.toList.map escaped) ++ "\""

/-- Write an object of members whose values are written already. -/
def writeObject (members : List (String × String)) : String :=
  "\x7b" ++ String.intercalate "," (members.map fun (name, value) => writeString name ++ ":" ++ value)
    ++ "\x7d"

/-- Write an array of elements that are written already. -/
def writeArray (elements : List String) : String := "[" ++ String.intercalate "," elements ++ "]"

end Json

/-- Write an encryption record. -/
def Encryption.render (encryption : Encryption) : String :=
  writeObject [("data_encrypted", if encryption.encrypted then "true" else "false"),
    ("wrapped_key", writeString encryption.wrappedKey)]

/-- Write an entry. -/
def ManifestEntry.render (entry : ManifestEntry) : String :=
  writeObject [("url", writeString entry.location), ("len", toString entry.length)]

/-- Write a manifest. -/
def Manifest.render (manifest : Manifest) : String :=
  writeObject [("encrypt_info", manifest.encryption.render),
    ("compression_type", writeString manifest.compression),
    ("chunks", writeArray (manifest.entries.map ManifestEntry.render))]

end Reassembly
