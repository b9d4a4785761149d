import Reassembly.Manifest.Json
import Reassembly.Proofs.Bytes
import Reassembly.Proofs.Json.Grammar

/-!
# What is written is a text of its value

Writing chooses one text of many: a character is escaped when it has to be, with one letter where there is one; there is
no space; and every field of a record is given, in order.
-/

namespace Reassembly.Json

open Bytes

/-! ## Strings -/

/-- A digit that is written is a hexadecimal digit, and a character of ASCII. -/
theorem hexDigit_digitChar {n : Nat} (h : n < 16) :
    HexDigit n (UInt8.ofNat (Nat.digitChar n).toNat) ∧ (Nat.digitChar n).toNat < 128 :=
  ⟨⟨h, .inl rfl⟩, (by decide : ∀ i : Fin 16, (Nat.digitChar i).toNat < 128) ⟨n, h⟩⟩

/-- A control that is written with an escape of four digits is spelled by it. -/
theorem spellsChar_control {c : Char} (h : c.toNat < 0x20)
    (htext : escaped c =
      "\\u00" ++ String.ofList [Nat.digitChar (c.toNat / 16), Nat.digitChar (c.toNat % 16)]) :
    SpellsChar c (ofText (escaped c)) := by
  obtain ⟨hhigh, hhighChar⟩ := hexDigit_digitChar (n := c.toNat / 16) (by omega)
  obtain ⟨hlow, hlowChar⟩ := hexDigit_digitChar (n := c.toNat % 16) (by omega)
  have hzero : HexDigit 0 0x30 := ⟨by decide, .inl rfl⟩
  have hdigits : ofText (String.ofList [Nat.digitChar (c.toNat / 16), Nat.digitChar (c.toNat % 16)]) =
      [UInt8.ofNat (Nat.digitChar (c.toNat / 16)).toNat, UInt8.ofNat (Nat.digitChar (c.toNat % 16)).toNat] := by
    rw [ofText_ofList, List.flatMap_cons, List.flatMap_cons, utf8EncodeChar_of_lt hhighChar,
      utf8EncodeChar_of_lt hlowChar]
    rfl
  rw [htext, ofText_append, hdigits]
  have hunit : CodeUnit c.toNat [0x30, 0x30, UInt8.ofNat (Nat.digitChar (c.toNat / 16)).toNat,
      UInt8.ofNat (Nat.digitChar (c.toNat % 16)).toNat] := by
    refine .digits ?_ ?_ ?_ hlow
    · rwa [show c.toNat / 4096 = 0 by omega]
    · rwa [show c.toNat / 256 % 16 = 0 by omega]
    · rwa [show c.toNat / 16 % 16 = c.toNat / 16 by omega]
  exact .unit hunit

/-- A character that is written with an escape of one letter is spelled by it. -/
theorem spellsChar_short {c : Char} (letter : UInt8) (h : (letter, c) ∈ shortEscapes)
    (htext : ofText (escaped c) = [0x5c, letter]) : SpellsChar c (ofText (escaped c)) := by
  rw [htext]
  exact .short h

/-- A character is written with one of its spellings. -/
theorem spellsChar_escaped (c : Char) : SpellsChar c (ofText (escaped c)) := by
  by_cases hshort : c ∈ ['"', '\\', '\x08', '\x0c', '\n', '\r', '\t']
  · simp only [List.mem_cons, List.not_mem_nil, or_false] at hshort
    rcases hshort with rfl | rfl | rfl | rfl | rfl | rfl | rfl
    · exact spellsChar_short 0x22 (by decide) (by decide)
    · exact spellsChar_short 0x5c (by decide) (by decide)
    · exact spellsChar_short 0x62 (by decide) (by decide)
    · exact spellsChar_short 0x66 (by decide) (by decide)
    · exact spellsChar_short 0x6e (by decide) (by decide)
    · exact spellsChar_short 0x72 (by decide) (by decide)
    · exact spellsChar_short 0x74 (by decide) (by decide)
  · simp only [List.mem_cons, List.not_mem_nil, or_false, not_or] at hshort
    obtain ⟨hquote, hbackslash, hback, hfeed, hline, hreturn, htab⟩ := hshort
    by_cases hcontrol : c.toNat < 0x20
    · refine spellsChar_control hcontrol ?_
      rw [escaped, if_neg hquote, if_neg hbackslash, if_neg hback, if_neg hfeed, if_neg hline, if_neg hreturn,
        if_neg htab, if_pos hcontrol]
    · have hbytes : ofText (escaped c) = String.utf8EncodeChar c := by
        rw [escaped, if_neg hquote, if_neg hbackslash, if_neg hback, if_neg hfeed, if_neg hline, if_neg hreturn,
          if_neg htab, if_neg hcontrol, show c.toString = String.ofList [c] by simp, ofText_ofList]
        simp
      rw [hbytes]
      exact .plain hquote hbackslash hcontrol

/-- A text is written with one of its spellings. -/
theorem spells_escaped (chars : List Char) : Spells chars ((chars.map escaped).flatMap ofText) := by
  induction chars with
  | nil => exact .nil
  | cons c later ih => exact .cons (spellsChar_escaped c) ih

/-- The bytes of a written string: those of its characters between quotation marks. -/
theorem ofText_writeString (text : String) :
    ofText (writeString text) = quoted ((text.toList.map escaped).flatMap ofText) := by
  rw [writeString, ofText_append, ofText_append, ofText_join]
  rfl

/-- A written string writes its text. -/
theorem stringText_writeString (text : String) : StringText text (ofText (writeString text)) :=
  ⟨_, spells_escaped text.toList, ofText_writeString text⟩

/-! ## Arrays and objects -/

/-- Texts that are joined by commas are encoded part by part. -/
theorem ofText_intercalate (texts : List String) :
    ofText (String.intercalate "," texts) = separated true (texts.map ofText) := by
  rw [ofText_eq, String.toList_intercalate]
  induction texts with
  | nil => rfl
  | cons text later ih =>
    cases later with
    | nil => simp [separated, ofText_eq]
    | cons second later =>
      rw [List.map_cons, List.map_cons, List.intercalate_cons_cons, List.flatMap_append, List.flatMap_append,
        ← ofText_eq, ← List.map_cons, ih]
      show ofText text ++ [0x2c] ++ _ = _
      simp [separated]

/-- A value without space around it. -/
def Padded.bare (value : Bytes) : Padded := ⟨[], value, [], Blank.nil, Blank.nil⟩

/-- A member as it is written. -/
def Member.written (label : String) (value : Bytes) : Member where
  before := []
  name := (label.toList.map escaped).flatMap ofText
  gap := []
  value := .bare value
  blank_before := Blank.nil
  blank_gap := Blank.nil
  label := label
  spells := spells_escaped label.toList

/-- The bytes of a written array: its elements between brackets. -/
theorem ofText_writeArray (elements : List String) :
    ofText (writeArray elements) = listText [] (elements.map fun element => .bare (ofText element)) := by
  have helements :
      (elements.map fun element => Padded.bare (ofText element)).map Padded.text = elements.map ofText := by
    rw [List.map_map]
    exact List.map_congr_left fun element _ => List.append_nil _
  rw [writeArray, ofText_append, ofText_append, ofText_intercalate, listText, helements]
  rfl

/-- The bytes of a written object: its members between braces. -/
theorem ofText_writeObject (members : List (String × String)) :
    ofText (writeObject members) = 0x7b :: (separated true
      (members.map fun member => (Member.written member.1 (ofText member.2)).text) ++ [0x7d]) := by
  have hmembers : (members.map fun member => writeString member.1 ++ ":" ++ member.2).map ofText =
      members.map fun member => (Member.written member.1 (ofText member.2)).text := by
    rw [List.map_map]
    refine List.map_congr_left fun member _ => ?_
    show ofText (writeString member.1 ++ ":" ++ member.2) = _
    rw [ofText_append, ofText_append, ofText_writeString]
    simp [Line.text, Line.tail, Member.written, Padded.bare, quoted]
    rfl
  rw [writeObject, ofText_append, ofText_append, ofText_intercalate]
  show 0x7b :: (separated true ((members.map fun member => writeString member.1 ++ ":" ++ member.2).map ofText) ++
    [0x7d]) = _
  rw [hmembers]

/-- Among members with different labels, one is found by its label. -/
theorem filter_label {members : List Member} (h : (members.map Member.label).Nodup) {m : Member} (hm : m ∈ members) :
    members.filter (·.label = m.label) = [m] := by
  induction members with
  | nil => exact absurd hm List.not_mem_nil
  | cons first later ih =>
    rw [List.map_cons, List.nodup_cons] at h
    rcases List.mem_cons.mp hm with rfl | hm
    · rw [List.filter_cons_of_pos (by simp), List.filter_eq_nil_iff.mpr]
      intro other hother heq
      exact h.1 (List.mem_map.mpr ⟨other, hother, of_decide_eq_true heq⟩)
    · have hne : first.label ≠ m.label := fun heq => h.1 (List.mem_map.mpr ⟨m, hm, heq.symm⟩)
      rw [List.filter_cons_of_neg (by simpa using hne), ih h.2 hm]

/-- A written object of all fields of a record, in order, is a text of it. -/
theorem recordText_writeObject (values : List (Field × String)) (h : ∀ p ∈ values, p.1.writes (ofText p.2))
    (hlabels : (values.map fun p => p.1.label).Nodup) :
    RecordText (values.map Prod.fst) (ofText (writeObject (values.map fun p => (p.1.label, p.2)))) := by
  have hmap : (values.map fun p => Member.written p.1.label (ofText p.2)).map Member.label =
      values.map fun p => p.1.label := List.map_map
  refine ⟨[], values.map fun p => .written p.1.label (ofText p.2), Blank.nil, ?_, fun field hfield => ?_,
    fun m hm hother => ?_⟩
  · rw [ofText_writeObject, objectText, List.map_map, List.map_map, List.map_map]
    rfl
  · obtain ⟨p, hp, rfl⟩ := List.mem_map.mp hfield
    rw [← hmap] at hlabels
    exact .inl ⟨_, filter_label hlabels (List.mem_map_of_mem hp), h p hp⟩
  · rw [List.map_map] at hother
    exact absurd (hmap ▸ List.mem_map_of_mem hm) hother

end Reassembly.Json
