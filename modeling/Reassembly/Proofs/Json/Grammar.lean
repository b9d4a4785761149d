import Reassembly.Json.Scan

/-!
# Which texts write a value

The grammar of JSON texts, said without a reader. A string may be spelled in many ways: any character may be escaped
by its number, a few by one letter, and one of more than 16 bits by a pair of surrogates. Space may stand around any
part. A value that nobody wants need only be well formed: its strings may hold halves of pairs, and any bytes that are
not controls.
-/

namespace Reassembly.Json

/-- Bytes that may stand between the parts of a text. -/
def Blank (bytes : Bytes) : Prop := ∀ b ∈ bytes, b ∈ [0x20, 0x09, 0x0a, 0x0d]

/-- Nothing is a blank. -/
theorem Blank.nil : Blank [] := fun _ h => absurd h List.not_mem_nil

/-- A single space is a blank. -/
theorem Blank.single {b : UInt8} (h : b ∈ [0x20, 0x09, 0x0a, 0x0d]) : Blank [b] := List.forall_mem_singleton.mpr h

/-! ## Strings -/

/-- A byte that stands for itself in a string. -/
def IsPlain (b : UInt8) : Prop := b ≠ 0x22 ∧ b ≠ 0x5c ∧ ¬ b < 0x20

/-- A hexadecimal digit of either case. -/
def HexDigit (n : Nat) (b : UInt8) : Prop :=
  n < 16 ∧ (b = UInt8.ofNat (Nat.digitChar n).toNat ∨ b = UInt8.ofNat (Nat.digitChar n).toUpper.toNat)

/-- Four hexadecimal digits, which write a number of 16 bits. -/
inductive CodeUnit : Nat → Bytes → Prop
  | digits {n : Nat} {a b c d : UInt8} (first : HexDigit (n / 4096) a) (second : HexDigit (n / 256 % 16) b)
      (third : HexDigit (n / 16 % 16) c) (fourth : HexDigit (n % 16) d) : CodeUnit n [a, b, c, d]

/-- The letters of the short escapes, and the characters that they stand for. -/
def shortEscapes : List (UInt8 × Char) :=
  [(0x22, '"'), (0x5c, '\\'), (0x2f, '/'), (0x62, '\x08'), (0x66, '\x0c'), (0x6e, '\n'), (0x72, '\r'), (0x74, '\t')]

/-- A spelling of a character inside a string. -/
inductive SpellsChar : Char → Bytes → Prop
  | plain {c : Char} (quote : c ≠ '"') (backslash : c ≠ '\\') (control : ¬ c.toNat < 0x20) :
      SpellsChar c (String.utf8EncodeChar c)
  | short {c : Char} {letter : UInt8} (h : (letter, c) ∈ shortEscapes) : SpellsChar c [0x5c, letter]
  | unit {c : Char} {digits : Bytes} (h : CodeUnit c.toNat digits) : SpellsChar c (0x5c :: 0x75 :: digits)
  | pair {c : Char} {high low : Bytes} (large : 0x10000 ≤ c.toNat)
      (first : CodeUnit (0xd800 + (c.toNat - 0x10000) / 0x400) high)
      (second : CodeUnit (0xdc00 + (c.toNat - 0x10000) % 0x400) low) :
      SpellsChar c (0x5c :: 0x75 :: (high ++ 0x5c :: 0x75 :: low))

/-- A spelling of a text inside a string. -/
inductive Spells : List Char → Bytes → Prop
  | nil : Spells [] []
  | cons {c : Char} {chars : List Char} {bytes later : Bytes} (first : SpellsChar c bytes)
      (others : Spells chars later) : Spells (c :: chars) (bytes ++ later)

/-- What may stand inside a string that nobody reads. -/
inductive StringBody : Bytes → Prop
  | nil : StringBody []
  | plain {b : UInt8} {later : Bytes} (h : IsPlain b) (others : StringBody later) : StringBody (b :: later)
  | short {c : Char} {letter : UInt8} {later : Bytes} (h : (letter, c) ∈ shortEscapes) (others : StringBody later) :
      StringBody (0x5c :: letter :: later)
  | unit {n : Nat} {digits later : Bytes} (h : CodeUnit n digits) (others : StringBody later) :
      StringBody (0x5c :: 0x75 :: (digits ++ later))

/-- A string with the given bytes between its quotation marks. -/
def quoted (body : Bytes) : Bytes := 0x22 :: (body ++ [0x22])

/-- A string that writes a text. -/
def StringText (text : String) (bytes : Bytes) : Prop := ∃ body, Spells text.toList body ∧ bytes = quoted body

/-! ## Words and numbers -/

/-- The word of a truth value. -/
def wordOf (value : Bool) : String := if value then "true" else "false"

/-- The digits of a number. -/
def digitsOf (n : Nat) : Bytes := Bytes.ofText (toString n)

/-- One decimal digit or more. -/
def Digits (bytes : Bytes) : Prop := bytes ≠ [] ∧ ∀ b ∈ bytes, isDigit b = true

/-- Digits in front of the point: the first of several is not zero. -/
def WholeDigits (bytes : Bytes) : Prop := Digits bytes ∧ (bytes.head? = some 0x30 → bytes.length = 1)

/-- The point and the digits behind it, if there is one. -/
inductive FractionText : Option Bytes → Bytes → Prop
  | none : FractionText none []
  | some {found : Bytes} (h : Digits found) : FractionText (some found) (0x2e :: found)

/-- The exponent mark, its sign and the digits behind it, if there is one. -/
inductive ExponentText : Option (Bool × Bytes) → Bytes → Prop
  | none : ExponentText none []
  | unsigned {mark : UInt8} {found : Bytes} (hmark : mark ∈ [0x65, 0x45]) (h : Digits found) :
      ExponentText (some (false, found)) (mark :: found)
  | positive {mark : UInt8} {found : Bytes} (hmark : mark ∈ [0x65, 0x45]) (h : Digits found) :
      ExponentText (some (false, found)) (mark :: 0x2b :: found)
  | negative {mark : UInt8} {found : Bytes} (hmark : mark ∈ [0x65, 0x45]) (h : Digits found) :
      ExponentText (some (true, found)) (mark :: 0x2d :: found)

/-- The text of a number. -/
inductive NumberForm : NumberText → Bytes → Prop
  | unsigned {whole fractionText exponentText : Bytes} {fraction : Option Bytes} {exponent : Option (Bool × Bytes)}
      (hwhole : WholeDigits whole) (hfraction : FractionText fraction fractionText)
      (hexponent : ExponentText exponent exponentText) :
      NumberForm ⟨false, whole, fraction, exponent⟩ (whole ++ (fractionText ++ exponentText))
  | negative {whole fractionText exponentText : Bytes} {fraction : Option Bytes} {exponent : Option (Bool × Bytes)}
      (hwhole : WholeDigits whole) (hfraction : FractionText fraction fractionText)
      (hexponent : ExponentText exponent exponentText) :
      NumberForm ⟨true, whole, fraction, exponent⟩ (0x2d :: (whole ++ (fractionText ++ exponentText)))

/-! ## Arrays and objects -/

/-- Parts with a separator before each but the first. -/
def separated : (first : Bool) → List Bytes → Bytes
  | _, [] => []
  | true, part :: later => part ++ separated false later
  | false, part :: later => 0x2c :: part ++ separated false later

/-- A value with space around it. -/
structure Padded where
  before : Bytes
  value : Bytes
  behind : Bytes
  blank_before : Blank before
  blank_behind : Blank behind

/-- The text of a value with the space around it. -/
def Padded.text (padded : Padded) : Bytes := padded.before ++ (padded.value ++ padded.behind)

/-- A name and a value in an object, with space around each of them. -/
structure Line where
  before : Bytes
  /-- What stands between the quotation marks of the name. -/
  name : Bytes
  gap : Bytes
  value : Padded
  blank_before : Blank before
  blank_gap : Blank gap

/-- What stands behind the name of a line, up to the end of its value. -/
def Line.tail (line : Line) : Bytes := line.gap ++ 0x3a :: (line.value.before ++ line.value.value)

/-- The text of a line. -/
def Line.text (line : Line) : Bytes :=
  line.before ++ 0x22 :: (line.name ++ 0x22 :: (line.tail ++ line.value.behind))

/-- A line whose name is a spelling of a label. -/
structure Member extends Line where
  label : String
  spells : Spells label.toList name

/-- The text of an array. Space of its own stands behind the opening bracket. -/
def listText (blank : Bytes) (elements : List Padded) : Bytes :=
  0x5b :: (blank ++ (separated true (elements.map Padded.text) ++ [0x5d]))

/-- The text of an object. Space of its own stands behind the opening brace. -/
def objectText (blank : Bytes) (lines : List Line) : Bytes :=
  0x7b :: (blank ++ (separated true (lines.map Line.text) ++ [0x7d]))

/-- The text of a value of any kind, nested to any depth. -/
inductive WellFormed : Bytes → Prop
  | null : WellFormed (Bytes.ofText "null")
  | truth (value : Bool) : WellFormed (Bytes.ofText (wordOf value))
  | string {body : Bytes} (h : StringBody body) : WellFormed (quoted body)
  | number {parts : NumberText} {text : Bytes} (h : NumberForm parts text) : WellFormed text
  | list {blank : Bytes} {elements : List Padded} (hblank : Blank blank)
      (helements : ∀ e ∈ elements, WellFormed e.value) : WellFormed (listText blank elements)
  | object {blank : Bytes} {lines : List Line} (hblank : Blank blank) (hnames : ∀ line ∈ lines, StringBody line.name)
      (hvalues : ∀ line ∈ lines, WellFormed line.value.value) : WellFormed (objectText blank lines)

/-- An array of well-formed elements. -/
def ListOf (elements : List Padded) (text : Bytes) : Prop :=
  ∃ blank, Blank blank ∧ text = listText blank elements ∧ ∀ e ∈ elements, WellFormed e.value

/-- An object of lines with well-formed names and values. -/
def ObjectOf (lines : List Line) (text : Bytes) : Prop :=
  ∃ blank, Blank blank ∧ text = objectText blank lines ∧
    ∀ line ∈ lines, StringBody line.name ∧ WellFormed line.value.value

/-! ## Records -/

/-- A field of a record: its label, how its value may be written, and when it may be left out. -/
structure Field where
  label : String
  writes : Bytes → Prop
  omissible : Prop

/-- Members give a field when exactly one of them has its label, and with a value that may be written so; or when none
has, and it may be left out. -/
def Field.GivenBy (field : Field) (members : List Member) : Prop :=
  (∃ m, members.filter (·.label = field.label) = [m] ∧ field.writes m.value.value) ∨
    field.omissible ∧ ∀ m ∈ members, m.label ≠ field.label

/-- The text of an object that gives the fields of a record. Its members stand in any order, and those with other labels
have any values. -/
def RecordText (fields : List Field) (text : Bytes) : Prop :=
  ∃ blank members, Blank blank ∧ text = objectText blank (members.map Member.toLine) ∧
    (∀ field ∈ fields, field.GivenBy members) ∧
    ∀ m ∈ members, m.label ∉ fields.map Field.label → WellFormed m.value.value

/-- One of the labels is spelled by two names of an object. -/
def Repeats (labels : List String) (lines : List Line) : Prop :=
  ∃ label ∈ labels, ∃ first second, List.Sublist [first, second] lines ∧
    Spells label.toList first.name ∧ Spells label.toList second.name

end Reassembly.Json
