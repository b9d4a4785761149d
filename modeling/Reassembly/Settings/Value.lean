import Reassembly.Duration
import Reassembly.Log

/-!
# Values of settings

A setting is read from a text that a user gave. A text that cannot be read leaves the setting as it
was, and says so in the log; so does no text at all, silently. Only a duration too long to be held
is fatal. White space around a value is ignored, except where the text itself is the value.
-/

namespace Reassembly

/-- Reading a value from a text. -/
abbrev Reading (α : Type) := String → Except Duration.TooLong (Option α)

namespace Reading

/-- Read with a function that never meets a span too long. -/
def plain {α : Type} (read? : String → Option α) : Reading α := fun text => .ok (read? text)

/-- Read a number below a bound. -/
def natural (bound : Nat) : Reading Nat :=
  plain fun text => Number.natural? bound (Text.trim text.toList)

/-- Read a number at least `-bound` and below `bound`. -/
def integer (bound : Nat) : Reading Int :=
  plain fun text => Number.integer? bound (Text.trim text.toList)

/-- Read a floating-point number. -/
def floating (format : Number.BinaryFormat) : Reading Number.Floating :=
  plain fun text => Number.floating? format (Text.trim text.toList)

/-- The truth value of a lower-case word. -/
def truth? (word : String) : Option Bool :=
  if word ∈ ["1", "true", "yes", "y", "on"] then some true
  else if word ∈ ["0", "false", "no", "n", "off"] then some false
  else none

/-- Read a truth value. -/
def truth : Reading Bool :=
  plain fun text => truth? (String.ofList ((Text.trim text.toList).map Char.toLower))

/-- Read a text as it stands. -/
def text : Reading String := plain some

/-- Read a duration. -/
def duration : Reading Duration := Duration.read

/-- The value of a setting, given the text for it and the value that it has without one. -/
def settle {α : Type} (reading : Reading α) (name : String) (given : Option String) (current : α) :
    Except Duration.TooLong (Logged α) :=
  match given with
  | none => .ok ⟨current, []⟩
  | some text =>
    (reading text).map fun
      | some value => ⟨value, [⟨.info, s!"Config: {name} = {Text.quoted text} (user set)"⟩]⟩
      | none =>
        let value := Text.quoted text
        ⟨current, [⟨.warn, s!"Configuration value {value} for {name} cannot be parsed into correct type; ignoring."⟩]⟩

end Reading

/-- The kinds of values that settings have. -/
inductive SettingKind
  | natural (bits : Nat)
  | integer (bits : Nat)
  | floating (format : Number.BinaryFormat)
  | truth
  | text
  | duration

/-- A value of a setting. -/
inductive SettingValue
  | natural (value : Nat)
  | integer (value : Int)
  | floating (format : Number.BinaryFormat) (value : Number.Floating)
  | truth (value : Bool)
  | text (value : String)
  | duration (value : Duration)

/-- Reading a value of a kind. -/
def SettingKind.reading : SettingKind → Reading SettingValue
  | natural bits => fun text => (Reading.natural (Nat.pow 2 bits) text).map (·.map .natural)
  | integer bits => fun text => (Reading.integer (Nat.pow 2 (bits - 1)) text).map (·.map .integer)
  | floating format => fun text => (Reading.floating format text).map (·.map (.floating format))
  | truth => fun text => (Reading.truth text).map (·.map .truth)
  | text => fun value => (Reading.text value).map (·.map .text)
  | duration => fun text => (Reading.duration text).map (·.map .duration)

end Reassembly
